import BehaviorTree.Proofs.Tree.Loaded
import Mathlib

/-!
What a node has to have in its source. A node passes the checks of its kind exactly if its source has a
suitable number of children, the arguments that are asked for, each of its declared type and every expression
readable, and variables for the slots that need one. A strict loader asks on top of this that nothing be there
that is not declared.
-/

namespace BehaviorTree

/-! ### What is asked for -/

/-- The values of a type, as it is declared. -/
def ArgType.Holds : ArgType → Value → Prop
  | .bool, v => ∃ b, v = .bool b
  | .int, v => ∃ x n, v = .number x ∧ Number.whole? x = some n
  | .float, v => ∃ x, v = .number x
  | .string, v => ∃ s, v = .text s
  | .expr, v => ∃ code, v = .text code
  | .json, _ => True
  | .status, v => ∃ status : Status, v = .text status.name

/-- Every slot that is not optional has a variable. -/
def Slot.Wired (slots : List Slot) (vars : List String) : Prop :=
  ∀ (i : Nat) (slot : Slot), slots[i]? = some slot → slot.optional = false → ∃ var, vars[i]? = some var ∧ var ≠ ""

/-- There are no more variables than places for them. -/
def Slot.Hold (slots : List Slot) (vars : List String) : Prop :=
  vars.length ≤ slots.length ∨ ∃ last, slots.getLast? = some last ∧ last.variadic = true

namespace NodeSource

/-- The argument is there and is not null. -/
def Gives (data : NodeSource) (name : String) (v : Value) : Prop := data.args.get? name = some v ∧ v ≠ .null

/-- The children that count. -/
def enabled (data : NodeSource) : List NodeSource := data.children.filter fun child => !child.disabled

/-- An argument is there if it is required, of the declared type if it is there, and readable if it is an
expression. -/
structure Supplies (data : NodeSource) (arg : Arg) : Prop where
  required : arg.optional = false → ∃ v, data.Gives arg.name v
  typed : ∀ v, data.Gives arg.name v → arg.type.Holds v
  readable : arg.type = .expr → ∀ code, data.Gives arg.name (.text code) → ∃ e, Expr.read code = .ok e

/-- All that a node of a built-in kind has to have. -/
structure Fits (data : NodeSource) (kind : Kind) : Prop where
  least : kind.declaration.role.childBounds.1 ≤ data.enabled.length
  greatest : ∀ most, kind.declaration.role.childBounds.2 = some most → data.enabled.length ≤ most
  branches : kind = .ifElse → 2 ≤ data.enabled.length ∧ data.enabled.length ≤ 3
  args : ∀ arg ∈ kind.declaration.args, data.Supplies arg
  input : Slot.Wired kind.declaration.input data.input
  output : Slot.Wired kind.declaration.output data.output
  level : kind = .log → ∀ level, data.Gives "level" (.text level) → level ∈ Node.logLevels

/-- Nothing is there that is not declared. -/
structure Declares (data : NodeSource) (d : Declaration) : Prop where
  args : ∀ name ∈ data.args.names, ∃ arg ∈ d.args, arg.name = name
  input : Slot.Hold d.input data.input
  output : Slot.Hold d.output data.output

end NodeSource

/-! ### Values, slots and counts -/

theorem Status.ofName?_eq_some_iff {name : String} {status : Status} :
    Status.ofName? name = some status ↔ name = status.name := by
  constructor
  · intro named
    unfold ofName? at named
    split at named
    · cases named; assumption
    · split at named
      · cases named; assumption
      · split at named
        · cases named; assumption
        · cases named
  · rintro rfl
    exact ofName?_name status

/-- A type accepts the values that it holds. -/
theorem ArgType.accepts_iff_holds (type : ArgType) (v : Value) : type.accepts v = true ↔ type.Holds v := by
  cases type with
  | bool => cases v <;> simp [accepts, Holds, Value.bool?]
  | int =>
    cases v <;> simp [accepts, Holds, Value.int?, Option.isSome_iff_exists]
  | float => cases v <;> simp [accepts, Holds, Value.number?]
  | string => cases v <;> simp [accepts, Holds, Value.text?]
  | expr => cases v <;> simp [accepts, Holds, Value.text?]
  | json => simp [accepts, Holds]
  | status =>
    cases v <;> simp [accepts, Holds, Value.text?, Option.isSome_iff_exists, Status.ofName?_eq_some_iff]

theorem Slot.hold_iff (slots : List Slot) (vars : List String) :
    surplus? slots vars = none ↔ Slot.Hold slots vars := by
  unfold surplus? Slot.Hold
  rcases last : slots.getLast? with _ | slot
  · simp
  · rcases variadic : slot.variadic with _ | _ <;> simp [variadic]

/-- The variable of a slot is the name that is written for it, unless that is empty. -/
theorem getElem?_wire (vars : List String) (i : Nat) :
    ((Loader.wire vars)[i]?).join = (vars[i]?).filter fun var => var ≠ "" := by
  rw [Loader.wire, List.getElem?_map]
  rcases vars[i]? with _ | var
  · rfl
  · by_cases empty : var = "" <;> simp [empty, Option.filter]

namespace Node

/-- No slot is unwired just when every required one has a name. -/
theorem unwired?_eq_none_iff {slots : List Slot} {vars : List String} {wired : Nat → Option String}
    (wire : ∀ i, wired i = (vars[i]?).filter fun var => var ≠ "") :
    unwired? slots wired = none ↔ Slot.Wired slots vars := by
  have one (i : Nat) : wired i ≠ none ↔ ∃ var, vars[i]? = some var ∧ var ≠ "" := by
    rw [wire, ← Option.isSome_iff_ne_none, Option.isSome_iff_exists]
    simp only [Option.filter_eq_some_iff, decide_eq_true_eq]
  unfold unwired? Slot.Wired
  rw [Option.map_eq_none_iff, List.find?_eq_none]
  constructor
  · intro none i slot at_ required
    have checked := none (slot, i) (by rwa [List.mem_zipIdx_iff_getElem?])
    rw [← one]
    simpa [required] using checked
  · rintro all ⟨slot, i⟩ member
    rw [List.mem_zipIdx_iff_getElem?] at member
    rcases required : slot.optional with _ | _
    · have := (one i).mpr (all i slot member required)
      simpa [required] using this
    · simp [required]

/-- The slots pass the check just when the required ones are wired. -/
theorem checkSlots_eq_ok_iff {node : Node} {data : NodeSource} (d : Declaration)
    (input : node.input = Loader.wire data.input) (output : node.output = Loader.wire data.output) :
    node.checkSlots d = .ok () ↔ Slot.Wired d.input data.input ∧ Slot.Wired d.output data.output := by
  have first : unwired? d.input node.inputVar? = none ↔ Slot.Wired d.input data.input :=
    unwired?_eq_none_iff fun i => by rw [inputVar?, input, getElem?_wire]
  have second : unwired? d.output node.outputVar? = none ↔ Slot.Wired d.output data.output :=
    unwired?_eq_none_iff fun i => by rw [outputVar?, output, getElem?_wire]
  rw [← first, ← second, checkSlots]
  rcases unwired? d.input node.inputVar? with _ | slot
  · rcases unwired? d.output node.outputVar? with _ | slot <;> simp
  · simp

end Node

/-! ### Arguments -/

namespace NodeSource

variable {data : NodeSource} {node : Node}

theorem givenArg?_eq_some_iff (args : node.args = data.args) {name : String} {v : Value} :
    node.givenArg? name = some v ↔ data.Gives name v := by
  rw [Node.givenArg?, Node.arg?, args, Option.filter_eq_some_iff, Gives]
  cases v <;> simp [Value.isNull]

/-- Nothing is undeclared just when the declaration covers the node. -/
theorem undeclared?_eq_none_iff (d : Declaration) : data.undeclared? d = none ↔ data.Declares d := by
  have known : (data.args.names.find? fun name => (d.arg? name).isNone) = none ↔
      ∀ name ∈ data.args.names, ∃ arg ∈ d.args, arg.name = name := by
    rw [List.find?_eq_none]
    refine forall₂_congr fun name _ => ?_
    rw [Option.isNone_iff_eq_none, Declaration.arg?, List.find?_eq_none]
    simp
  unfold undeclared?
  rcases found : data.args.names.find? fun name => (d.arg? name).isNone with _ | name
  · rcases first : surplus? d.input data.input with _ | name
    · rw [Option.map_eq_none_iff, Slot.hold_iff]
      exact ⟨fun second => ⟨known.mp found, (Slot.hold_iff _ _).mp first, second⟩, Declares.output⟩
    · refine iff_of_false (Option.some_ne_none _) fun declares => ?_
      rw [(Slot.hold_iff _ _).mpr declares.input] at first
      cases first
  · refine iff_of_false (Option.some_ne_none _) fun declares => ?_
    rw [known.mpr declares.args] at found
    cases found

end NodeSource

namespace Node

open ExprCache (Genuine)
open NodeSource (givenArg?_eq_some_iff)

variable {node : Node} {data : NodeSource}

theorem decides_liftExcept (result : Except InitError Unit) :
    Decides Genuine (checkDeclared.liftExcept result) (result = .ok ()) := by
  rcases result with error | _
  · exact (decides_throw error).of_iff (by simp)
  · exact (decides_pure ()).of_iff (by simp)

/-- Reading an argument decides whether it is an expression. -/
theorem decides_readExpr (arg code : String) :
    Decides Genuine (readExpr arg code) (∃ e, Expr.read code = .ok e) := by
  refine ⟨fun s genuine => ?_, fun s genuine => ?_⟩
  · rw [run_readExpr]
    exact (genuine.compile code).2
  · simp only [Returns, run_readExpr, (genuine.compile code).1]
    rcases Expr.read code with error | e
    · exact iff_of_false (by rintro ⟨_, _, ⟨⟩⟩) (by rintro ⟨_, ⟨⟩⟩)
    · exact iff_of_true ⟨(), _, rfl⟩ ⟨e, rfl⟩

/-- An argument passes if the source supplies it. -/
theorem decides_checkArg (args : node.args = data.args) (arg : Arg) :
    Decides Genuine (node.checkArg arg) (data.Supplies arg) := by
  have given {v : Value} : node.givenArg? arg.name = some v ↔ data.Gives arg.name v := givenArg?_eq_some_iff args
  unfold checkArg
  rcases found : node.givenArg? arg.name with _ | v
  · have absent (v : Value) : ¬ data.Gives arg.name v := by
      rw [← given, found]
      nofun
    have free : arg.optional = true ↔ data.Supplies arg := by
      refine ⟨fun optional => ⟨?_, ?_, ?_⟩, fun supplies => ?_⟩
      · exact fun required => by rw [optional] at required; cases required
      · exact fun v gives => (absent v gives).elim
      · exact fun _ code gives => (absent _ gives).elim
      · by_contra required
        obtain ⟨v, gives⟩ := supplies.required (Bool.eq_false_iff.mpr required)
        exact absent v gives
    rcases optional : arg.optional with _ | _
    · exact (decides_throw _).of_iff (by simpa [optional] using free)
    · exact (decides_pure ()).of_iff (by simpa [optional] using free)
  · have gives := given.mp found
    have only {w : Value} (other : data.Gives arg.name w) : w = v := by
      rw [← given, found] at other
      exact (Option.some.inj other).symm
    have supplied (typed : arg.type.Holds v)
        (readable : arg.type = .expr → ∀ code, v = .text code → ∃ e, Expr.read code = .ok e) :
        data.Supplies arg := by
      refine ⟨fun _ => ⟨v, gives⟩, fun w other => only other ▸ typed, fun expr code other => ?_⟩
      exact readable expr code (only other).symm
    rcases accepted : arg.type.accepts v with _ | _
    · simp only [accepted, Bool.false_eq_true, if_false]
      refine (decides_throw _).of_iff (iff_of_false not_false fun supplies => ?_)
      rw [(arg.type.accepts_iff_holds v).mpr (supplies.typed v gives)] at accepted
      cases accepted
    · have typed := (arg.type.accepts_iff_holds v).mp accepted
      by_cases expr : arg.type = .expr
      · obtain ⟨code, rfl⟩ : ∃ code, v = .text code := by rw [expr] at typed; exact typed
        rw [expr] at accepted
        simp only [expr, accepted, if_true, Value.text?]
        refine (decides_readExpr arg.name code).of_iff ⟨fun read => ?_, fun supplies => ?_⟩
        · refine supplied typed fun _ code' same => ?_
          cases same
          exact read
        · exact supplies.readable expr code gives
      · refine Decides.of_iff (P := True) ?_ (iff_of_true trivial (supplied typed fun same => (expr same).elim))
        simp only [accepted, if_true]
        split
        case h_1 same _ => exact (expr same).elim
        case h_2 => exact decides_pure ()

/-! ### All checks of a node -/

/-- A loaded node has the texts that its source gives. -/
theorem text?_eq_some_iff (args : node.args = data.args) {name s : String} :
    node.text? name = some s ↔ data.Gives name (.text s) := by
  rw [text?, arg?, args, Option.bind_eq_some_iff, NodeSource.Gives]
  constructor
  · rintro ⟨v, found, text⟩
    cases v <;> cases text
    exact ⟨found, by simp⟩
  · rintro ⟨found, -⟩
    exact ⟨_, found, rfl⟩

/-- Two kinds ask for more than they declare. -/
theorem checkKind_eq_ok_iff (builtin : ∀ e, node.kind ≠ .extension e) (args : node.args = data.args) :
    node.checkKind = .ok () ↔
      (node.kind = .ifElse → 2 ≤ node.children.length ∧ node.children.length ≤ 3) ∧
      (node.kind = .log → ∀ level, data.Gives "level" (.text level) → level ∈ logLevels) := by
  unfold checkKind
  split
  case h_1 kind =>
    rw [checkChildCount_eq_ok_iff, kind]
    simp
  case h_2 kind =>
    rw [kind]
    have given (level : String) : node.text? "level" = some level ↔ data.Gives "level" (.text level) :=
      text?_eq_some_iff args
    rcases found : node.text? "level" with _ | level
    · refine iff_of_true rfl ⟨nofun, fun _ level gives => ?_⟩
      rw [← given, found] at gives
      cases gives
    · have gives := (given level).mp found
      by_cases known : level ∈ logLevels
      · refine iff_of_true (by simp [known]) ⟨nofun, fun _ other also => ?_⟩
        rw [← given, found] at also
        exact Option.some.inj also ▸ known
      · exact iff_of_false (by simp [known]) fun asked => known (asked.2 rfl level gives)
  case h_3 kind => exact absurd kind (builtin _)
  case h_4 notIfElse notLog _ =>
    exact iff_of_true rfl ⟨fun kind => absurd kind notIfElse, fun kind => absurd kind notLog⟩

/-- A node of a built-in kind passes its checks exactly if its source has all that is asked for. -/
theorem decides_check {kind : Kind} (builtin : ∀ e, kind ≠ .extension e) (reads : node.Reads kind data)
    (count : node.children.length = data.enabled.length) : Decides Genuine node.check (data.Fits kind) := by
  obtain ⟨rfl, -, -, args, input, output⟩ := reads
  have counted := decides_liftExcept (checkChildCount node.children.length
    node.kind.declaration.role.childBounds.1 node.kind.declaration.role.childBounds.2)
  have supplied := decides_forM fun arg (_ : arg ∈ node.kind.declaration.args) => decides_checkArg args arg
  have wired := decides_liftExcept (node.checkSlots node.kind.declaration)
  have special := decides_liftExcept node.checkKind
  have declared := decides_bind counted fun _ _ _ _ _ => decides_bind supplied fun _ _ _ _ _ => wired
  have whole : Decides Genuine node.check _ := decides_bind declared fun _ _ _ _ _ => special
  refine whole.of_iff ?_
  rw [checkChildCount_eq_ok_iff, checkSlots_eq_ok_iff _ input output, checkKind_eq_ok_iff builtin args, count]
  refine ⟨?_, fun fits => ?_⟩
  · rintro ⟨⟨⟨least, greatest⟩, supplies, input, output⟩, branches, level⟩
    exact ⟨least, greatest, branches, supplies, input, output, level⟩
  · exact ⟨⟨⟨fits.least, fits.greatest⟩, fits.args, fits.input, fits.output⟩, fits.branches, fits.level⟩

end Node
end BehaviorTree
