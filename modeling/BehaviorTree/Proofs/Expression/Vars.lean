import BehaviorTree.Expression.Eval
import Mathlib

/-!
The variables of an expression. Collecting them goes through the occurrences from left to right and keeps each
name where it is met first. Nothing else of a scope is read: two scopes in which these variables are the same
give the same value, or the same error, whichever parts of the expression are evaluated.
-/

namespace BehaviorTree.Expr

/-! ### First occurrences -/

/-- Adds a name that is not in the list yet. -/
def addName (names : List String) (name : String) : List String :=
  if name ∈ names then names else names ++ [name]

/-- The names that have been met, each once, in the order in which they were met first. -/
structure Firsts (met names : List String) : Prop where
  mem : ∀ name, name ∈ names ↔ name ∈ met
  ordered : names.Pairwise fun a b => met.idxOf a < met.idxOf b

namespace Firsts

variable {met names : List String}

theorem nil : Firsts [] [] := ⟨fun _ => Iff.rfl, .nil⟩

theorem nodup (h : Firsts met names) : names.Nodup :=
  h.ordered.imp fun {a b} less same => by rw [same] at less; exact Nat.lt_irrefl _ less

/-- Meeting one more name changes nothing about the names before. -/
theorem snoc (h : Firsts met names) (name : String) : Firsts (met ++ [name]) (addName names name) := by
  have early : ∀ a ∈ names, (met ++ [name]).idxOf a = met.idxOf a := by
    intro a member
    exact List.idxOf_append_of_mem ((h.mem a).mp member)
  have kept : names.Pairwise fun a b => (met ++ [name]).idxOf a < (met ++ [name]).idxOf b := by
    refine h.ordered.imp_of_mem fun {a b} first second less => ?_
    rw [early a first, early b second]
    exact less
  unfold addName
  split
  case isTrue again =>
    refine ⟨fun other => ?_, kept⟩
    have before := (h.mem name).mp again
    rw [h.mem, List.mem_append, List.mem_singleton]
    constructor
    · intro member
      exact .inl member
    · rintro (member | rfl)
      · exact member
      · exact before
  case isFalse new =>
    have absent : name ∉ met := fun member => new ((h.mem name).mpr member)
    refine ⟨fun other => by rw [List.mem_append, List.mem_append, h.mem], ?_⟩
    rw [List.pairwise_append]
    refine ⟨kept, List.pairwise_singleton _ _, fun a member b last => ?_⟩
    rw [List.mem_singleton.mp last, early a member, List.idxOf_append_of_notMem absent]
    have inside := List.idxOf_lt_length_of_mem ((h.mem a).mp member)
    omega

theorem foldl (h : Firsts met names) (more : List String) :
    Firsts (met ++ more) (more.foldl addName names) := by
  induction more generalizing met names with
  | nil => simpa using h
  | cons name rest ih => simpa using ih (h.snoc name)

end Firsts

mutual

/-- Collecting goes through the occurrences, whatever has been seen before. -/
theorem collectVars_eq : ∀ (e : Expr) (seen : List String),
    e.collectVars seen = e.occurrences.foldl addName seen
  | .literal _, seen => rfl
  | .var name, seen => rfl
  | .array items, seen => by
    rw [collectVars, occurrences, collectVarsAll_eq items]
  | .member object _, seen => by
    rw [collectVars, occurrences, collectVars_eq object]
  | .index object key, seen => by
    rw [collectVars, occurrences, List.foldl_append, collectVars_eq object, collectVars_eq key]
  | .unary _ operand, seen => by
    rw [collectVars, occurrences, collectVars_eq operand]
  | .binary _ lhs rhs, seen => by
    rw [collectVars, occurrences, List.foldl_append, collectVars_eq lhs, collectVars_eq rhs]
  | .conditional test yes no, seen => by
    rw [collectVars, occurrences, List.foldl_append, List.foldl_append, collectVars_eq test,
      collectVars_eq yes, collectVars_eq no]

theorem collectVarsAll_eq : ∀ (items : List Expr) (seen : List String),
    collectVarsAll items seen = (occurrencesAll items).foldl addName seen
  | [], seen => rfl
  | e :: rest, seen => by
    rw [collectVarsAll, occurrencesAll, List.foldl_append, collectVars_eq e, collectVarsAll_eq rest]

end

theorem firsts_vars (e : Expr) : Firsts e.occurrences e.vars := by
  have met := Firsts.nil.foldl e.occurrences
  rwa [List.nil_append, ← collectVars_eq e []] at met

/-! ### Scopes that agree -/

/-- The two scopes have the same values for these variables, and leave the same of them unset. -/
def Agree (names : List String) (s t : Scope) : Prop := ∀ name ∈ names, s name = t name

section

variable {s t : Scope} {xs ys : List String}

theorem agree_append : Agree (xs ++ ys) s t ↔ Agree xs s t ∧ Agree ys s t :=
  List.forall_mem_append

mutual

/-- Evaluation reads no variable that does not occur. -/
theorem eval_congr : ∀ e : Expr, Agree e.occurrences s t → e.eval s = e.eval t
  | .literal v, _ => by
    rw [eval, eval]
  | .var name, agree => by
    rw [eval, eval, agree name (List.mem_singleton.mpr rfl)]
  | .array items, agree => by
    rw [eval, eval, evalAll_congr items agree]
  | .member object field, agree => by
    rw [eval, eval, eval_congr object agree]
  | .index object key, agree => by
    obtain ⟨left, right⟩ := agree_append.mp agree
    rw [eval, eval, eval_congr object left, eval_congr key right]
  | .unary op operand, agree => by
    rw [eval, eval, eval_congr operand agree]
  | .binary op lhs rhs, agree => by
    obtain ⟨left, right⟩ := agree_append.mp agree
    have first := eval_congr lhs left
    have second := eval_congr rhs right
    -- the logical operators have equations of their own, the others share one
    cases op <;> simp only [eval, first, second]
  | .conditional test yes no, agree => by
    obtain ⟨others, last⟩ := agree_append.mp agree
    obtain ⟨first, middle⟩ := agree_append.mp others
    rw [eval, eval, eval_congr test first, eval_congr yes middle, eval_congr no last]

theorem evalAll_congr : ∀ items : List Expr, Agree (occurrencesAll items) s t →
    evalAll s items = evalAll t items
  | [], _ => by
    rw [evalAll, evalAll]
  | e :: rest, agree => by
    obtain ⟨here, later⟩ := agree_append.mp agree
    rw [evalAll, evalAll, eval_congr e here, evalAll_congr rest later]

end

end

/-- The variables of an expression are the names that occur in it, each once, by first occurrence from left to
right; and they settle its outcome, value or error, whatever else is in the scope. -/
theorem vars_settle (e : Expr) :
    e.vars.Nodup ∧ (∀ name, name ∈ e.vars ↔ name ∈ e.occurrences) ∧
      (e.vars.Pairwise fun a b => e.occurrences.idxOf a < e.occurrences.idxOf b) ∧
      ∀ s t : Scope, Agree e.vars s t → e.eval s = e.eval t := by
  have firsts := firsts_vars e
  refine ⟨firsts.nodup, firsts.mem, firsts.ordered, fun s t agree => eval_congr e fun name occurs => ?_⟩
  exact agree name ((firsts.mem name).mpr occurs)

/-- Whom to name when there is an alarm and the foe is weak, and where to look otherwise. -/
def lookout : Expr :=
  .conditional (.binary .and (.var "alarm") (.binary .lt (.member (.var "foe") "hp") (.var "limit")))
    (.array [.var "foe", .var "alarm"]) (.index (.var "posts") (.var "next"))

/-- No alarm, and a next post, but no posts; the mood is neither here nor there. -/
def quiet (mood : Value) : Scope
  | "alarm" => some (.bool false)
  | "next" => some (.text "north")
  | "mood" => some mood
  | _ => none

/-- The foe is not even looked at, and the error is the same in either mood. -/
theorem vars_settle_lookout :
    lookout.vars = ["alarm", "foe", "limit", "posts", "next"] ∧
      Agree lookout.vars (quiet .null) (quiet (.text "tense")) ∧
      lookout.eval (quiet .null) = .error (.nullAccess "north") ∧
      lookout.eval (quiet .null) = lookout.eval (quiet (.text "tense")) := by
  have vars : lookout.vars = ["alarm", "foe", "limit", "posts", "next"] := by decide
  have agree : Agree lookout.vars (quiet .null) (quiet (.text "tense")) := by
    rw [vars]
    intro name member
    fin_cases member <;> rfl
  exact ⟨vars, agree, by cbv, (vars_settle lookout).2.2.2 _ _ agree⟩

end BehaviorTree.Expr
