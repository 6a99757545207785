import BehaviorTree.Proofs.Expression.Cache
import BehaviorTree.Proofs.Returns
import BehaviorTree.Proofs.Tree.Shape

/-!
What the checks of a loaded node promise to those who run it: as many children as its kind asks
for, arguments of the declared types, and expressions that are read already. The cache may grow
later; what has been promised stays true.
-/

namespace BehaviorTree.Node

open ExprCache (Kept)

/-- An argument is there if it is required, it has the declared type, and an expression has been
read. -/
structure Fitted (cache : ExprCache) (node : Node) (arg : Arg) : Prop where
  required : arg.optional = false → (node.givenArg? arg.name).isSome
  typed : ∀ v ∈ node.givenArg? arg.name, arg.type.accepts v = true
  read : arg.type = .expr → ∀ v ∈ node.givenArg? arg.name, ∀ code ∈ v.text?,
    (Fields.get? cache code).isSome

/-- A node of a built-in kind that has passed its checks. -/
structure Admitted (cache : ExprCache) (node : Node) : Prop extends node.Shaped where
  fitted : ∀ arg ∈ node.kind.declaration.args, Fitted cache node arg

variable {older newer cache : ExprCache} {node : Node}

theorem Fitted.kept {arg : Arg} (h : Fitted older node arg) (kept : Kept older newer) :
    Fitted newer node arg where
  required := h.required
  typed := h.typed
  read expr v given code text := by
    obtain ⟨e, found⟩ := Option.isSome_iff_exists.mp (h.read expr v given code text)
    exact Option.isSome_iff_exists.mpr ⟨e, kept code e found⟩

theorem Admitted.kept (h : Admitted older node) (kept : Kept older newer) : Admitted newer node :=
  { h with fitted := fun arg declared => (h.fitted arg declared).kept kept }

/-- The text of a required expression has been read. -/
theorem Admitted.read_expr (h : Admitted cache node) {arg : Arg}
    (declared : arg ∈ node.kind.declaration.args) (expr : arg.type = .expr)
    (required : arg.optional = false) :
    ∃ code e, node.text? arg.name = some code ∧ Fields.get? cache code = some e := by
  have fitted := h.fitted arg declared
  obtain ⟨v, given⟩ := Option.isSome_iff_exists.mp (fitted.required required)
  have typed := fitted.typed v given
  rw [expr] at typed
  obtain ⟨code, text⟩ := Option.isSome_iff_exists.mp (show v.text?.isSome from typed)
  obtain ⟨e, found⟩ := Option.isSome_iff_exists.mp (fitted.read expr v given code text)
  have held : node.arg? arg.name = some v := (Option.filter_eq_some_iff.mp given).1
  exact ⟨code, e, by rw [text?, held]; exact text, found⟩

/-! ### Checks -/

theorem leads_liftExcept (result : Except InitError Unit) :
    Leads Kept (checkDeclared.liftExcept result) := by
  cases result <;> exact fun cache => .refl cache

theorem returns_liftExcept {result : Except InitError Unit} {s t : ExprCache}
    (h : Returns (checkDeclared.liftExcept result) s () t) : result = .ok () ∧ t = s := by
  cases result with
  | error error => cases h
  | ok _ =>
    cases h
    exact ⟨rfl, rfl⟩

theorem run_readExpr (arg code : String) (cache : ExprCache) :
    (readExpr arg code).run.run cache =
      (match (cache.compile code).1 with
        | .ok _ => .ok ()
        | .error error => .error (.expr arg error),
        (cache.compile code).2) := by
  have opened : (readExpr arg code).run.run cache =
      ((match (cache.compile code).1 with
        | .ok _ => pure ()
        | .error error => throw (.expr arg error) : CheckM Unit)).run.run (cache.compile code).2 := rfl
  rw [opened]
  rcases (cache.compile code).1 with _ | _ <;> rfl

theorem leads_readExpr (arg code : String) : Leads Kept (readExpr arg code) := by
  intro cache
  rw [run_readExpr]
  exact ExprCache.kept_compile cache code

/-- An expression that was read is in the cache. -/
theorem returns_readExpr {arg code : String} {s t : ExprCache}
    (h : Returns (readExpr arg code) s () t) : (Fields.get? t code).isSome := by
  rw [Returns, run_readExpr, Prod.mk.injEq] at h
  obtain ⟨read, rfl⟩ := h
  rcases compiled : (s.compile code).1 with error | e
  · rw [compiled] at read
    cases read
  · exact Option.isSome_iff_exists.mpr ⟨e, ExprCache.get?_of_compile compiled⟩

/-- Checking an argument keeps what was cached. -/
theorem leads_checkArg (node : Node) (arg : Arg) : Leads Kept (node.checkArg arg) := by
  have still {x : CheckM Unit} (h : ∀ s, (x.run.run s).2 = s) : Leads Kept x :=
    fun s => by rw [h]; exact .refl s
  unfold checkArg
  split
  · split <;> exact still fun _ => rfl
  · split
    · split
      · exact leads_readExpr _ _
      · exact still fun _ => rfl
    · exact still fun _ => rfl

/-- An argument that is checked is as it is declared. -/
theorem fitted_of_checkArg {arg : Arg} {s t : ExprCache} (h : Returns (node.checkArg arg) s () t) :
    Fitted t node arg := by
  unfold checkArg at h
  rcases given : node.givenArg? arg.name with _ | v
  · refine {
      required := fun required => ?_
      typed := fun v held => by rw [given] at held; cases held
      read := fun _ v held => by rw [given] at held; cases held }
    simp only [given, required] at h
    cases h
  · rcases accepted : arg.type.accepts v with _ | _
    · simp only [given, accepted] at h
      cases h
    simp only [given, accepted, if_true] at h
    refine {
      required := fun _ => by rw [given]; rfl
      typed := fun w held => by rw [given] at held; cases held; exact accepted
      read := fun expr w held code text => ?_ }
    rw [given] at held
    cases held
    rw [expr, show v.text? = some code from text] at h
    exact returns_readExpr h

theorem leads_checkArgs (node : Node) (args : List Arg) : Leads Kept (args.forM node.checkArg) := by
  induction args with
  | nil => exact fun s => .refl s
  | cons arg rest ih =>
    exact leads_bind Kept.trans (leads_checkArg node arg) fun _ => ih

/-- Arguments that were checked fit the node. -/
theorem fitted_of_checkArgs {args : List Arg} {s t : ExprCache}
    (h : Returns (args.forM node.checkArg) s () t) : ∀ arg ∈ args, Fitted t node arg := by
  induction args generalizing s with
  | nil => exact nofun
  | cons arg rest ih =>
    obtain ⟨_, u, first, later⟩ := returns_bind h
    intro other member
    rcases List.mem_cons.mp member with rfl | member
    · exact (fitted_of_checkArg first).kept ((leads_checkArgs node rest).of_returns later)
    · exact ih later other member

theorem leads_check (node : Node) : Leads Kept node.check := by
  refine leads_bind Kept.trans ?_ fun _ => ?_
  · exact leads_bind Kept.trans (leads_liftExcept _) fun _ =>
      leads_bind Kept.trans (leads_checkArgs node _) fun _ => leads_liftExcept _
  · split <;> exact fun s => .refl s

/-- A node of a built-in kind that is checked is admitted. -/
theorem admitted_of_check (builtin : ∀ e, node.kind ≠ .extension e) {s t : ExprCache}
    (h : Returns node.check s () t) : Admitted t node := by
  obtain ⟨_, u, declared, special⟩ := returns_bind h
  obtain ⟨_, s', count, declared⟩ := returns_bind declared
  obtain ⟨_, u', args, slots⟩ := returns_bind declared
  obtain ⟨counted, rfl⟩ := returns_liftExcept count
  obtain ⟨_, rfl⟩ := returns_liftExcept slots
  rcases passed : node.checkKind with error | _
  · rw [passed] at special
    cases special
  rw [passed] at special
  cases special
  refine { builtin, counted, ifElse := fun kind => ?_, fitted := fitted_of_checkArgs args }
  rw [checkKind, kind] at passed
  exact passed

end BehaviorTree.Node
