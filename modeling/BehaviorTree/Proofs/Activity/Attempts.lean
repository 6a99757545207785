import BehaviorTree.Proofs.Activity.Rounds

/-!
RepeatUntilSuccess and RepeatUntilFailure nodes make attempts with their child, one after the other and each from the
next tick on, until one ends with the verdict that is wanted. The attempts are limited, and counted for each
activation of a node by itself. The limit is looked at after an attempt, so one is made even if there is to be none.
-/

namespace BehaviorTree

open Descent TickM

namespace Descent

variable {node : Node} {wanted : Verdict}

/-- How many attempts there are to be at most. -/
def attemptLimit (node : Node) : Option Nat := (node.int? "maxLoop").bind Visit.limit?

/-- An attempt is a sweep over the only child. After the last one that there is to be the node fails. -/
def attempt (node : Node) (wanted : Verdict) (k : Nat) : Sweep where
  memory := .attempts k
  stop := wanted
  halted := .finish .success
  through := if (attemptLimit node).any (· ≤ k + 1) then .finish .failure else .rest (.attempts (k + 1))

/-- An attempt is a sweep over the only child. -/
theorem rules_attempt (kind : node.kind = .repeatUntil wanted) (one : node.children.length = 1) (k : Nat) :
    (attempt node wanted k).Rules node where
  alone := by
    rw [kind]
    exact nofun
  apart := by
    rw [attempt]
    split <;> exact nofun
  timeless := rfl
  heeds path i verdict lt := by
    have last : ¬ i + 1 < node.children.length := by omega
    rw [kind, Sweep.next, if_neg last, attempt, heed, heedAttempt]
    simp only
    by_cases enough : verdict = wanted
    · rw [if_pos enough, if_pos enough]
      rfl
    · rw [if_neg enough, if_neg enough]
      by_cases spent : (attemptLimit node).any (· ≤ k + 1) = true
      · rw [if_pos spent]
        exact congrArg pure (if_pos spent)
      · rw [if_neg spent]
        exact congrArg pure (if_neg spent)

variable {tick : Call}

theorem attempt_first (one : node.children.length = 1) (k : Nat) :
    (attempt node wanted k).first node = .enter 0 (.attempts k) := by
  rw [Sweep.first, if_pos (by omega)]
  rfl

/-- The first attempt begins when the node is entered. -/
theorem begins_attempt_entered (kind : tick.node.kind = .repeatUntil wanted) (one : tick.node.children.length = 1)
    (fresh : tick.state = none) : Begins tick.node (attempt tick.node wanted 0) tick.scene.actor.vars tick := by
  refine vars_begun tick.visit tick.scene ▸ Call.begins_entered (rules_attempt kind one 0) fresh ?_
  rw [kind, attempt_first one]
  rfl

/-- A further attempt begins in the next tick. -/
theorem begins_attempt_rested (kind : tick.node.kind = .repeatUntil wanted) (one : tick.node.children.length = 1)
    {k : Nat}
    (rested : tick.state = some (.resting (.attempts k))) :
    Begins tick.node (attempt tick.node wanted k) tick.scene.actor.vars tick := by
  refine vars_begun tick.visit tick.scene ▸ Call.begins_rested (rules_attempt kind one k) rested ?_
  rw [kind, attempt_first one]
  rfl

/-- After an attempt that is not the wanted one the next one is due. -/
theorem recurs_attempt (kind : node.kind = .repeatUntil wanted) (one : node.children.length = 1) :
    Recurs node (attempt node wanted) fun _ vars => vars where
  rules := rules_attempt kind one
  halts _ _ := nofun
  again k memory rests tick own rested := by
    subst own
    rw [attempt] at rests
    split at rests
    · cases rests
    · cases rests
      exact begins_attempt_rested kind one rested

/-- The attempts of an activation. -/
structure Attempted (node : Node) (wanted : Verdict) (ticks : List Call) : Prop where
  rounds : Recurring node (attempt node wanted) (fun _ vars => vars) (rounds ticks)
  /-- Each attempt enters the child once, and no tick begins two of them. -/
  entered : (enteredIn ticks).length = (Descent.rounds ticks).length ∧ ∀ tick ∈ ticks, (enteredIn [tick]).length ≤ 1
  bounded : ∀ n, attemptLimit node = some n → (Descent.rounds ticks).length ≤ max 1 n
  /-- The node succeeds with an attempt that ends as wanted. -/
  succeeds : ∀ tick ∈ ticks, tick.result = .ok (.done .success) ↔ ∃ call ∈ tick.made, call.result = .ok (.done wanted)
  /-- It fails when the last attempt that there is to be has not ended as wanted, and only then. -/
  fails : ∀ (k : Nat) round, (Descent.rounds ticks)[k]? = some round → ∀ tick ∈ round, tick.result = .ok (.done .failure) ↔
    (∃ n, attemptLimit node = some n ∧ k + 1 = max 1 n) ∧ ∃ call ∈ tick.made, call.result = .ok (.done wanted.invert)
  /-- It rests for a tick when another attempt has not. -/
  rests : ∀ (k : Nat) round, (Descent.rounds ticks)[k]? = some round → ∀ tick ∈ round,
    tick.result = .ok (.running (.resting (.attempts (k + 1)))) ↔
      (∀ n, attemptLimit node = some n → k + 1 < n) ∧ ∃ call ∈ tick.made, call.result = .ok (.done wanted.invert)

section

variable {ticks round : List Call}

theorem enteredIn_append (ticks more : List Call) : enteredIn (ticks ++ more) = enteredIn ticks ++ enteredIn more := by
  rw [enteredIn, List.flatMap_append, List.filter_append]
  rfl

theorem enteredIn_flatten (rounds : List (List Call)) : enteredIn rounds.flatten = rounds.flatMap enteredIn := by
  induction rounds with
  | nil => rfl
  | cons round rest ih => rw [List.flatten_cons, enteredIn_append, ih, List.flatMap_cons]

/-- One round enters each of the children that it enters once. -/
theorem Swept.length_enteredIn {sweep : Sweep} {vars : Blackboard} (swept : Swept node sweep vars round)
    (some : round ≠ []) (one : node.children.length = 1) : (enteredIn round).length = 1 := by
  obtain ⟨n, fits, order⟩ := swept.entered
  have count := congrArg List.length order
  rw [List.length_map, List.length_range] at count
  obtain ⟨first, later, rfl⟩ := List.exists_cons_of_ne_nil some
  obtain ⟨call, member, -, fresh⟩ := swept.begins first rfl (List.ne_nil_of_length_pos (by omega))
  have entered : call ∈ enteredIn (first :: later) := by
    refine List.mem_filter.mpr ⟨List.mem_flatMap.mpr ⟨first, List.mem_cons_self, List.mem_of_mem_head? member⟩, ?_⟩
    rw [fresh]
    rfl
  have pos := List.length_pos_of_mem entered
  omega

/-- With one child, to pass it is to be through. -/
theorem Leg.passes_only {sweep : Sweep} (leg : Leg node sweep tick) (one : node.children.length = 1) :
    tick.result = .ok sweep.through.report ↔ ∃ call ∈ tick.made, call.result = .ok (.done sweep.stop.invert) := by
  have some : node.children ≠ [] := List.ne_nil_of_length_pos (by omega)
  rw [leg.passes, or_iff_right some]
  refine ⟨fun ⟨call, member, _, passed⟩ => ⟨call, member, passed⟩,
    fun ⟨call, member, passed⟩ => ⟨call, member, ?_, passed⟩⟩
  have lt := (List.getElem?_eq_some_iff.mp (leg.own call member)).1
  omega

/-- After an attempt that has not ended as wanted, the node fails or rests as the limit says. -/
theorem through_attempt (node : Node) (wanted : Verdict) (k : Nat) :
    (∃ n, attemptLimit node = some n ∧ n ≤ k + 1) ∧ (attempt node wanted k).through = .finish .failure ∨
      (∀ n, attemptLimit node = some n → k + 1 < n) ∧ (attempt node wanted k).through = .rest (.attempts (k + 1)) := by
  rw [attempt]
  rcases reached_or_more (attemptLimit node) (k + 1) with ⟨spent, yes⟩ | ⟨left, no⟩
  · exact .inl ⟨spent, if_pos yes⟩
  · exact .inr ⟨left, if_neg (Bool.eq_false_iff.mp no)⟩

/-! ### The attempts of an activation -/

variable (one : node.children.length = 1)
  (recurring : Recurring node (attempt node wanted) (fun _ vars => vars) (rounds ticks))

include recurring

theorem Recurring.swept_attempt {k : Nat} (here : (rounds ticks)[k]? = some round) :
    ∃ vars, Swept node (attempt node wanted k) vars round := by
  obtain ⟨first, later, rfl, swept⟩ := recurring.swept k round here
  exact ⟨_, swept⟩

/-- No more attempts are made than the limit says, except that one always is. -/
theorem Recurring.length_le_limit {n : Nat} (limit : attemptLimit node = some n) : (rounds ticks).length ≤ max 1 n := by
  obtain ⟨k, last⟩ := Nat.exists_eq_add_of_le' (Nat.le_max_left 1 n)
  rw [last]
  refine recurring.length_le fun memory rests => ?_
  rcases through_attempt node wanted k with ⟨-, fails⟩ | ⟨left, -⟩
  · cases fails.symm.trans rests
  · have far := left n limit
    omega

include one

theorem Recurring.length_enteredIn_round (member : round ∈ rounds ticks) : (enteredIn round).length = 1 := by
  obtain ⟨k, here⟩ := List.mem_iff_getElem?.mp member
  obtain ⟨vars, swept⟩ := recurring.swept_attempt here
  exact swept.length_enteredIn (fun none => nil_notMem_rounds ticks (none ▸ member)) one

theorem Recurring.length_enteredIn : (enteredIn ticks).length = (rounds ticks).length := by
  have whole : enteredIn ticks = (rounds ticks).flatMap enteredIn := by
    rw [← enteredIn_flatten, flatten_rounds]
  have each (round : List Call) (member : round ∈ rounds ticks) : (enteredIn round).length = 1 :=
    recurring.length_enteredIn_round one member
  rw [whole, List.length_flatMap, List.map_congr_left each, List.map_const', List.sum_replicate, smul_eq_mul, mul_one]

/-- No tick enters the child twice, as no round does. -/
theorem Recurring.length_enteredIn_tick (member : tick ∈ round) (inside : round ∈ rounds ticks) :
    (enteredIn [tick]).length ≤ 1 := by
  obtain ⟨before, after, rfl⟩ := List.append_of_mem member
  have count := recurring.length_enteredIn_round one inside
  rw [enteredIn_append, ← List.singleton_append, enteredIn_append, List.length_append, List.length_append] at count
  omega

/-- What a tick comes to in which an attempt has not ended as wanted. -/
theorem Recurring.attempt_iff {k : Nat} (here : (rounds ticks)[k]? = some round) (member : tick ∈ round) (report : Report)
    (other : report ≠ .done .success) (still : ∀ memory i saved, report ≠ .running (.over memory i saved)) :
    tick.result = .ok report ↔ (attempt node wanted k).through.report = report ∧
      ∃ call ∈ tick.made, call.result = .ok (.done wanted.invert) := by
  obtain ⟨vars, swept⟩ := recurring.swept_attempt here
  have leg := swept.leg tick member
  rw [leg.result_iff report other still]
  exact and_congr_right fun _ => leg.passes_only one

/-- The rounds of a repeated node are its attempts. -/
theorem Recurring.attempted : Attempted node wanted ticks where
  rounds := recurring
  entered := by
    refine ⟨recurring.length_enteredIn one, fun tick member => ?_⟩
    obtain ⟨k, round, here, member⟩ := exists_round member
    exact recurring.length_enteredIn_tick one member (List.mem_of_getElem? here)
  bounded n := recurring.length_le_limit
  succeeds tick member := by
    obtain ⟨k, round, here, member⟩ := exists_round member
    obtain ⟨vars, swept⟩ := recurring.swept_attempt here
    exact (swept.leg tick member).halts
  fails k round here tick member := by
    have lt := (List.getElem?_eq_some_iff.mp here).1
    rw [recurring.attempt_iff one here member (.done .failure) nofun nofun]
    refine and_congr_left fun _ => ?_
    rcases through_attempt node wanted k with ⟨⟨n, limit, spent⟩, through⟩ | ⟨left, through⟩ <;> rw [through]
    · have fits := recurring.length_le_limit limit
      exact ⟨fun _ => ⟨n, limit, by omega⟩, fun _ => rfl⟩
    · refine ⟨nofun, fun ⟨n, limit, last⟩ => ?_⟩
      have far := left n limit
      omega
  rests k round here tick member := by
    rw [recurring.attempt_iff one here member (.running (.resting (.attempts (k + 1)))) nofun nofun]
    refine and_congr_left fun _ => ?_
    rcases through_attempt node wanted k with ⟨⟨n, limit, spent⟩, through⟩ | ⟨left, through⟩ <;> rw [through]
    · exact ⟨nofun, fun left => absurd (left n limit) (by omega)⟩
    · exact ⟨fun _ => left, fun _ => rfl⟩

end

end Descent

/-- In every activation of a RepeatUntilSuccess or RepeatUntilFailure node of a loaded tree, whatever its host does: the
child is entered once for each attempt, each of which begins in the next tick after the one before has ended. The node
succeeds with an attempt that ends as wanted, and fails with the last one that the limit allows. That is the first one
if it allows none. -/
theorem Runner.attempts_limited (source : Source) (cache : ExprCache) (name : String) (strict : Bool) (tree : Tree)
    (loaded : (source.load Registry.builtin cache name strict).1 = .ok tree) (caller : Nat) (target : Target)
    (debug : Bool) (before : Context) (actions : List HostAction) :
    let start := Runner.new tree (.newWith caller target debug)
    let runner := (start.performAll before actions).1
    let journal := start.journal before actions
    ∀ node ∈ tree.root.preorder, ∀ wanted, node.kind = .repeatUntil wanted →
      runner.Activates journal node ∧ ∀ ticks ∈ activations node journal, Attempted node wanted ticks := by
  intro start runner journal node inside wanted kind
  have activates := Source.activates_load loaded caller target debug before actions inside
  refine ⟨activates, fun ticks member => ?_⟩
  have activation := activates.activation ticks member
  obtain ⟨first, later, rfl, fresh, -⟩ := activation.entered
  have shaped : node.Shaped := (Source.ready_load loaded caller target debug).shaped node inside
  have one : node.children.length = 1 := by
    obtain ⟨child, only⟩ := shaped.only_child (by rw [kind]; cases wanted <;> rfl)
    rw [only]
    rfl
  have recurring := (recurs_attempt kind one).recurring activation fun tick head => by
    cases head
    obtain rfl := activation.own first List.mem_cons_self
    exact begins_attempt_entered kind one fresh
  exact recurring.attempted one

/-! ### Knocking -/

/-- Knocks until somebody opens, up to a limit; nobody does. -/
def knockSource (limit : Float) : Source :=
  [{ name := "knock"
     root :=
      { name := "RepeatUntilSuccess", args := [("maxLoop", .number limit)]
        children := [{ name := "AlwaysFail", children := [{ name := "Clear" }] }] } }]

def knock (limit : Float) : Tree where
  name := "knock"
  desc := ""
  root :=
    { id := 1, kind := .repeatUntil .success, name := "RepeatUntilSuccess", desc := ""
      args := [("maxLoop", .number limit)], input := [], output := []
      children :=
        [{ id := 2, kind := .alwaysFail, name := "AlwaysFail", desc := "", args := [], input := [], output := []
           children := [clearLeaf 3] }] }

section

variable {limit : Float} (fits : ArgType.int.accepts (.number limit) = true)

include fits

/-- The loader's check has nothing against the node. -/
theorem check_knock (cache : ExprCache) : Returns (knock limit).root.check cache () cache := by
  have given : (knock limit).root.givenArg? "maxLoop" = some (.number limit) := rfl
  have passed (desc : String) : (knock limit).root.checkArg (.optionally "maxLoop" .int desc) = pure () := by
    simp only [Node.checkArg, Arg.optionally, given, fits]
    rfl
  have declared : (knock limit).root.kind.declaration.args =
      [.optionally "maxLoop" .int "Maximum number of attempts, negative for no limit"] := rfl
  simp only [Returns, Node.check, Node.checkDeclared, declared, List.forM_eq_forM, List.forM_cons, passed]
  rfl

/-- Whatever the limit is: evaluating it is left to the check of the root. -/
theorem load_knock : (knockSource limit).load Registry.builtin [] "knock" true = (.ok (knock limit), []) := by
  let loader : Loader := { registry := Registry.builtin, source := knockSource limit, strict := true }
  let data : NodeSource :=
    { name := "RepeatUntilSuccess", args := [("maxLoop", .number limit)]
      children := [{ name := "AlwaysFail", children := [{ name := "Clear" }] }] }
  have taken : Returns Loader.takeId ⟨1, []⟩ 1 ⟨2, []⟩ := rfl
  have below : Returns (loader.loadChildren ["knock"] data.children) ⟨2, []⟩ (knock limit).root.children ⟨4, []⟩ := by
    rw [Returns]
    cbv
  have checked : Returns (loader.checked (knock limit).root) ⟨4, []⟩ () ⟨4, []⟩ := by
    rw [Returns, Loader.run_checked, show loader.check = Node.check from rfl, check_knock fits]
  have assembled : Returns (loader.assemble (.repeatUntil .success) data 1 (knock limit).root.children) ⟨4, []⟩
      (knock limit).root ⟨4, []⟩ := by
    have declared : loader.assemble (.repeatUntil .success) data 1 (knock limit).root.children = (do
        loader.checked (knock limit).root
        return (knock limit).root) := rfl
    rw [declared]
    exact checked.bind rfl
  have root : Returns (loader.loadNode ["knock"] data) ⟨1, []⟩ (knock limit).root ⟨4, []⟩ := by
    have known : loader.registry.get? data.name = some (.repeatUntil .success) := rfl
    rw [Loader.loadNode_kind known]
    exact taken.bind (below.bind assembled)
  have found : (knockSource limit).find? "knock" = some { name := "knock", root := data } := rfl
  rw [Source.load, Source.loadWith, found]
  simp only
  rw [root]
  rfl

end

/-- The second attempt is the last one of the first activation; the third run begins another one. -/
theorem Runner.attempts_limited_knock :
    ((knockSource 2.0).load Registry.builtin [] "knock" true).1 = .ok (knock 2.0) ∧
      attemptLimit (knock 2.0).root = some 2 ∧
        let journal :=
          (Runner.new (knock 2.0) (.newWith 1 .everyone false)).journal (.new Registry.builtin) [.run, .run, .run]
        (activations (knock 2.0).root journal).map (fun ticks => (rounds ticks).length) = [2, 1] ∧
          ∀ ticks ∈ activations (knock 2.0).root journal, Attempted (knock 2.0).root .success ticks := by
  have fits : ArgType.int.accepts (.number 2.0) = true := by decide +kernel
  have loaded := congrArg Prod.fst (load_knock fits)
  obtain ⟨-, attempted⟩ := Runner.attempts_limited _ [] "knock" true _ loaded 1 .everyone false
    (.new Registry.builtin) [.run, .run, .run] (knock 2.0).root (Node.self_mem_preorder _) .success rfl
  exact ⟨loaded, by decide +kernel, by decide +kernel, attempted⟩

end BehaviorTree
