import BehaviorTree.Proofs.Descent.Akin
import BehaviorTree.Proofs.Tree.Unfork

/-!
Ticking a tree in which AlwaysSuccess stands in the place of some Parallel nodes with one child. Such a Parallel
node keeps the state of its child on its own and is executed in every tick, an AlwaysSuccess node waits above its
child and is executed only when the child has completed. Both ticks go the same way nevertheless, leaf by leaf, and
the states that they leave correspond; a fault may be raised at another depth.
-/

namespace BehaviorTree.Descent

open TickM

/-! ### States that correspond -/

section

variable (chosen : Nat → Bool)

mutual

/-- A saved state of a node and one of the node that stands in its place: where AlwaysSuccess has taken the place of
a Parallel node it waits for the child that the Parallel node had beside no other. -/
inductive Unforked : Node → Active → Active → Prop
  | resting {node : Node} (memory : Memory) (other : ¬ node.IsUnforked chosen) :
      Unforked node (.resting memory) (.resting memory)
  | waiting {node child : Node} {i : Nat} {state state' : Active} (memory : Memory)
      (other : ¬ node.IsUnforked chosen) (here : node.children[i]? = some child)
      (below : Unforked child state state') : Unforked node (.over memory i state) (.over memory i state')
  | beside {node : Node} {shares shares' : List Share} (other : ¬ node.IsUnforked chosen)
      (each : UnforkedAll node.children (shares.map some) (shares'.map some)) :
      Unforked node (.beside shares) (.beside shares')
  | alone {node child : Node} {state state' : Active} (unforked : node.IsUnforked chosen)
      (only : node.children = [child]) (below : Unforked child state state') :
      Unforked node (.beside [.active state]) (.over .nothing 0 state')

/-- A child of a Parallel node that has kept its place, entered already or not. -/
inductive UnforkedShare : Node → Option Share → Option Share → Prop
  | fresh {child : Node} : UnforkedShare child none none
  | settled {child : Node} (verdict : Verdict) :
      UnforkedShare child (some (.settled verdict)) (some (.settled verdict))
  | active {child : Node} {state state' : Active} (below : Unforked child state state') :
      UnforkedShare child (some (.active state)) (some (.active state'))

/-- Every child's share stands for one without forks. -/
inductive UnforkedAll : List Node → List (Option Share) → List (Option Share) → Prop
  | nil : UnforkedAll [] [] []
  | cons {child : Node} {nodes : List Node} {share share' : Option Share} {shares shares' : List (Option Share)}
      (first : UnforkedShare child share share') (rest : UnforkedAll nodes shares shares') :
      UnforkedAll (child :: nodes) (share :: shares) (share' :: shares')

end

/-- What the ticks of the two nodes report. AlwaysSuccess never fails, and neither does the Parallel node. -/
inductive UnforkedReport (node : Node) : Report → Report → Prop
  | done (verdict : Verdict) (succeeds : node.IsUnforked chosen → verdict = .success) :
      UnforkedReport node (.done verdict) (.done verdict)
  | running {state state' : Active} (below : Unforked chosen node state state') :
      UnforkedReport node (.running state) (.running state')

/-- Ticking the node and ticking the node that stands in its place match. -/
def Unforks (node : Node) : Prop :=
  ∀ state state' path path', Option.Rel (Unforked chosen node) state state' →
    Matches (tick node state path) (tick (node.unfork chosen) state' path') (UnforkedReport chosen node)

end

variable {chosen : Nat → Bool} {node : Node}

theorem UnforkedReport.status {report report' : Report} (related : UnforkedReport chosen node report report') :
    report'.status = report.status := by cases related <;> rfl

theorem filterMap_map_some (shares : List Share) : (shares.map some).filterMap id = shares := by
  rw [List.filterMap_map, Function.id_comp, List.filterMap_some]

mutual

/-- The listening nodes are the same. -/
theorem Unforked.listeners : ∀ {node : Node} {state state' : Active}, Unforked chosen node state state' →
    state'.listeners = state.listeners
  | _, _, _, .resting _ _ => rfl
  | _, _, _, .waiting memory _ _ below => congrArg (Active.listeners.memoryListeners memory ++ ·) below.listeners
  | _, _, _, .beside _ each => by
    have same := each.listeners
    rw [filterMap_map_some, filterMap_map_some] at same
    exact same
  | _, _, _, .alone _ _ below => below.listeners.trans (List.append_nil _).symm

theorem UnforkedAll.listeners : ∀ {nodes : List Node} {shares shares' : List (Option Share)},
    UnforkedAll chosen nodes shares shares' →
      shareListeners (shares'.filterMap id) = shareListeners (shares.filterMap id)
  | _, _, _, .nil => rfl
  | _, _, _, .cons .fresh rest => rest.listeners
  | _, _, _, .cons (.settled _) rest => rest.listeners
  | _, _, _, .cons (.active below) rest => congrArg₂ (· ++ ·) below.listeners rest.listeners

end

theorem UnforkedAll.isSettled : ∀ {nodes : List Node} {shares shares' : List (Option Share)},
    UnforkedAll chosen nodes shares shares' →
      (shares'.filterMap id).all isSettled = (shares.filterMap id).all isSettled
  | _, _, _, .nil => rfl
  | _, _, _, .cons .fresh rest => rest.isSettled
  | _, _, _, .cons (.settled _) rest => rest.isSettled
  | _, _, _, .cons (.active _) _ => rfl

theorem UnforkedReport.share {report report' : Report} (related : UnforkedReport chosen node report report') :
    UnforkedShare chosen node (some report.share) (some report'.share) := by
  cases related with
  | done verdict => exact .settled verdict
  | running below => exact .active below

/-- No child has been entered when a Parallel node begins. -/
theorem unforkedAll_none : ∀ nodes : List Node,
    UnforkedAll chosen nodes (nodes.map fun _ => none) (nodes.map fun _ => none)
  | [] => .nil
  | _ :: rest => .cons .fresh (unforkedAll_none rest)

/-! ### A node that keeps its place -/

section

variable (path path' : Path) {children' : List Node} (length : children'.length = node.children.length)

include length

theorem nextChild_children (stop : Verdict) (i : Nat) :
    nextChild (visitAt { node with children := children' } path') stop i = nextChild (visitAt node path) stop i := by
  rw [nextChild, nextChild, visitAt_node, visitAt_node, length]

theorem chosenChild_children (condition : Verdict) :
    chosenChild (visitAt { node with children := children' } path') condition =
      chosenChild (visitAt node path) condition := by
  unfold chosenChild
  rw [visitAt_node, visitAt_node, length]

theorem nextInRound_children (it : Visit.Iteration) (i : Nat) :
    nextInRound (visitAt { node with children := children' } path') it i =
      nextInRound (visitAt node path) it i := by
  rw [nextInRound, nextInRound, visitAt_node, visitAt_node, length]

theorem startRound_children (it : Visit.Iteration) :
    startRound (visitAt { node with children := children' } path') it = startRound (visitAt node path) it := by
  rw [startRound, startRound, nextInRound_children path path' length]
  rfl

omit length in
/-- Where an expression is read only the depth of a fault can differ. -/
theorem flat_evaluate (arg : String) :
    ((visitAt { node with children := children' } path').evaluate arg).flat =
      ((visitAt node path).evaluate arg).flat := by
  refine ext fun s => ?_
  have text : (visitAt { node with children := children' } path').node.text? arg = (visitAt node path).node.text? arg :=
    rfl
  rw [play_flat, play_flat, Visit.play_evaluate, Visit.play_evaluate, text]
  rcases (visitAt node path).node.text? arg with _ | code
  · rfl
  · simp only [Visit.evaluated]
    rcases (s.context.compile code).1 with error | e
    · rfl
    · simp only
      rcases e.eval s.actor.get? with error | v <;> rfl

theorem flat_start {kind : Kind} (builtin : ∀ e, kind ≠ .extension e) :
    (start (visitAt { node with children := children' } path') kind).flat =
      (start (visitAt node path) kind).flat := by
  cases kind with
  | sequence => rw [start, start, nextChild_children path path' length]
  | selector => rw [start, start, nextChild_children path path' length]
  | loop | foreach =>
    simp only [start, startRound_children path path' length]
    rfl
  | check =>
    rw [start, start, ← bind_pure_comp, ← bind_pure_comp, flat_bind, flat_bind, Visit.check, Visit.check,
      flat_bind, flat_bind, flat_evaluate path path']
  | calculate =>
    rw [start, start, ← bind_pure_comp, ← bind_pure_comp, flat_bind, flat_bind, Visit.calculate, Visit.calculate,
      flat_bind, flat_bind, flat_evaluate path path']
    rfl
  | extension e => exact absurd rfl (builtin e)
  | _ => rfl

theorem goOn_children (kind : Kind) (memory : Memory) :
    goOn (visitAt { node with children := children' } path') kind memory = goOn (visitAt node path) kind memory := by
  cases memory with
  | round it => exact startRound_children path path' length it
  | _ => rfl

/-- An assertion names its child only in its error. -/
theorem flat_heed (kind : Kind) (memory : Memory) (child : Nat) (verdict : Verdict)
    (named : kind = .assert → verdict = .failure →
      Visit.assertionError { node with children := children' } = Visit.assertionError node) :
    (heed (visitAt { node with children := children' } path') kind memory child verdict).flat =
      (heed (visitAt node path) kind memory child verdict).flat := by
  cases kind with
  | sequence => rw [heed, heed, nextChild_children path path' length]
  | selector => rw [heed, heed, nextChild_children path path' length]
  | ifElse => rw [heed, heed, chosenChild_children path path' length]
  | loop | foreach =>
    rcases memory with _ | it | _ | _ | _ <;> cases verdict <;>
      first | rfl | simp only [heed, heedInRound, nextInRound_children path path' length]
  | assert =>
    cases verdict with
    | success => rfl
    | failure =>
      have error := named rfl rfl
      refine ext fun s => ?_
      rw [play_flat, play_flat]
      exact congrArg (fun error : RunError => ((Except.error ⟨error, 0⟩ : Except Fault Move), s)) error
  | _ => rfl

end

section

variable (path path' : Path) (shaped : node.Shaped) (other : ¬ node.IsUnforked chosen)
  (below : ∀ child ∈ node.children, Unforks chosen child)

/-- A child that has failed has kept its place, and with it its name. -/
theorem assertionError_unforkBelow (shaped : node.Shaped) (kind : node.kind = .assert) {i : Nat} {child : Node}
    (here : node.children[i]? = some child) (stays : ¬ child.IsUnforked chosen) :
    Visit.assertionError (node.unforkBelow chosen) = Visit.assertionError node := by
  obtain ⟨only, children⟩ := shaped.only_child (by rw [kind]; rfl)
  have same : child = only := by
    rw [children] at here
    exact List.mem_singleton.mp (List.mem_of_getElem? here)
  have text : (node.unforkBelow chosen).text? "message" = node.text? "message" := rfl
  have children' : (node.unforkBelow chosen).children = [child.unforkBelow chosen] := by
    rw [Node.unforkBelow, children, List.map_singleton, ← same, Node.unfork_of_not stays]
  rw [Visit.assertionError, Visit.assertionError, text, children, children', ← same]
  rcases node.text? "message" with _ | message <;> rfl

/-- What stands in the place of a child is heeded alike. -/
theorem flat_heed_unforkBelow (shaped : node.Shaped) {i : Nat} {child : Node} (here : node.children[i]? = some child)
    (memory : Memory) {verdict : Verdict} (succeeds : child.IsUnforked chosen → verdict = .success) :
    (heed (visitAt (node.unforkBelow chosen) path') node.kind memory i verdict).flat =
      (heed (visitAt node path) node.kind memory i verdict).flat := by
  refine flat_heed path path' (List.length_map _) _ _ _ _ fun kind failed => ?_
  subst failed
  exact assertionError_unforkBelow shaped kind here fun unforked => Verdict.noConfusion (succeeds unforked)

theorem getElem?_unforkBelow (chosen : Nat → Bool) (i : Nat) :
    ((node.unforkBelow chosen).children.map tick)[i]? =
      node.children[i]?.map fun child => tick (child.unfork chosen) := by
  rw [List.getElem?_map, List.getElem?_map, Option.map_map]
  rfl

include shaped other below

/-- The children are entered one after another, and their verdicts heeded. -/
theorem matches_drive (turns : Nat) (move : Move) :
    Matches (drive (visitAt node path) (node.children.map tick) turns move)
      (drive (visitAt (node.unforkBelow chosen) path') ((node.unforkBelow chosen).children.map tick) turns move)
      (UnforkedReport chosen node) := by
  have done (verdict : Verdict) : UnforkedReport chosen node (.done verdict) (.done verdict) :=
    .done verdict fun unforked => absurd unforked other
  -- A child that has been heeded leaves one turn less; both nodes have as many turns.
  induction turns generalizing move with
  | zero =>
    cases move with
    | finish verdict => exact matches_pure (done verdict)
    | rest memory => exact matches_pure (.running (.resting memory other))
    | enter i memory => exact matches_pure (done .failure)
  | succ turns ih =>
    cases move with
    | finish verdict => exact matches_pure (done verdict)
    | rest memory => exact matches_pure (.running (.resting memory other))
    | enter i memory =>
      rw [drive, drive, List.getElem?_map, getElem?_unforkBelow]
      rcases here : node.children[i]? with _ | child
      · exact matches_fail _ _ _
      · rw [Option.map_some, Option.map_some]
        have fresh := below child (List.mem_of_getElem? here) none none path path' .none
        refine matches_bind fresh fun report report' related => ?_
        cases related with
        | running state => exact matches_pure (.running (.waiting memory other here state))
        | done verdict succeeds =>
          have heeded : Matches _ (heed (visitAt (node.unforkBelow chosen) path') node.kind memory i verdict) _ :=
            matches_of_flat (akin_heed (visitAt node path) memory i verdict)
              (flat_heed_unforkBelow path path' shaped here memory succeeds)
          refine matches_bind heeded ?_
          rintro move _ rfl
          exact ih move

/-- Moves of a node and of its unforked copy match. -/
theorem matches_carryOut (move : Move) :
    Matches (carryOut (visitAt node path) (node.children.map tick) move)
      (carryOut (visitAt (node.unforkBelow chosen) path') ((node.unforkBelow chosen).children.map tick) move)
      (UnforkedReport chosen node) := by
  intro s t akin
  have counted : turns (visitAt (node.unforkBelow chosen) path') t.context move =
      turns (visitAt node path) s.context move := by
    simp only [turns, visitAt_node, List.length_map, akin.queue]
  have carried {visit : Visit} {children : List Ticker} (s : Scene) :
      (carryOut visit children move).flat.play s =
        (drive visit children (turns visit s.context move) move).flat.play s := by
    rw [carryOut, play_flat, play_bind_ok (play_context s), ← play_flat]
  rw [Abreast, carried, carried, counted]
  exact matches_drive path path' shaped other below _ move s t akin

/-- A rule that decides on the same moves leads to reports that correspond. -/
theorem matches_rule {x y : TickM Move} (even : Even Close x) (same : y.flat = x.flat) :
    Matches (act (visitAt node path) do carryOut (visitAt node path) (node.children.map tick) (← x))
      (act (visitAt (node.unforkBelow chosen) path') do
        carryOut (visitAt (node.unforkBelow chosen) path') ((node.unforkBelow chosen).children.map tick) (← y))
      (UnforkedReport chosen node) := by
  refine matches_act _ _ (fun _ _ => UnforkedReport.status) (matches_bind (matches_of_flat even same) ?_)
  rintro move _ rfl
  exact matches_carryOut path path' shaped other below move

end

/-- A child of a Parallel node is ticked unless it has completed. -/
theorem matches_tickShare (visit visit' : Visit) {child : Node} (unforks : Unforks chosen child)
    {share share' : Option Share} (related : UnforkedShare chosen child share share') :
    Matches (tickShare visit (tick child) share) (tickShare visit' (tick (child.unfork chosen)) share')
      fun after after' => UnforkedShare chosen child (some after) (some after') := by
  have beside {state state' : Option Active} (same : Option.Rel (Unforked chosen child) state state') :
      Matches (tickBeside visit (tick child) state) (tickBeside visit' (tick (child.unfork chosen)) state')
        fun after after' => UnforkedShare chosen child (some after) (some after') :=
    matches_bind (matches_rethrow_left _ (matches_rethrow_right _ (unforks state state' [] [] same)))
      fun _ _ reported => matches_pure reported.share
  cases related with
  | fresh => exact beside .none
  | settled verdict => exact matches_pure (.settled verdict)
  | active below => exact beside (.some below)

/-- The children of a Parallel node are ticked one after another. -/
theorem matches_tickShares (visit visit' : Visit) : ∀ {nodes : List Node} {shares shares' : List (Option Share)},
    (∀ child ∈ nodes, Unforks chosen child) → UnforkedAll chosen nodes shares shares' →
      Matches (tickShares visit (nodes.map tick) shares)
        (tickShares visit' ((nodes.map (Node.unfork chosen)).map tick) shares')
        fun reports reports' => UnforkedAll chosen nodes (reports.map some) (reports'.map some)
  | _, _, _, _, .nil => matches_pure .nil
  | _, _, _, below, .cons first rest => by
    refine matches_bind (matches_tickShare visit visit' (below _ List.mem_cons_self) first) fun _ _ ticked => ?_
    have later := matches_tickShares visit visit' (fun child member => below child (List.mem_cons_of_mem _ member)) rest
    exact matches_bind later fun _ _ others => matches_pure (.cons ticked others)

/-- A Parallel node that keeps its place is executed. -/
theorem matches_allBeside (visit visit' : Visit) (other : ¬ node.IsUnforked chosen)
    (below : ∀ child ∈ node.children, Unforks chosen child) {shares shares' : List (Option Share)}
    (each : UnforkedAll chosen node.children shares shares') :
    Matches (act visit (tickAllBeside visit (node.children.map tick) shares))
      (act visit' (tickAllBeside visit' ((node.unforkBelow chosen).children.map tick) shares'))
      (UnforkedReport chosen node) := by
  refine matches_act visit visit' (fun _ _ => UnforkedReport.status) ?_
  refine matches_bind (matches_tickShares visit visit' below each) fun reports reports' ticked => ?_
  have settled := ticked.isSettled
  rw [filterMap_map_some, filterMap_map_some] at settled
  rw [settled]
  split
  · exact matches_pure (.done .success fun _ => rfl)
  · exact matches_pure (.running (.beside other ticked))

/-- A node gives up its child. -/
theorem matches_expire (path path' : Path) (other : ¬ node.IsUnforked chosen) {state state' : Active}
    (same : state'.listeners = state.listeners) :
    Matches (expire (visitAt node path) state) (expire (visitAt (node.unforkBelow chosen) path') state')
      (UnforkedReport chosen node) := by
  refine matches_bind (matches_of_even (even_now calm_close)) ?_
  rintro now _ rfl
  refine matches_noteDebug_left _ (matches_noteDebug_right _ ?_)
  rw [same]
  refine matches_bind (matches_of_even (even_updateContext fun ctx => ctx.flat_unsubscribes _)) fun _ _ _ => ?_
  refine matches_act _ _ (fun _ _ => UnforkedReport.status) ?_
  refine matches_bind (P := fun _ _ => True) (fun s t akin => .values ⟨trivial, akin.note _⟩) fun _ _ _ => ?_
  exact matches_pure (.done .failure fun unforked => absurd unforked other)

section

variable (path path' : Path) {state state' : Option Active} (same : Option.Rel (Unforked chosen node) state state')

include same

/-- A node that keeps its place is visited. -/
theorem matches_kept (shaped : node.Shaped) (other : ¬ node.IsUnforked chosen)
    (below : ∀ child ∈ node.children, Unforks chosen child) :
    Matches (visitNode (visitAt node path) (node.children.map tick) state)
      (visitNode (visitAt (node.unforkBelow chosen) path') ((node.unforkBelow chosen).children.map tick) state')
      (UnforkedReport chosen node) := by
  have length : (node.unforkBelow chosen).children.length = node.children.length := List.length_map _
  have kind : (node.unforkBelow chosen).kind = node.kind := rfl
  cases same with
  | none =>
    rw [visitNode, visitNode, visitAt_node, visitAt_node, kind]
    by_cases parallel : node.kind = .parallel
    · rw [if_pos parallel, if_pos parallel]
      refine matches_allBeside _ _ other below ?_
      rw [List.map_map, List.map_map, List.map_map]
      exact unforkedAll_none node.children
    · rw [if_neg parallel, if_neg parallel]
      have begins : Even Close (start (visitAt node path) node.kind) := akin_start (visitAt node path) shaped.builtin
      exact matches_rule path path' shaped other below begins (flat_start path path' length shaped.builtin)
  | some related =>
    cases related with
    | resting memory other =>
      exact matches_rule path path' shaped other below (akin_goOn (visitAt node path) node.kind memory)
        (congrArg TickM.flat (goOn_children path path' length node.kind memory))
    | beside other each => exact matches_allBeside _ _ other below each
    | alone unforked only related => exact absurd unforked other
    | @waiting _ child i state state' memory other here related =>
      rw [visitNode, visitNode, visitAt_node, visitAt_node, kind, List.getElem?_map, getElem?_unforkBelow, here,
        Option.map_some, Option.map_some]
      refine matches_bind (matches_of_even (even_now calm_close)) ?_
      rintro now _ rfl
      by_cases late : (armed? node.kind memory).any (· ≤ now)
      · rw [if_pos late, if_pos late]
        exact matches_expire path path' other related.listeners
      · rw [if_neg late, if_neg late]
        have resumed := below child (List.mem_of_getElem? here) (some state) (some state') path path' (.some related)
        refine matches_bind resumed fun _ _ reported => ?_
        cases reported with
        | running after =>
          exact matches_bind (matches_report .running) fun _ _ _ =>
            matches_pure (.running (.waiting memory other here after))
        | done verdict succeeds =>
          exact matches_rule path path' shaped other below (akin_heed (visitAt node path) memory i verdict)
            (flat_heed_unforkBelow path path' shaped here memory succeeds)

end

/-! ### A node that gives way -/

/-- What a Parallel node reports of its only child. -/
def Report.alone : Report → Report
  | done _ => .done .success
  | running state => .running (.beside [.active state])

/-- What an AlwaysSuccess node reports of its child. -/
def Report.excused : Report → Report
  | done _ => .done .success
  | running state => .running (.over .nothing 0 state)

theorem UnforkedReport.alone {child : Node} {report report' : Report} (unforked : node.IsUnforked chosen)
    (only : node.children = [child]) (related : UnforkedReport chosen child report report') :
    UnforkedReport chosen node report.alone report'.excused := by
  cases related with
  | done verdict => exact .done .success fun _ => rfl
  | running below => exact .running (.alone unforked only below)

/-- A fork with one child does what the child does. -/
theorem tickAllBeside_alone (visit : Visit) (tick : Ticker) (state : Option Active) :
    tickAllBeside visit [tick] [state.map Share.active] =
      Report.alone <$> tryCatch (tick state []) fun fault => throw ⟨fault.error, visit.path.length⟩ := by
  have share : tickShare visit tick (state.map Share.active) = tickBeside visit tick state := by
    cases state <;> rfl
  have others : tickShares visit [] [] = pure [] := rfl
  rw [tickAllBeside, tickShares, share, tickBeside, others]
  simp only [bind_assoc, pure_bind, ← bind_pure_comp]
  refine bind_congr fun report => ?_
  cases report <;> rfl

section

variable {visit : Visit} (kind : visit.node.kind = .alwaysSuccess) (length : visit.node.children.length = 1)
  (tick : Ticker)

include kind

include length in
/-- An AlwaysSuccess node enters its child. -/
theorem excused_fresh : visitNode visit [tick] none = act visit (Report.excused <$> tick none visit.path) := by
  have begins : start visit .alwaysSuccess = pure (.enter 0 .nothing) := rfl
  rw [visitNode, kind, if_neg (by decide), begins, pure_bind]
  refine congrArg (act visit) (ext fun s => ?_)
  have counted : turns visit s.context (.enter 0 .nothing) = 1 := length
  rw [carryOut, play_bind_ok (play_context s), counted, drive, kind, ← bind_pure_comp]
  refine play_bind_congr fun report t _ => ?_
  cases report <;> rfl

/-- It is passed over while its child runs on, and executed once it has completed. -/
theorem excused_over (state : Active) :
    visitNode visit [tick] (some (.over .nothing 0 state)) =
      tick (some state) visit.path >>= fun
        | .running state => do
          TickM.updateActor fun actor => { actor with last := .running }
          return .running (.over .nothing 0 state)
        | .done _ => act visit (pure (.done .success)) := by
  have unarmed : armed? .alwaysSuccess .nothing = none := rfl
  rw [visitNode, kind]
  refine ext fun s => ?_
  rw [play_bind_ok (play_now s), unarmed, Option.any_none, if_neg Bool.false_ne_true]
  refine play_bind_congr fun report t _ => ?_
  cases report with
  | running state => rfl
  | done verdict =>
    refine congrArg (fun x => (act visit x).play t) (ext fun u => ?_)
    rw [heed, pure_bind, carryOut, play_bind_ok (play_context u)]
    cases turns visit u.context (.finish .success) <;> rfl

end

/-- Where a Parallel node would be executed around its only child, an AlwaysSuccess node goes on below itself. -/
theorem matches_alone (path path' : Path) {child : Node} (unforked : node.IsUnforked chosen)
    (only : node.children = [child]) (unforks : Unforks chosen child) {state state' : Option Active}
    (same : Option.Rel (Unforked chosen node) state state') :
    Matches (visitNode (visitAt node path) (node.children.map tick) state)
      (visitNode (visitAt (node.unfork chosen) path') ((node.unfork chosen).children.map tick) state')
      (UnforkedReport chosen node) := by
  have children : (node.unfork chosen).children = [child.unfork chosen] := by
    rw [Node.children_unfork, only]
    rfl
  have kind : (visitAt (node.unfork chosen) path').node.kind = .alwaysSuccess := by
    rw [visitAt_node, Node.unfork_of_unforked unforked]
  have length : (visitAt (node.unfork chosen) path').node.children.length = 1 := by
    rw [visitAt_node, children]
    rfl
  rw [children, only, List.map_singleton, List.map_singleton]
  cases same with
  | none =>
    have beside : tickAllBeside (visitAt node path) [tick child] [none] = _ := tickAllBeside_alone _ _ none
    rw [excused_fresh kind length, visitNode, visitAt_node, if_pos unforked.2.1, List.map_singleton, beside]
    exact matches_act _ _ (fun _ _ => UnforkedReport.status)
      (matches_map (matches_rethrow_left _ (unforks none none [] path' .none)) fun _ _ =>
        UnforkedReport.alone unforked only)
  | some related =>
    cases related with
    | resting memory other => exact absurd unforked other
    | waiting memory other => exact absurd unforked other
    | beside other => exact absurd unforked other
    | @alone _ other state state' _ own below =>
      obtain rfl : child = other := List.singleton_inj.mp (only.symm.trans own)
      have beside : tickAllBeside (visitAt node path) [tick child] ([.active state].map some) = _ :=
        tickAllBeside_alone _ _ (some state)
      -- The Parallel node is executed around its child, so that the child is the first thing that both tick.
      rw [excused_over kind, visitNode, beside, act, ← bind_pure_comp, bind_assoc]
      refine matches_noteDebug_left _ (matches_bind (matches_rethrow_left _ (unforks _ _ [] path' (.some below))) ?_)
      rintro report report' reported
      have alone := reported.alone unforked only
      cases reported with
      | running after =>
        rw [pure_bind]
        exact matches_noteDebug_left _ (matches_bind (matches_report .running) fun _ _ _ => matches_pure alone)
      | done verdict =>
        rw [pure_bind]
        refine matches_noteDebug_left _ (matches_noteDebug_right _ ?_)
        rw [pure_bind]
        exact matches_noteDebug_right _ (matches_bind (matches_report .success) fun _ _ _ => matches_pure alone)

/-- Every node is matched by what stands in its place. -/
theorem unforks (node : Node) (shaped : node.Every Node.Shaped) : Unforks chosen node := by
  induction node using Node.induct with
  | step node ih =>
    intro state state' path path' same
    have below (child : Node) (member : child ∈ node.children) : Unforks chosen child :=
      ih child member (shaped.child member)
    rw [tick_eq, tick_eq]
    by_cases unforked : node.IsUnforked chosen
    · obtain ⟨child, only⟩ := unforked.only_child
      exact matches_alone _ _ unforked only (below child (only ▸ List.mem_singleton_self child)) same
    · rw [Node.unfork_of_not unforked]
      exact matches_kept _ _ same shaped.self unforked below

end BehaviorTree.Descent
