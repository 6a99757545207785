import BehaviorTree.Proofs.Descent.Instants

/-!
What a tick of a node consists of, told step by step: the ticks that the node makes of its children, in order, and
what follows for the node from what comes of each of them. Whatever is to be shown about ticks can be shown by cases
on these steps, and no proof need look at the rules of the descent again.
-/

namespace BehaviorTree.Descent

open TickM

/-- What comes of a computation, and the scene that it leaves. -/
abbrev Upshot (α : Type) := Except Fault α × Scene

/-- What comes of a call, and the scene that it leaves. -/
def Call.upshot (call : Call) : Upshot Report := (call.result, call.left)

theorem Call.upshot_eq (call : Call) : call.upshot = (tick call.node call.state call.path).play call.scene := rfl

section

variable (visit : Visit)

/-- How a move is carried out within a number of turns. -/
inductive Course : Nat → Move → Scene → Scene → List Call → Upshot Report → Prop
  | finish (turns : Nat) (verdict : Verdict) (before s : Scene) :
      Course turns (.finish verdict) before s [] (.ok (.done verdict), s)
  | rest (turns : Nat) (memory : Memory) (before s : Scene) :
      Course turns (.rest memory) before s [] (.ok (.running (.resting memory)), s)
  /-- No turn is left. -/
  | spent (i : Nat) (memory : Memory) (before s : Scene) :
      Course 0 (.enter i memory) before s [] (.ok (.done .failure), s)
  | missing {turns i : Nat} {memory : Memory} {before s : Scene} (fault : Fault)
      (none : visit.node.children[i]? = none) : Course (turns + 1) (.enter i memory) before s [] (.error fault, s)
  /-- The child cuts the run short. -/
  | faulty {turns i : Nat} {memory : Memory} {before s t : Scene} {child : Node} {fault : Fault}
      (here : visit.node.children[i]? = some child)
      (came : (⟨i, child, none, visit.path, memory, before, s⟩ : Call).upshot = (.error fault, t)) :
      Course (turns + 1) (.enter i memory) before s [⟨i, child, none, visit.path, memory, before, s⟩] (.error fault, t)
  /-- The child runs, and so does the node. -/
  | runs {turns i : Nat} {memory : Memory} {before s t : Scene} {child : Node} {state : Active}
      (here : visit.node.children[i]? = some child)
      (came : (⟨i, child, none, visit.path, memory, before, s⟩ : Call).upshot = (.ok (.running state), t)) :
      Course (turns + 1) (.enter i memory) before s [⟨i, child, none, visit.path, memory, before, s⟩]
        (.ok (.running (.over memory i state)), t)
  /-- The verdict of the child makes the node cut the run short. -/
  | raised {turns i : Nat} {memory : Memory} {before s t u : Scene} {child : Node} {verdict : Verdict} {fault : Fault}
      (here : visit.node.children[i]? = some child)
      (came : (⟨i, child, none, visit.path, memory, before, s⟩ : Call).upshot = (.ok (.done verdict), t))
      (heeded : (heed visit visit.node.kind memory i verdict).play t = (.error fault, u)) :
      Course (turns + 1) (.enter i memory) before s [⟨i, child, none, visit.path, memory, before, s⟩] (.error fault, u)
  /-- The verdict of the child is heeded. -/
  | onward {turns i : Nat} {memory : Memory} {before s t u : Scene} {child : Node} {verdict : Verdict} {move : Move}
      {more : List Call} {upshot : Upshot Report} (here : visit.node.children[i]? = some child)
      (came : (⟨i, child, none, visit.path, memory, before, s⟩ : Call).upshot = (.ok (.done verdict), t))
      (heeded : (heed visit visit.node.kind memory i verdict).play t = (.ok move, u))
      (course : Course turns move t u more upshot) :
      Course (turns + 1) (.enter i memory) before s (⟨i, child, none, visit.path, memory, before, s⟩ :: more) upshot

/-- How a rule of a node is followed. -/
inductive Ruled (rule : TickM Move) (s : Scene) : List Call → Upshot Report → Prop
  | raised {fault : Fault} {t : Scene} (decided : rule.play s = (.error fault, t)) : Ruled rule s [] (.error fault, t)
  | carried {move : Move} {t : Scene} {made : List Call} {upshot : Upshot Report}
      (decided : rule.play s = (.ok move, t)) (course : Course visit (turns visit t.context move) move s t made upshot) :
      Ruled rule s made upshot

/-- How the children of a Parallel node are ticked, from the `i`-th on. -/
inductive InRow : Nat → List Node → List (Option Share) → Scene → List Call → Upshot (List Share) → Prop
  | nil {i : Nat} {nodes : List Node} {shares : List (Option Share)} (s : Scene) (none : nodes = [] ∨ shares = []) :
      InRow i nodes shares s [] (.ok [], s)
  | settled {i : Nat} {child : Node} {nodes : List Node} {shares : List (Option Share)} {s : Scene}
      {made : List Call} {upshot : Upshot (List Share)} (verdict : Verdict)
      (others : InRow (i + 1) nodes shares s made upshot) :
      InRow i (child :: nodes) (some (.settled verdict) :: shares) s made
        (upshot.1.map (.settled verdict :: ·), upshot.2)
  /-- The child cuts the run short. -/
  | faulty {i : Nat} {child : Node} {nodes : List Node} {shares : List (Option Share)} {s t : Scene} {fault : Fault}
      (state : Option Active) (came : (⟨i, child, state, [], .nothing, s, s⟩ : Call).upshot = (.error fault, t)) :
      InRow i (child :: nodes) (state.map .active :: shares) s [⟨i, child, state, [], .nothing, s, s⟩]
        (.error ⟨fault.error, visit.path.length⟩, t)
  | reported {i : Nat} {child : Node} {nodes : List Node} {shares : List (Option Share)} {s t : Scene} {report : Report}
      {made : List Call} {upshot : Upshot (List Share)} (state : Option Active)
      (came : (⟨i, child, state, [], .nothing, s, s⟩ : Call).upshot = (.ok report, t))
      (others : InRow (i + 1) nodes shares t made upshot) :
      InRow i (child :: nodes) (state.map .active :: shares) s (⟨i, child, state, [], .nothing, s, s⟩ :: made)
        (upshot.1.map (report.share :: ·), upshot.2)

/-- What an execution of the node comes to: its report is recorded. -/
def concluded : Upshot Report → Upshot Report
  | (.ok report, t) => (.ok report, recorded visit report t)
  | (.error fault, t) => (.error fault, t)

/-- What a Parallel node reports, from what its children do. -/
def attended (shares : List Share) : Report := if shares.all isSettled then .done .success else .running (.beside shares)

/-- The deadline has come that the node armed. -/
def Lapsed (memory : Memory) (s : Scene) : Prop := (armed? visit.node.kind memory).any (· ≤ s.context.clock) = true

/-- What a tick of a node consists of. -/
inductive Ticked : Option Active → Scene → List Call → Upshot Report → Prop
  | entered {s : Scene} {made : List Call} {upshot : Upshot Report} (alone : visit.node.kind ≠ .parallel)
      (ruled : Ruled visit (start visit visit.node.kind) (begun visit s) made upshot) :
      Ticked none s made (concluded visit upshot)
  | rested {memory : Memory} {s : Scene} {made : List Call} {upshot : Upshot Report}
      (ruled : Ruled visit (goOn visit visit.node.kind memory) (begun visit s) made upshot) :
      Ticked (some (.resting memory)) s made (concluded visit upshot)
  | enteredBeside {s : Scene} {made : List Call} {upshot : Upshot (List Share)} (kind : visit.node.kind = .parallel)
      (inRow : InRow visit 0 visit.node.children (visit.node.children.map fun _ => none) (begun visit s) made upshot) :
      Ticked none s made (concluded visit (upshot.1.map attended, upshot.2))
  | beside {shares : List Share} {s : Scene} {made : List Call} {upshot : Upshot (List Share)}
      (inRow : InRow visit 0 visit.node.children (shares.map some) (begun visit s) made upshot) :
      Ticked (some (.beside shares)) s made (concluded visit (upshot.1.map attended, upshot.2))
  /-- The deadline of the node has come. -/
  | expired {memory : Memory} {i : Nat} {state : Active} {s : Scene} (late : Lapsed visit memory s) :
      Ticked (some (.over memory i state)) s [] (.ok (.done .failure), ((expire visit state).play s).2)
  | missing {memory : Memory} {i : Nat} {state : Active} {s : Scene} (fault : Fault) (early : ¬ Lapsed visit memory s)
      (none : visit.node.children[i]? = none) : Ticked (some (.over memory i state)) s [] (.error fault, s)
  | faulty {memory : Memory} {i : Nat} {state : Active} {s t : Scene} {child : Node} {fault : Fault}
      (early : ¬ Lapsed visit memory s) (here : visit.node.children[i]? = some child)
      (came : (⟨i, child, some state, visit.path, memory, s, s⟩ : Call).upshot = (.error fault, t)) :
      Ticked (some (.over memory i state)) s [⟨i, child, some state, visit.path, memory, s, s⟩] (.error fault, t)
  /-- The child runs on, and so does the node. -/
  | runs {memory : Memory} {i : Nat} {state state' : Active} {s t : Scene} {child : Node}
      (early : ¬ Lapsed visit memory s) (here : visit.node.children[i]? = some child)
      (came : (⟨i, child, some state, visit.path, memory, s, s⟩ : Call).upshot = (.ok (.running state'), t)) :
      Ticked (some (.over memory i state)) s [⟨i, child, some state, visit.path, memory, s, s⟩]
        (.ok (.running (.over memory i state')), t.updateActor fun actor => { actor with last := .running })
  /-- The child has completed, and its verdict is heeded. -/
  | back {memory : Memory} {i : Nat} {state : Active} {s t : Scene} {child : Node} {verdict : Verdict}
      {made : List Call} {upshot : Upshot Report} (early : ¬ Lapsed visit memory s)
      (here : visit.node.children[i]? = some child)
      (came : (⟨i, child, some state, visit.path, memory, s, s⟩ : Call).upshot = (.ok (.done verdict), t))
      (ruled : Ruled visit (heed visit visit.node.kind memory i verdict) (begun visit t) made upshot) :
      Ticked (some (.over memory i state)) s (⟨i, child, some state, visit.path, memory, s, s⟩ :: made)
        (concluded visit upshot)

end

/-! ### Every tick is so composed -/

section

variable {node : Node} {path : Path}

/-- The turns of a node make a course of calls. -/
theorem course_drive (turns : Nat) (move : Move) (before s : Scene) :
    Course (visitAt node path) turns move before s (entries (visitAt node path) turns move before s)
      ((drive (visitAt node path) (node.children.map tick) turns move).play s) := by
  induction turns generalizing move before s with
  | zero =>
    cases move with
    | finish verdict => exact .finish 0 verdict before s
    | rest memory => exact .rest 0 memory before s
    | enter i memory => exact .spent i memory before s
  | succ turns ih =>
    cases move with
    | finish verdict => exact .finish _ verdict before s
    | rest memory => exact .rest _ memory before s
    | enter i memory =>
      rw [entries, drive, visitAt_node, List.getElem?_map]
      rcases here : node.children[i]? with _ | child
      · exact .missing _ here
      · simp only [Option.map_some, visitAt_path]
        rw [play_bind]
        rcases ticked : (tick child none path).play s with ⟨fault | (verdict | state), t⟩
        · exact .faulty here ticked
        · simp only
          rw [play_bind]
          rcases heeded : (heed (visitAt node path) node.kind memory i verdict).play t with ⟨fault | move, u⟩
          · exact .raised here ticked heeded
          · exact .onward here ticked heeded (ih move t u)
        · exact .runs here ticked

theorem ruled_rule (rule : TickM Move) (s : Scene) :
    Ruled (visitAt node path) rule s (entriesOf (visitAt node path) rule s)
      ((do carryOut (visitAt node path) (node.children.map tick) (← rule) : TickM Report).play s) := by
  rw [entriesOf, play_bind]
  rcases decided : rule.play s with ⟨fault | move, t⟩
  · exact .raised decided
  · exact .carried decided (course_drive _ move s t)

theorem play_tickShares_cons (visit : Visit) (tick : Ticker) (ticks : List Ticker) (share : Option Share)
    (shares : List (Option Share)) (s : Scene) :
    (tickShares visit (tick :: ticks) (share :: shares)).play s =
      match (tickShare visit tick share).play s with
      | (.ok share, t) =>
        (((tickShares visit ticks shares).play t).1.map (share :: ·), ((tickShares visit ticks shares).play t).2)
      | (.error fault, t) => (.error fault, t) := by
  rw [tickShares, play_bind]
  rcases (tickShare visit tick share).play s with ⟨fault | first, t⟩
  · rfl
  · simp only [bind_pure_comp, play_map]

/-- A child of a Parallel node that has not completed is ticked, afresh or on from what it has saved. -/
theorem play_tickShare (visit : Visit) (i : Nat) (child : Node) (state : Option Active) (s : Scene) :
    (tickShare visit (tick child) (state.map .active)).play s =
      match (⟨i, child, state, [], .nothing, s, s⟩ : Call).upshot with
      | (.ok report, t) => (.ok report.share, t)
      | (.error fault, t) => (.error ⟨fault.error, visit.path.length⟩, t) := by
  have ticked : tickShare visit (tick child) (state.map .active) = tickBeside visit (tick child) state := by
    cases state <;> rfl
  rw [ticked, tickBeside, play_bind, play_tryCatch, Call.upshot_eq]
  rcases (tick child state []).play s with ⟨fault | report, t⟩ <;> rfl

theorem callBeside_map (i : Nat) (child : Node) (state : Option Active) (s : Scene) :
    callBeside i child s (state.map .active) = [⟨i, child, state, [], .nothing, s, s⟩] := by
  cases state <;> rfl

/-- Children ticked side by side make a row of calls. -/
theorem inRow_shares (visit : Visit) (nodes : List Node) (i : Nat) (shares : List (Option Share)) (s : Scene) :
    InRow visit i nodes shares s (entriesBeside visit i nodes shares s)
      ((tickShares visit (nodes.map tick) shares).play s) := by
  induction nodes generalizing i shares s with
  | nil => cases shares <;> exact .nil s (.inl rfl)
  | cons child rest ih =>
    rcases shares with _ | ⟨share, shares⟩
    · exact .nil s (.inr rfl)
    rw [entriesBeside, List.map_cons, play_tickShares_cons]
    obtain ⟨verdict, rfl⟩ | ⟨state, rfl⟩ : (∃ v, share = some (.settled v)) ∨ ∃ state : Option Active,
        share = state.map .active := by
      rcases share with _ | (verdict | state)
      · exact .inr ⟨none, rfl⟩
      · exact .inl ⟨verdict, rfl⟩
      · exact .inr ⟨some state, rfl⟩
    · exact .settled verdict (ih (i + 1) shares s)
    · rw [callBeside_map, play_tickShare visit i]
      rcases came : (⟨i, child, state, [], .nothing, s, s⟩ : Call).upshot with ⟨fault | report, t⟩
      · exact .faulty state came
      · exact .reported state came (ih (i + 1) shares t)

theorem act_concluded (visit : Visit) (x : TickM Report) (s : Scene) :
    (act visit x).play s = concluded visit (x.play (begun visit s)) := by
  have begins : (act visit x).play s = _ := play_bind_ok (play_noteDebug _ s) _
  rw [begins, play_bind]
  rw [begun]
  rcases x.play (s.noteDebug _) with ⟨fault | report, t⟩ <;> rfl

theorem play_allBeside (visit : Visit) (children : List Ticker) (shares : List (Option Share)) (s : Scene) :
    (tickAllBeside visit children shares).play s =
      (((tickShares visit children shares).play s).1.map attended, ((tickShares visit children shares).play s).2) :=
  play_map attended (tickShares visit children shares) s

/-- A node whose child is running lets that child go on first. -/
theorem ticked_over (memory : Memory) (i : Nat) (state : Active) (s : Scene) :
    Ticked (visitAt node path) (some (.over memory i state)) s
      (inner (visitAt node path) s (some (.over memory i state)))
      ((visitNode (visitAt node path) (node.children.map tick) (some (.over memory i state))).play s) := by
  have looks : (visitNode (visitAt node path) (node.children.map tick) (some (.over memory i state))).play s = _ :=
    play_bind_ok (play_now s) _
  rw [visitAt_node, visitAt_path, List.getElem?_map] at looks
  rw [looks, inner, visitAt_node, visitAt_path]
  by_cases late : (armed? node.kind memory).any (· ≤ s.context.clock)
  · rw [if_pos late, if_pos late]
    have fails : ((expire (visitAt node path) state).play s).1 = .ok (.done .failure) := rfl
    rw [show (expire (visitAt node path) state).play s = (.ok (.done .failure), _) from Prod.ext fails rfl]
    exact .expired late
  rw [if_neg late, if_neg late]
  rcases here : node.children[i]? with _ | child
  · exact .missing _ late here
  simp only [Option.map_some]
  rw [play_bind]
  rcases came : (tick child (some state) path).play s with ⟨fault | (verdict | state'), t⟩
  · exact .faulty late here came
  · simp only
    rw [act_concluded]
    exact .back late here came (ruled_rule _ _)
  · exact .runs late here came

/-- What a node does in a tick, whatever its state. -/
theorem ticked_node (state : Option Active) (s : Scene) :
    Ticked (visitAt node path) state s (inner (visitAt node path) s state)
      ((visitNode (visitAt node path) (node.children.map tick) state).play s) := by
  rcases state with _ | (memory | ⟨memory, i, state⟩ | shares)
  · rw [inner, visitNode, visitAt_node]
    by_cases parallel : node.kind = .parallel
    · rw [if_pos parallel, if_pos parallel, List.map_map, act_concluded, play_allBeside]
      exact .enteredBeside parallel (inRow_shares _ _ _ _ _)
    · rw [if_neg parallel, if_neg parallel, act_concluded]
      exact .entered parallel (ruled_rule _ _)
  · rw [inner, visitNode, act_concluded]
    exact .rested (ruled_rule _ _)
  · exact ticked_over memory i state s
  · rw [inner, visitNode, act_concluded, play_allBeside]
    exact .beside (inRow_shares _ _ _ _ _)

end

/-- How a call visits its node. -/
def Call.visit (call : Call) : Visit := visitAt call.node (call.path ++ [call.node.id])

@[simp] theorem Call.visit_node (call : Call) : call.visit.node = call.node := rfl

theorem Call.ticked (call : Call) : Ticked call.visit call.state call.scene call.made call.upshot := by
  rw [Call.upshot_eq, tick_eq]
  exact ticked_node call.state call.scene

theorem Call.within_eq (call : Call) : call.within = spread call.made := calls_eq _ _ _ _

end BehaviorTree.Descent
