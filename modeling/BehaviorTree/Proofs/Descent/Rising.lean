import BehaviorTree.Proofs.Descent.Pairing
import BehaviorTree.Proofs.Event.Silent

/-!
Listeners are numbered in the order in which they are opened. So no two calls open the same one, and a call
that comes after another finds no fewer listeners given out.
-/

namespace BehaviorTree

/-- How many listeners have been given out. -/
abbrev Scene.issued (s : Scene) : Nat := s.context.bus.issued

namespace Descent

open TickM

/-- A listening node is entered: it opens a listener. -/
def Call.Opens (call : Call) : Prop := call.state = none ∧ Listens call.node

/-- The listener that is opened. -/
def Call.listener (call : Call) : Nat := call.scene.issued + 1

/-- Calls that are made while listeners are given out, from a number on up to another one. -/
inductive Rising : Nat → List Call → Nat → Prop where
  | nil {lo hi : Nat} (le : lo ≤ hi) : Rising lo [] hi
  | cons {lo hi : Nat} {call : Call} {rest : List Call} (le : lo ≤ call.scene.issued)
      (later : Rising call.scene.issued rest hi) (opens : call.Opens → Rising call.listener rest hi) :
      Rising lo (call :: rest) hi

namespace Rising

variable {lo mid hi : Nat} {calls more : List Call} {call : Call}

theorem le (rising : Rising lo calls hi) : lo ≤ hi := by
  induction rising with
  | nil le => exact le
  | cons le _ _ ih => exact Nat.le_trans le ih

theorem down (rising : Rising mid calls hi) (le : lo ≤ mid) : Rising lo calls hi := by
  cases rising with
  | nil le' => exact .nil (Nat.le_trans le le')
  | cons le' later opens => exact .cons (Nat.le_trans le le') later opens

theorem append (rising : Rising lo calls mid) (later : Rising mid more hi) : Rising lo (calls ++ more) hi := by
  induction rising with
  | nil le => exact later.down le
  | cons le _ _ ih ih' => exact .cons le (ih later) fun opens => ih' opens later

/-- Calls come between the listeners issued before them and after them. -/
theorem scene_le (rising : Rising lo calls hi) :
    ∀ call ∈ calls, lo ≤ call.scene.issued ∧ call.scene.issued ≤ hi ∧ (call.Opens → call.listener ≤ hi) := by
  induction rising with
  | nil le => exact fun _ member => absurd member List.not_mem_nil
  | cons le later opens ih _ =>
    intro call member
    rcases List.mem_cons.mp member with rfl | member
    · exact ⟨le, later.le, fun opening => (opens opening).le⟩
    · obtain ⟨one, two, three⟩ := ih call member
      exact ⟨Nat.le_trans le one, two, three⟩

/-- What comes before a call and what comes after it. -/
theorem split (rising : Rising lo (calls ++ call :: more) hi) :
    Rising lo calls call.scene.issued ∧ Rising call.scene.issued more hi ∧
      (call.Opens → Rising call.listener more hi) := by
  induction calls generalizing lo with
  | nil =>
    cases rising with
    | cons le later opens => exact ⟨.nil le, later, opens⟩
  | cons first rest ih =>
    cases rising with
    | cons le later opens =>
      obtain ⟨before, after, opened⟩ := ih later
      exact ⟨.cons le before fun opening => (ih (opens opening)).1, after, opened⟩

theorem up {top : Nat} (rising : Rising lo calls hi) (le : hi ≤ top) : Rising lo calls top := by
  rw [← List.append_nil calls]
  exact rising.append (.nil le)

/-- Every listener is opened once. -/
theorem unique {a b : Call} (rising : Rising lo calls hi) (there : a ∈ calls) (opens : a.Opens) (there' : b ∈ calls)
    (opens' : b.Opens) (same : b.listener = a.listener) : b = a := by
  obtain ⟨before, after, rfl⟩ := List.append_of_mem there
  obtain ⟨early, -, late⟩ := rising.split
  rcases List.mem_append.mp there' with first | here
  · obtain ⟨-, -, le⟩ := early.scene_le b first
    exact absurd (same ▸ le opens') (Nat.not_succ_le_self _)
  · rcases List.mem_cons.mp here with rfl | last
    · rfl
    · obtain ⟨le, -, -⟩ := (late opens).scene_le b last
      exact absurd (Nat.lt_succ_of_le (same ▸ le)) (Nat.lt_irrefl _)

end Rising

/-! ### Effects -/

theorem Effect.issued {ids : List Nat} {s t : Scene} (effect : Effect ids s t) : s.issued ≤ t.issued := by
  cases effect with
  | subscribe event target reached => exact Nat.le_succ _
  | unsubscribe listener => exact Nat.le_of_eq (s.context.without_bus_unsubscribe listener).issued.symm
  | _ => exact Nat.le_refl _

theorem Effects.issued {ids : List Nat} {s t : Scene} (effects : Effects ids s t) : s.issued ≤ t.issued := by
  induction effects with
  | refl => exact Nat.le_refl _
  | tail _ last ih => exact Nat.le_trans ih last.issued

theorem Changes.issued {α : Type} {ids : List Nat} {x : TickM α} (changes : Changes ids x) (s : Scene) :
    s.issued ≤ (x.play s).2.issued := (changes s).issued

theorem issued_noteDebug (s : Scene) (n : Note) : (s.noteDebug n).issued = s.issued := by
  unfold Scene.noteDebug
  split <;> rfl

/-- An execution reports what it does once it has begun, and gives out no listener besides. -/
theorem play_act (visit : Visit) (x : TickM Report) (s : Scene) :
    ((act visit x).play s).1 = (x.play (begun visit s)).1 ∧
      ((act visit x).play s).2.issued = (x.play (begun visit s)).2.issued := by
  rw [act, play_bind_ok (play_noteDebug _ s), play_bind]
  rw [show s.noteDebug (.entered visit.node.name visit.node.id (visit.path.length - 1)) = begun visit s from rfl]
  generalize x.play (begun visit s) = played
  obtain ⟨fault | report, t⟩ := played
  · exact ⟨rfl, rfl⟩
  · exact ⟨rfl, issued_noteDebug t _⟩

theorem issued_start (visit : Visit) (listens : Listens visit.node) (s : Scene) :
    s.issued + 1 ≤ ((start visit visit.node.kind).play s).2.issued := by
  rw [start_of_listens listens, play_bind_ok (play_whom_of_listens visit listens s), play_startListening]
  have changes : Changes [] (nextEvent visit (s.context.bus.issued + 1)) := changes_nextEvent visit _
  exact changes.issued (s.subscribe _ _)

/-! ### Ticks -/

/-- The calls within a tick of the node are made while listeners are given out; a listening node that is entered
opens one first. -/
def Climbs (node : Node) : Prop := ∀ state path s,
  Rising s.issued (calls node state path s) ((tick node state path).play s).2.issued ∧
    (state = none → Listens node →
      Rising (s.issued + 1) (calls node state path s) ((tick node state path).play s).2.issued)

/-- A call with those within it, and whatever comes later. -/
theorem Climbs.call {child : Node} (climbs : Climbs child) (i : Nat) (state : Option Active) (path : Path)
    (memory : Memory) (before s : Scene) {rest : List Call} {hi : Nat}
    (later : Rising ((tick child state path).play s).2.issued rest hi) :
    Rising s.issued (⟨i, child, state, path, memory, before, s⟩ :: (calls child state path s ++ rest)) hi := by
  obtain ⟨within, opened⟩ := climbs state path s
  exact .cons (Nat.le_refl _) (within.append later) fun opens => (opened opens.1 opens.2).append later

section

variable {node : Node} (path : Path) (below : ∀ child ∈ node.children, Climbs child)

include below

/-- In turns the numbers of listeners rise from call to call. -/
theorem rising_drive (turns : Nat) (move : Move) (before s : Scene) :
    Rising s.issued (spread (entries (visitAt node path) turns move before s))
      ((drive (visitAt node path) (node.children.map tick) turns move).play s).2.issued := by
  induction turns generalizing move before s with
  | zero => cases move <;> exact .nil (Nat.le_refl _)
  | succ turns ih =>
    cases move with
    | finish | rest => exact .nil (Nat.le_refl _)
    | enter i memory =>
      rw [entries, drive, visitAt_node, List.getElem?_map]
      rcases here : node.children[i]? with _ | child
      · exact .nil (Nat.le_refl _)
      · rw [Option.map_some, visitAt_path, spread_cons, Call.within]
        refine (below child (List.mem_of_getElem? here)).call i none path memory before s ?_
        rw [play_bind]
        generalize (tick child none path).play s = ticked
        obtain ⟨fault | (verdict | state), t⟩ := ticked
        · exact .nil (Nat.le_refl _)
        · simp only
          have changes := changes_heed (visitAt node path) (List.mem_singleton_self _) node.kind memory i verdict
          have heeded := changes.issued t
          rw [play_bind]
          generalize (heed (visitAt node path) node.kind memory i verdict).play t = decided at heeded ⊢
          obtain ⟨fault | move, u⟩ := decided
          · exact .nil heeded
          · exact (ih move t u).down heeded
        · exact .nil (Nat.le_refl _)

/-- The same for a rule and the move that it comes to. -/
theorem rising_rule {x : TickM Move} {s : Scene} {lo : Nat} (le : lo ≤ (x.play s).2.issued) :
    Rising lo (spread (entriesOf (visitAt node path) x s))
      ((do carryOut (visitAt node path) (node.children.map tick) (← x) : TickM Report).play s).2.issued := by
  rw [entriesOf, play_bind]
  generalize x.play s = decided at le ⊢
  obtain ⟨fault | move, t⟩ := decided
  · exact .nil le
  · exact (rising_drive path below _ move s t).down le

/-- The same for children side by side. -/
theorem rising_beside (visit : Visit) {nodes : List Node} (sub : nodes ⊆ node.children) (i : Nat)
    (shares : List (Option Share)) (s : Scene) :
    Rising s.issued (spread (entriesBeside visit i nodes shares s))
      ((tickShares visit (nodes.map tick) shares).play s).2.issued := by
  induction nodes generalizing i shares s with
  | nil => cases shares <;> exact .nil (Nat.le_refl _)
  | cons child rest ih =>
    rcases shares with _ | ⟨share, shares⟩
    · exact .nil (Nat.le_refl _)
    · have first : Rising s.issued (spread (callBeside i child s share))
          ((tickShare visit (tick child) share).play s).2.issued := by
        have climbs := below child (sub List.mem_cons_self)
        have beside (state : Option Active) :
            Rising s.issued (spread [⟨i, child, state, [], .nothing, s, s⟩])
              ((tickBeside visit (tick child) state).play s).2.issued := by
          rw [tickBeside, play_bind, play_tryCatch]
          refine climbs.call i state [] .nothing s s ?_
          generalize (tick child state []).play s = ticked
          obtain ⟨fault | report, t⟩ := ticked <;> exact .nil (Nat.le_refl _)
        rcases share with _ | (verdict | state)
        · exact beside none
        · exact .nil (Nat.le_refl _)
        · exact beside (some state)
      rw [List.map_cons, tickShares, play_bind, entriesBeside, spread_append]
      refine first.append ?_
      generalize (tickShare visit (tick child) share).play s = ticked
      obtain ⟨fault | share, t⟩ := ticked
      · exact .nil (Nat.le_refl _)
      · have later := ih (fun _ member => sub (List.mem_cons_of_mem _ member)) (i + 1) shares t
        simp only
        rw [play_bind]
        generalize (tickShares visit (rest.map tick) shares).play t = ticked at later ⊢
        obtain ⟨fault | shares, u⟩ := ticked <;> exact later

theorem rising_allBeside (visit : Visit) (shares : List (Option Share)) (s : Scene) :
    Rising s.issued (spread (entriesBeside visit 0 node.children shares s))
      ((tickAllBeside visit (node.children.map tick) shares).play s).2.issued := by
  have beside := rising_beside below visit (List.Subset.refl _) 0 shares s
  rw [tickAllBeside, play_bind]
  generalize (tickShares visit (node.children.map tick) shares).play s = ticked at beside ⊢
  obtain ⟨fault | shares, t⟩ := ticked <;> exact beside

end

/-- The nodes of a tree climb. -/
theorem climbs (node : Node) (builtin : node.Every IsBuiltin) : Climbs node := by
  induction node using Node.induct with
  | step node ih =>
    have below (child : Node) (member : child ∈ node.children) : Climbs child := ih child member (builtin.child member)
    intro state path s
    have started (visit : Visit) (s : Scene) : (begun visit s).issued = s.issued := issued_noteDebug s _
    rw [calls_eq, tick_eq]
    generalize path ++ [node.id] = path
    -- Only a fresh node opens a listener; the other states just hand on what the children open.
    rcases state with _ | (memory | ⟨memory, i, state⟩ | shares)
    · rw [inner, visitNode, visitAt_node]
      by_cases parallel : node.kind = .parallel
      · rw [if_pos parallel, if_pos parallel, (play_act _ _ _).2, ← started (visitAt node path)]
        rw [List.map_map]
        refine ⟨rising_allBeside below _ _ _, fun _ listens => ?_⟩
        rcases listens with kind | kind <;> exact absurd (parallel.symm.trans kind) (by decide)
      · rw [if_neg parallel, if_neg parallel, (play_act _ _ _).2, ← started (visitAt node path)]
        have changes : Changes [] (start (visitAt node path) node.kind) := changes_start _ builtin.self
        have le := changes.issued (begun (visitAt node path) s)
        exact ⟨rising_rule path below le, fun _ listens =>
          rising_rule path below (issued_start (visitAt node path) listens _)⟩
    · rw [inner, visitNode, visitAt_node, (play_act _ _ _).2, ← started (visitAt node path)]
      have changes : Changes [] (goOn (visitAt node path) node.kind memory) := changes_goOn _ _ _
      have le := changes.issued (begun (visitAt node path) s)
      exact ⟨rising_rule path below le, by rintro ⟨⟩⟩
    · refine ⟨?_, by rintro ⟨⟩⟩
      rw [inner, visitNode, play_bind_ok (play_now s), visitAt_node, List.getElem?_map]
      by_cases late : (armed? node.kind memory).any (· ≤ s.context.clock)
      · rw [if_pos late, if_pos late]
        have changes : Changes [] (expire (visitAt node path) state) := changes_expire _ _
        exact .nil (changes.issued s)
      · rw [if_neg late, if_neg late]
        rcases here : node.children[i]? with _ | child
        · exact .nil (Nat.le_refl _)
        · rw [Option.map_some, visitAt_path, spread_cons, Call.within]
          refine (below child (List.mem_of_getElem? here)).call i (some state) path memory s s ?_
          simp only
          rw [play_bind]
          generalize (tick child (some state) path).play s = ticked
          obtain ⟨fault | (verdict | state), t⟩ := ticked
          · exact .nil (Nat.le_refl _)
          · have le := (changes_heed (visitAt node path) (List.mem_singleton_self _) node.kind memory i verdict).issued
              (begun (visitAt node path) t)
            rw [started] at le
            simp only
            rw [(play_act _ _ _).2]
            exact rising_rule path below le
          · exact .nil (Nat.le_refl _)
    · rw [inner, visitNode, visitAt_node, (play_act _ _ _).2, ← started (visitAt node path)]
      exact ⟨rising_allBeside below _ _ _, by rintro ⟨⟩⟩

end Descent
end BehaviorTree
