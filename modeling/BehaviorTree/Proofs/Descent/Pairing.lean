import BehaviorTree.Proofs.Descent.Abreast

/-!
What every single step of a tick keeps is kept by the tick. The proof follows the descent: a node
begins, goes on or heeds a child by its rule, makes the move that the rule decided on, and so on
until it completes or runs; a Parallel node ticks its children one after another.
-/

namespace BehaviorTree.Descent

open TickM

/-! ### Renamed listeners -/

section

variable (f : Nat → Nat)

/-- The memory with its listener renamed. -/
def Memory.rename : Memory → Memory
  | .mailbox listener => .mailbox (f listener)
  | memory => memory

mutual

/-- The saved state with other listeners. -/
def Active.rename : Active → Active
  | .resting memory => .resting (memory.rename f)
  | .over memory i state => .over (memory.rename f) i state.rename
  | .beside shares => .beside (renameAll shares)

/-- The share of a child with its listeners renamed. -/
def Share.rename : Share → Share
  | .settled verdict => .settled verdict
  | .active state => .active state.rename

/-- The shares with their listeners renamed. -/
def renameAll : List Share → List Share
  | [] => []
  | share :: rest => share.rename :: renameAll rest

end

/-- A report with its listeners renamed. -/
def Report.rename : Report → Report
  | .done verdict => .done verdict
  | .running state => .running (state.rename f)

/-- A move with its listeners renamed. -/
def Move.rename : Move → Move
  | .finish verdict => .finish verdict
  | .enter i memory => .enter i (memory.rename f)
  | .rest memory => .rest (memory.rename f)

variable {f}

theorem Memory.Deaf.rename {memory : Memory} (deaf : memory.Deaf) : memory.rename f = memory := by
  cases memory <;> first | rfl | exact absurd rfl (deaf _)

theorem Move.Deaf.rename {move : Move} (deaf : move.Deaf) : move.rename f = move := by
  cases move with
  | finish verdict => rfl
  | enter i memory => exact congrArg (Move.enter i) (Memory.Deaf.rename deaf)
  | rest memory => exact congrArg Move.rest (Memory.Deaf.rename deaf)

theorem renameAll_eq : ∀ shares : List Share, renameAll f shares = shares.map (Share.rename f)
  | [] => rfl
  | _ :: rest => by rw [renameAll, renameAll_eq rest, List.map_cons]

theorem armed_rename (kind : Kind) (memory : Memory) :
    armed? kind (memory.rename f) = armed? kind memory := by cases memory <;> rfl

theorem status_rename (report : Report) : (report.rename f).status = report.status := by
  cases report <;> rfl

theorem listeners_memory (memory : Memory) :
    Active.listeners.memoryListeners (memory.rename f) = (Active.listeners.memoryListeners memory).map f := by
  cases memory <;> rfl

mutual

theorem listeners_rename : ∀ state : Active, (state.rename f).listeners = state.listeners.map f
  | .resting memory => listeners_memory memory
  | .over memory i state => by
    rw [Active.rename, Active.listeners, Active.listeners, List.map_append, listeners_memory,
      listeners_rename state]
  | .beside shares => listeners_renameAll shares

/-- Renamed shares hold the renamed listeners. -/
theorem listeners_renameAll : ∀ shares : List Share,
    shareListeners (renameAll f shares) = (shareListeners shares).map f
  | [] => rfl
  | .settled _ :: rest => by
    rw [renameAll, shareListeners, shareListeners, Share.rename, Share.listeners,
      listeners_renameAll rest]
    rfl
  | .active state :: rest => by
    rw [renameAll, shareListeners, shareListeners, Share.rename, Share.listeners, Share.listeners,
      listeners_rename state, listeners_renameAll rest, List.map_append]

end

end

/-! ### What is held -/

/-- What a report leaves held. -/
def Report.holds (node : Node) : Report → Multiset Hold
  | .done _ => 0
  | .running state => ↑(state.holds .idle node)

/-- What is held when a node is ticked afresh or on from a saved state. -/
def holdsBefore (node : Node) : Option Active → Multiset Hold
  | none => 0
  | some state => ↑(state.holds .due node)

/-- What is held when a child of a Parallel node is ticked. -/
def shareBefore (node : Node) : Option Share → Multiset Hold
  | none => 0
  | some share => ↑(share.holds .due node)

/-- What is held when the children of a Parallel node are ticked. -/
def sharesBefore : List Node → List (Option Share) → Multiset Hold
  | child :: children, share :: shares => shareBefore child share + sharesBefore children shares
  | _, _ => 0

theorem sharesBefore_none : ∀ nodes : List Node, sharesBefore nodes (nodes.map fun _ => none) = 0
  | [] => rfl
  | _ :: rest => by rw [List.map_cons, sharesBefore, sharesBefore_none rest, shareBefore, Multiset.add_zero]

theorem sharesBefore_some : ∀ (nodes : List Node) (shares : List Share),
    sharesBefore nodes (shares.map some) = ↑(shareHolds .due nodes shares)
  | [], [] => rfl
  | [], _ :: _ => rfl
  | _ :: _, [] => rfl
  | child :: rest, share :: shares => by
    rw [List.map_cons, sharesBefore, sharesBefore_some rest shares, shareBefore, Multiset.coe_add]
    rfl

theorem Memory.Deaf.holds {memory : Memory} (deaf : memory.Deaf) (node : Node) (stance : Stance) :
    memory.holds node stance = [] := by
  cases memory <;> first | rfl | exact absurd rfl (deaf _)

/-- Where a listener is remembered, it is held. -/
theorem add_mailbox (H : Multiset Hold) (node : Node) (stance : Stance) (listener : Nat) :
    H + ↑((Memory.mailbox listener).holds node stance) = ⟨node, listener, stance⟩ ::ₘ H := by
  rw [Memory.holds, Multiset.coe_singleton, Multiset.add_comm, Multiset.singleton_add]

mutual

/-- A sound state holds the listeners that it tells. -/
theorem listener_holds {completed : List Nat} (resting : Stance) : ∀ {node : Node} {state : Active},
    Sound completed node state → (state.holds resting node).map Hold.listener = state.listeners
  | node, .resting memory, _ => by cases memory <;> rfl
  | node, .over memory i state, ⟨_, _, child, here, sound⟩ => by
    have own : (memory.holds node .busy).map Hold.listener = Active.listeners.memoryListeners memory := by
      cases memory <;> rfl
    rw [Active.holds, here, List.map_append, Active.listeners, own, listener_holds resting sound]
  | node, .beside shares, ⟨_, sound⟩ => by
    rw [Active.holds, listener_shareHolds resting sound, Active.listeners]

/-- The holds of the shares have their listeners. -/
theorem listener_shareHolds {completed : List Nat} (resting : Stance) :
    ∀ {nodes : List Node} {shares : List Share}, SoundShares completed nodes shares →
      (shareHolds resting nodes shares).map Hold.listener = shareListeners shares
  | [], [], _ => rfl
  | _ :: _, .settled _ :: _, ⟨_, rest⟩ => by
    rw [shareHolds, List.map_append, listener_shareHolds resting rest, shareListeners, Share.listeners]
    rfl
  | _ :: _, .active _ :: _, ⟨first, rest⟩ => by
    rw [shareHolds, Share.holds, List.map_append, listener_holds resting first,
      listener_shareHolds resting rest, shareListeners, Share.listeners]

end

/-! ### Rules of listening nodes -/

theorem play_whom_of_listens (visit : Visit) (listens : Listens visit.node) (s : Scene) :
    (whom visit).play s = (.ok (visit.node.audience s.actor), s) := by
  rcases listens with kind | kind
  · simp only [whom, kind, play_bind_ok (show (visit.input? 0).play s = _ from rfl), Node.audience]
    rcases (s.actor.input? visit.node 0).bind Value.text? with _ | name <;> rfl
  · simp only [whom, kind, Node.audience]
    rfl

theorem Node.audience_eq (node : Node) {s t : Scene} (alike : s.Alike t) :
    node.audience t.actor = node.audience s.actor := by
  rw [Node.audience, Node.audience, Actor.input?, alike.get?, alike.target]
  rfl

theorem play_startListening (visit : Visit) (target : Target) (s : Scene) :
    (startListening visit target).play s =
      (nextEvent visit (s.context.bus.issued + 1)).play (s.subscribe visit.node.event target) := rfl

theorem play_nextEvent_nil {visit : Visit} {listener : Nat} {s : Scene}
    (none : s.context.queue listener = []) :
    (nextEvent visit listener).play s = (.ok (.rest (.mailbox listener)), s) := by
  rw [nextEvent, play_bind_ok (Visit.play_takeEvent_nil none)]
  rfl

theorem play_nextEvent_cons {visit : Visit} {listener : Nat} {s : Scene} {args : List Value}
    {rest : List (List Value)} (waiting : s.context.queue listener = args :: rest) :
    (nextEvent visit listener).play s =
      (.ok (.enter 0 (.mailbox listener)), handed visit.node listener args rest s) := by
  rw [nextEvent, play_bind_ok (Visit.play_takeEvent_cons waiting)]
  rfl

/-! ### Moves -/

variable {f : Nat → Nat} {J : Multiset Hold → List Call → Scene → Scene → Prop}

/-- The call by which a child is entered, if the node has that child. -/
def entry (visit : Visit) (i : Nat) (memory : Memory) (before s : Scene) : List Call :=
  (visit.node.children[i]?).toList.map fun child => ⟨i, child, none, visit.path, memory, before, s⟩

/-- The relation holds once a move has been decided on, the call by which it begins included. -/
def AtMove (J : Multiset Hold → List Call → Scene → Scene → Prop) (visit : Visit) (H : Multiset Hold)
    (log : List Call) (before : Scene) : Move → Scene → Scene → Prop
  | .finish _, s, t => J H log s t
  | .rest memory, s, t => J (H + ↑(memory.holds visit.node .idle)) log s t
  | .enter i memory, s, t =>
    J (H + ↑(memory.holds visit.node .busy)) (log ++ entry visit i memory before s) s t

/-- The relation holds of a tick that is cut short, whatever is held then. -/
def CutShort (J : Multiset Hold → List Call → Scene → Scene → Prop) (H : Multiset Hold)
    (log : List Call) (s t : Scene) : Prop := ∃ more, J (H + more) log s t

theorem CutShort.of_related {H : Multiset Hold} {log : List Call} {s t : Scene} (related : J H log s t) :
    CutShort J H log s t := ⟨0, by rwa [Multiset.add_zero]⟩

theorem CutShort.of_more {H more : Multiset Hold} {log : List Call} {s t : Scene}
    (cut : CutShort J (H + more) log s t) : CutShort J H log s t := by
  obtain ⟨others, related⟩ := cut
  exact ⟨more + others, by rwa [← Multiset.add_assoc]⟩

section

variable (pairing : Pairing f J) {visit : Visit}

include pairing

/-- A move that lets the node remember no listener leaves things as they are. -/
theorem atMove_of_deaf {move : Move} (deaf : move.Deaf) {H : Multiset Hold} {log : List Call}
    {before s t : Scene} (related : J H log s t) : AtMove J visit H log before move s t := by
  cases move with
  | finish verdict => exact related
  | rest memory =>
    rw [AtMove, Memory.Deaf.holds deaf, Multiset.coe_nil, Multiset.add_zero]
    exact related
  | enter i memory =>
    rw [AtMove, Memory.Deaf.holds deaf, Multiset.coe_nil, Multiset.add_zero, entry]
    rcases visit.node.children[i]? with _ | child
    · rw [Option.toList_none, List.map_nil, List.append_nil]
      exact related
    · refine pairing.call related fun ⟨_, listener, heard⟩ => ?_
      exact (show memory.Deaf from deaf) listener heard

theorem abreast_of_even {x : TickM Move} (even : Even J x) (deaf : Yields x Move.Deaf)
    {H : Multiset Hold} {log : List Call} {s t : Scene} (related : J H log s t) (before : Scene) :
    Abreast x x s t (fun m m' s' t' => m' = m.rename f ∧ AtMove J visit H log before m s' t')
      (CutShort J H log) := by
  refine ((even H log s t related).and_gives (deaf s)).mono ?_ fun _ _ => .of_related
  rintro m m' s' t' ⟨⟨rfl, related⟩, deaf⟩
  exact ⟨(Move.Deaf.rename deaf).symm, atMove_of_deaf pairing deaf related⟩

/-- A listening node takes the next event and enters its child, or finds that none waits. -/
theorem abreast_nextEvent {listener : Nat} {stance : Stance} {H : Multiset Hold} {log : List Call}
    {s t : Scene} (related : J (⟨visit.node, listener, stance⟩ ::ₘ H) log s t)
    (again : stance = .busy → visit.node.isOnce = false)
    {child : Node} (only : visit.node.children = [child]) :
    Abreast (nextEvent visit listener) (nextEvent visit (f listener)) s t
      (fun m m' s' t' => m' = m.rename f ∧ AtMove J visit H log s m s' t') (CutShort J H log) := by
  have same := pairing.queue related
  rcases waiting : s.context.queue listener with _ | ⟨args, rest⟩
  · rw [waiting] at same
    rw [Abreast, play_nextEvent_nil waiting, play_nextEvent_nil same]
    refine .values ⟨rfl, ?_⟩
    rw [AtMove, add_mailbox]
    exact pairing.settle related again waiting
  · rw [waiting] at same
    rw [Abreast, play_nextEvent_cons waiting, play_nextEvent_cons same]
    refine .values ⟨rfl, ?_⟩
    rw [AtMove, add_mailbox, entry, only]
    exact pairing.accept related again waiting rfl rfl rfl ⟨only, rfl⟩

/-- A node that listens is entered: it subscribes, and nothing waits for it yet. -/
theorem abreast_listening {call : Call} (same : visit.node = call.node) (listens : Listens visit.node)
    (fresh : call.state = none) {H : Multiset Hold} {log : List Call} (logged : call ∈ log) {s t : Scene}
    (actor : s.actor = call.scene.actor) (bus : s.context.bus = call.scene.context.bus)
    (related : J H log s t) (before : Scene) :
    Abreast (do startListening visit (← whom visit)) (do startListening visit (← whom visit)) s t
      (fun m m' s' t' => m' = m.rename f ∧ AtMove J visit H log before m s' t') (CutShort J H log) := by
  have heard := play_whom_of_listens visit listens
  have audience : visit.node.audience t.actor = visit.node.audience s.actor :=
    Node.audience_eq visit.node (pairing.alike related)
  have opened := pairing.subscribe related logged fresh (same ▸ listens) actor bus
  rw [← same] at opened
  have nothing : (s.subscribe visit.node.event (visit.node.audience s.actor)).context.queue
      (s.context.bus.issued + 1) = [] :=
    (s.context.queue_subscribe _ _ _ _).trans (pairing.unheard related)
  have nothing' := pairing.queue opened
  rw [nothing] at nothing'
  have settled := pairing.settle opened nofun nothing
  rw [Abreast, play_bind_ok (heard s), play_bind_ok (heard t), audience, play_startListening,
    play_startListening, play_nextEvent_nil nothing, pairing.next related, play_nextEvent_nil nothing']
  refine .values ⟨rfl, ?_⟩
  rw [AtMove, add_mailbox]
  exact settled

/-- However a node begins. -/
theorem abreast_start (builtin : IsBuiltin visit.node) (alone : visit.node.kind ≠ .parallel)
    {call : Call} (same : visit.node = call.node) (fresh : call.state = none) {H : Multiset Hold}
    {log : List Call} (logged : call ∈ log) {s t : Scene} (actor : s.actor = call.scene.actor)
    (bus : s.context.bus = call.scene.context.bus) (related : J H log s t) :
    Abreast (start visit visit.node.kind) (start visit visit.node.kind) s t
      (fun m m' s' t' => m' = m.rename f ∧ AtMove J visit H log s m s' t') (CutShort J H log) := by
  by_cases listens : Listens visit.node
  · rw [start_of_listens listens]
    exact abreast_listening pairing same listens fresh logged actor bus related s
  · refine abreast_of_even pairing (even_start pairing.calm visit builtin listens) (fun s => ?_) related s
    exact (fits_start visit builtin alone s).mono fun _ _ fits => deaf_of_fits listens fits

/-- However a node goes on when no child is active. -/
theorem abreast_goOn {memory : Memory} (rests : RestsWith visit.node.kind memory)
    (only : Listens visit.node → ∃ child, visit.node.children = [child]) {H : Multiset Hold}
    {log : List Call} {s t : Scene} (related : J (H + ↑(memory.holds visit.node .due)) log s t) :
    Abreast (goOn visit visit.node.kind memory) (goOn visit visit.node.kind (memory.rename f)) s t
      (fun m m' s' t' => m' = m.rename f ∧ AtMove J visit H log s m s' t') (CutShort J H log) := by
  by_cases listens : Listens visit.node
  · obtain ⟨listener, rfl, -⟩ := listens.rests rests
    obtain ⟨child, only⟩ := only listens
    rw [add_mailbox] at related
    exact abreast_nextEvent pairing related nofun only
  · have deaf := deaf_of_restsWith listens rests
    rw [Memory.Deaf.holds deaf, Multiset.coe_nil, Multiset.add_zero] at related
    rw [Memory.Deaf.rename deaf]
    refine abreast_of_even pairing (even_goOn pairing.calm visit _ deaf) (fun s => ?_) related s
    exact (fits_goOn visit rests s).mono fun _ _ fits => deaf_of_fits listens fits

/-- However a node heeds a child that has completed. -/
theorem abreast_heed {memory : Memory} {i : Nat} (waits : WaitsWith visit.node.kind memory i)
    (only : Listens visit.node → ∃ child, visit.node.children = [child]) (verdict : Verdict)
    {H : Multiset Hold} {log : List Call} {s t : Scene}
    (related : J (H + ↑(memory.holds visit.node .busy)) log s t) :
    Abreast (heed visit visit.node.kind memory i verdict)
      (heed visit visit.node.kind (memory.rename f) i verdict) s t
      (fun m m' s' t' => m' = m.rename f ∧ AtMove J visit H log s m s' t') (CutShort J H log) := by
  by_cases listens : Listens visit.node
  · obtain ⟨listener, rfl, -⟩ := listens.waits waits
    obtain ⟨child, only⟩ := only listens
    rw [add_mailbox] at related
    rw [Memory.rename, heed_of_listening listens, heed_of_listening listens, heedEvent, heedEvent]
    split
    · exact .values ⟨rfl, pairing.unsubscribe related⟩
    · rename_i again
      exact abreast_nextEvent pairing related (fun _ => Bool.eq_false_iff.mpr again) only
  · have deaf := deaf_of_waitsWith listens waits
    rw [Memory.Deaf.holds deaf, Multiset.coe_nil, Multiset.add_zero] at related
    rw [Memory.Deaf.rename deaf]
    refine abreast_of_even pairing (even_heed pairing.calm visit listens memory i verdict) (fun s => ?_) related s
    exact (fits_heed visit waits verdict s).mono fun _ _ fits => deaf_of_fits listens fits

/-- Listeners are released one after another. -/
theorem abreast_release {holds : List Hold} {H : Multiset Hold} {log : List Call} {s t : Scene}
    (related : J (H + ↑holds) log s t) :
    Abreast (release (holds.map Hold.listener)) (release ((holds.map Hold.listener).map f)) s t
      (fun _ _ s' t' => J H log s' t') (CutShort J H log) := by
  refine .values ?_
  induction holds generalizing s t with
  | nil => rwa [Multiset.coe_nil, Multiset.add_zero] at related
  | cons h rest ih =>
    rw [← Multiset.cons_coe, Multiset.add_cons] at related
    exact ih (pairing.unsubscribe related)

end

/-! ### Ticks -/

/-- A call comes to the same on both sides, and what its node holds changes hands. -/
def Paired (f : Nat → Nat) (J : Multiset Hold → List Call → Scene → Scene → Prop) (node : Node) : Prop :=
  ∀ (call : Call) (H : Multiset Hold) (log : List Call) (t : Scene), call.node = node →
    (∀ state ∈ call.state, Sound [] node state) → call ∈ log →
    J (H + holdsBefore node call.state) log call.scene t →
    Abreast (tick node call.state call.path) (tick node (call.state.map (Active.rename f)) call.path)
      call.scene t
      (fun r r' s' t' => r' = r.rename f ∧ J (H + r.holds node) (log ++ call.within) s' t')
      (CutShort J H (log ++ call.within))

section

variable (pairing : Pairing f J) {node : Node} (shaped : node.Shaped)

include pairing shaped

/-- Heeding a verdict keeps two scenes paired. -/
theorem heeds_at (path : Path) {memory : Memory} {i : Nat} (waits : WaitsWith node.kind memory i) (verdict : Verdict)
    {H : Multiset Hold} {log : List Call} {s t : Scene}
    (related : J (H + ↑(memory.holds node .busy)) log s t) :
    Abreast (heed (visitAt node path) node.kind memory i verdict)
      (heed (visitAt node path) node.kind (memory.rename f) i verdict) s t
      (fun m m' s' t' => m' = m.rename f ∧ AtMove J (visitAt node path) H log s m s' t')
      (CutShort J H log) :=
  abreast_heed pairing (show WaitsWith (visitAt node path).node.kind memory i from waits)
    (fun listens => listens.only_child shaped) verdict related

end

/-- A child is entered afresh. -/
theorem Paired.enter {child : Node} (paired : Paired f J child) (builtin : child.Every IsBuiltin)
    {i : Nat} {path : Path} {memory : Memory} {before s t : Scene} {H : Multiset Hold} {log : List Call}
    (related : J H (log ++ [⟨i, child, none, path, memory, before, s⟩]) s t) :
    let within := calls child none path s
    let log := log ++ ⟨i, child, none, path, memory, before, s⟩ :: within
    Abreast (tick child none path) (tick child none path) s t
      (fun r r' s' t' => (tick child none path).play s = (.ok r, s') ∧
        (r' = r.rename f ∧ J (H + r.holds child) log s' t') ∧ Effects child.ids s s')
      fun s' t' => (∃ fault, (tick child none path).play s = (.error fault, s')) ∧ CutShort J H log s' t' := by
  have begun : J (H + holdsBefore child none) (log ++ [⟨i, child, none, path, memory, before, s⟩]) s t := by
    rwa [holdsBefore, Multiset.add_zero]
  have ticked := paired ⟨i, child, none, path, memory, before, s⟩ H _ t rfl (by rintro a ⟨⟩)
    (List.mem_append_right _ List.mem_cons_self) begun
  rw [List.append_assoc] at ticked
  exact (ticked.and_gives (gives_effects (changes_tick child builtin none path) s)).played

/-- A child goes on from its saved state. -/
theorem Paired.resume {child : Node} (paired : Paired f J child) {state : Active}
    (sound : Sound [] child state) {i : Nat} {path : Path} {memory : Memory} {before s t : Scene}
    {H : Multiset Hold} {log : List Call}
    (related : J (H + ↑(state.holds .due child)) (log ++ [⟨i, child, some state, path, memory, before, s⟩]) s t) :
    let within := calls child (some state) path s
    let log := log ++ ⟨i, child, some state, path, memory, before, s⟩ :: within
    Abreast (tick child (some state) path) (tick child (some (state.rename f)) path) s t
      (fun r r' s' t' => (tick child (some state) path).play s = (.ok r, s') ∧
        r' = r.rename f ∧ J (H + r.holds child) log s' t')
      fun s' t' => (∃ fault, (tick child (some state) path).play s = (.error fault, s')) ∧
        CutShort J H log s' t' := by
  have ticked := paired ⟨i, child, some state, path, memory, before, s⟩ H _ t rfl
    (fun _ same => Option.mem_some.mp same ▸ sound) (List.mem_append_right _ List.mem_cons_self) related
  rw [List.append_assoc] at ticked
  exact ticked.played

section

variable (pairing : Pairing f J) {node : Node} {path : Path} (shaped : node.Shaped)
  (builtin : node.Every IsBuiltin) (below : ∀ child ∈ node.children, Paired f J child)

include pairing shaped builtin below

/-- Turns keep two scenes paired. -/
theorem abreast_drive (turns : Nat) {move : Move} (fits : move.Fits node.kind) {before s t : Scene}
    (room : move.room node.children.length s.context ≤ turns) {H : Multiset Hold} {log : List Call}
    (related : AtMove J (visitAt node path) H log before move s t) :
    Abreast (drive (visitAt node path) (node.children.map tick) turns move)
      (drive (visitAt node path) (node.children.map tick) turns (move.rename f)) s t
      (fun r r' s' t' => r' = r.rename f ∧
        J (H + r.holds node) (log ++ spread (entries (visitAt node path) turns move before s)) s' t')
      (CutShort J H (log ++ spread (entries (visitAt node path) turns move before s))) := by
  induction turns generalizing move before s t log with
  | zero =>
    cases move with
    | finish verdict => exact .values ⟨rfl, by simpa [entries, AtMove, Report.holds] using related⟩
    | rest memory =>
      exact .values ⟨rfl, by simpa [entries, AtMove, Report.holds, Active.holds] using related⟩
    -- A move that enters has room for at least one turn.
    | enter i memory => exact absurd room (by cases memory <;> simp [Move.room])
  | succ turns ih =>
    cases move with
    | finish verdict => exact .values ⟨rfl, by simpa [entries, AtMove, Report.holds] using related⟩
    | rest memory =>
      exact .values ⟨rfl, by simpa [entries, AtMove, Report.holds, Active.holds] using related⟩
    | enter i memory =>
      rw [Move.rename, drive, drive, List.getElem?_map, entries, visitAt_node]
      rcases here : node.children[i]? with _ | child
      · rw [AtMove, entry, visitAt, here] at related
        exact .faults _ ⟨_, related⟩
      · have member := List.mem_of_getElem? here
        rw [AtMove, entry, visitAt_node, visitAt_path, here] at related
        have ticked := (below child member).enter (builtin.child member) related
        rw [visitAt_path]
        refine abreast_bind (ticked.mono (fun _ _ _ _ => id) ?_) ?_
        · rintro s' t' ⟨⟨fault, played⟩, cut⟩
          simp only [played, spread_cons, spread_nil, List.append_nil]
          exact cut.of_more
        · rintro report report' s' t' ⟨played, ⟨rfl, related⟩, effects⟩
          simp only [played, spread_cons]
          cases report with
          | running state =>
            refine abreast_pure ⟨rfl, ?_⟩
            simpa [Report.holds, Active.holds, here, Multiset.add_assoc, Call.within] using related
          | done verdict =>
            have waits : WaitsWith node.kind memory i := fits
            rw [Report.holds, Multiset.add_zero] at related
            have heeded := heeds_at pairing shaped path waits verdict related
            have known := (fits_heed (visitAt node path) waits verdict s').and
              (room_heed (visitAt node path) waits verdict s')
            refine abreast_bind ((heeded.and_gives known).played.mono (fun _ _ _ _ => id) ?_) ?_
            · rintro u w ⟨⟨fault, played⟩, cut⟩
              simpa [played, Call.within] using cut
            · rintro move move' u w ⟨played, ⟨rfl, related⟩, fits, less⟩
              -- Whatever follows the verdict needs less room, which is what the induction on the turns goes by.
              have fewer := Nat.lt_of_lt_of_le less (room_mono (.enter i memory) effects)
              have next := ih fits (Nat.le_of_lt_succ (Nat.lt_of_lt_of_le fewer room)) related
              simpa [played, Call.within] using next

/-- A move is carried out. -/
theorem abreast_carryOut {move : Move} (fits : move.Fits node.kind)
    (inside : move.Inside node.children.length) {before s t : Scene} {H : Multiset Hold} {log : List Call}
    (related : AtMove J (visitAt node path) H log before move s t) :
    let made := entries (visitAt node path) (turns (visitAt node path) s.context move) move before s
    Abreast (carryOut (visitAt node path) (node.children.map tick) move)
      (carryOut (visitAt node path) (node.children.map tick) (move.rename f)) s t
      (fun r r' s' t' => r' = r.rename f ∧ J (H + r.holds node) (log ++ spread made) s' t')
      (CutShort J H (log ++ spread made)) := by
  have counted : turns (visitAt node path) t.context (move.rename f) =
      turns (visitAt node path) s.context move := by
    rcases move with verdict | ⟨i, _ | it | count | time | listener⟩ | memory <;> try rfl
    rw [AtMove, add_mailbox] at related
    exact congrArg (node.children.length + ·.length) (pairing.queue related)
  rw [Abreast, carryOut, carryOut, play_bind_ok (play_context s), play_bind_ok (play_context t), counted]
  exact abreast_drive pairing shaped builtin below _ fits
    (room_le_turns (visitAt node path) s.context inside) related

/-- A rule is followed, and the move that it decides on is carried out. -/
theorem abreast_rule {x y : TickM Move} (fits : Yields x (Move.Fits node.kind))
    (inside : Yields x (Move.Inside node.children.length)) {s t : Scene} {H : Multiset Hold}
    {log : List Call}
    (decided : Abreast x y s t
      (fun m m' s' t' => m' = m.rename f ∧ AtMove J (visitAt node path) H log s m s' t')
      (CutShort J H log)) :
    let made := entriesOf (visitAt node path) x s
    Abreast (do carryOut (visitAt node path) (node.children.map tick) (← x))
      (do carryOut (visitAt node path) (node.children.map tick) (← y)) s t
      (fun r r' s' t' => r' = r.rename f ∧ J (H + r.holds node) (log ++ spread made) s' t')
      (CutShort J H (log ++ spread made)) := by
  have known := (fits s).and (inside s)
  refine abreast_bind ((decided.and_gives known).played.mono (fun _ _ _ _ => id) ?_) ?_
  · rintro s' t' ⟨⟨fault, played⟩, cut⟩
    simpa [entriesOf, played] using cut
  · rintro move move' s' t' ⟨played, ⟨rfl, related⟩, fits, inside⟩
    simpa [entriesOf, played] using abreast_carryOut pairing shaped builtin below fits inside related

end

section

variable (pairing : Pairing f J) {visit : Visit}

include pairing

/-- An execution is recorded. -/
theorem abreast_act {x y : TickM Report} {s t : Scene} {H : Report → Multiset Hold} {log : List Call}
    {E : Scene → Scene → Prop}
    (executed : Abreast x y (begun visit s) (begun visit t)
      (fun r r' s' t' => r' = r.rename f ∧ J (H r) log s' t') E) :
    Abreast (act visit x) (act visit y) s t
      (fun r r' s' t' => r' = r.rename f ∧ J (H r) log s' t') E := by
  refine abreast_bind (P := fun _ _ s' t' => s' = begun visit s ∧ t' = begun visit t)
    (.values ⟨rfl, rfl⟩) ?_
  rintro _ _ s' t' ⟨rfl, rfl⟩
  refine abreast_bind executed ?_
  rintro report report' s' t' ⟨rfl, related⟩
  rw [status_rename]
  have left := pairing.noteDebug (.left visit.node.name visit.node.id report.status) related
  exact .values ⟨rfl, pairing.recast id id (fun _ => report.status) left⟩

/-- A node gives up its child, and with it what is held below. -/
theorem abreast_expire {node : Node} {path : Path} {child : Node} {state : Active}
    (sound : Sound [] child state) {H : Multiset Hold} {log : List Call} {s t : Scene}
    (related : J (H + ↑(state.holds .due child)) log s t) :
    Abreast (expire (visitAt node path) state) (expire (visitAt node path) (state.rename f)) s t
      (fun r r' s' t' => r' = r.rename f ∧ J (H + r.holds node) log s' t') (CutShort J H log) := by
  have clock := (pairing.alike related).clock
  rw [Abreast, expire, expire, play_bind_ok (play_now s), play_bind_ok (play_now t), clock]
  refine abreast_bind (P := fun _ _ s' t' => J (H + ↑(state.holds .due child)) log s' t')
    (.values (pairing.noteDebug _ related)) fun _ _ s' t' related => ?_
  rw [listeners_rename, ← listener_holds .due sound]
  refine abreast_bind (abreast_release pairing related) fun _ _ s' t' related => ?_
  refine abreast_act pairing (abreast_bind (P := fun _ _ s' t' => J H log s' t')
    (.values (pairing.note _ (pairing.noteDebug _ related))) fun _ _ s' t' related => ?_)
  exact abreast_pure ⟨rfl, by rwa [Report.holds, Multiset.add_zero]⟩

/-- A child of a Parallel node is ticked, unless it has completed. -/
theorem abreast_tickShare (visit : Visit) {child : Node} (paired : Paired f J child) {share : Option Share}
    (sound : ∀ a ∈ share, SoundShare [] child a) (i : Nat) {H : Multiset Hold} {log : List Call}
    {s t : Scene} (related : J (H + shareBefore child share) log s t) :
    Abreast (tickShare visit (tick child) share)
      (tickShare visit (tick child) (share.map (Share.rename f))) s t
      (fun r r' s' t' => r' = r.rename f ∧
        J (H + ↑(r.holds .idle child)) (log ++ spread (callBeside i child s share)) s' t')
      (CutShort J H (log ++ spread (callBeside i child s share))) := by
  have beside (state : Option Active) (sound : ∀ a ∈ state, Sound [] child a)
      (related : J (H + holdsBefore child state) (log ++ [⟨i, child, state, [], .nothing, s, s⟩]) s t) :
      Abreast (tickBeside visit (tick child) state)
        (tickBeside visit (tick child) (state.map (Active.rename f))) s t
        (fun r r' s' t' => r' = r.rename f ∧ J (H + ↑(r.holds .idle child))
          (log ++ spread [⟨i, child, state, [], .nothing, s, s⟩]) s' t')
        (CutShort J H (log ++ spread [⟨i, child, state, [], .nothing, s, s⟩])) := by
    have ticked := paired ⟨i, child, state, [], .nothing, s, s⟩ H _ t rfl sound
      (List.mem_append_right _ List.mem_cons_self) related
    refine abreast_bind ((abreast_rethrow _ ticked).mono (fun _ _ _ _ => id) ?_) ?_
    · rintro s' t' cut
      simpa using cut
    · rintro report _ s' t' ⟨rfl, related⟩
      cases report with
      | done verdict => exact abreast_pure ⟨rfl, by simpa [Report.holds, Share.holds, Report.share] using related⟩
      | running state =>
        exact abreast_pure ⟨rfl, by simpa [Report.holds, Share.holds, Report.share] using related⟩
  have called (state : Option Active) (related : J (H + holdsBefore child state) log s t) :
      J (H + holdsBefore child state) (log ++ [⟨i, child, state, [], .nothing, s, s⟩]) s t :=
    pairing.call related fun entry => Memory.noConfusion entry.2.choose_spec
  rcases share with _ | (verdict | state)
  · exact beside none (by rintro a ⟨⟩) (called none related)
  · refine .values ⟨rfl, ?_⟩
    simpa [shareBefore, Share.holds, callBeside] using related
  · exact beside (some state) (fun a same => Option.mem_some.mp same ▸ sound _ rfl)
      (called (some state) related)

/-- The children of a Parallel node are ticked one after another. -/
theorem abreast_tickShares (visit : Visit) {nodes : List Node} (paired : ∀ child ∈ nodes, Paired f J child)
    {shares : List (Option Share)} (sound : SoundBefore [] nodes shares) (i : Nat) {H : Multiset Hold}
    {log : List Call} {s t : Scene} (related : J (H + sharesBefore nodes shares) log s t) :
    Abreast (tickShares visit (nodes.map tick) shares)
      (tickShares visit (nodes.map tick) (shares.map (Option.map (Share.rename f)))) s t
      (fun r r' s' t' => r' = renameAll f r ∧
        J (H + ↑(shareHolds .idle nodes r)) (log ++ spread (entriesBeside visit i nodes shares s)) s' t')
      (CutShort J H (log ++ spread (entriesBeside visit i nodes shares s))) := by
  induction sound generalizing i H log s t with
  | nil =>
    refine .values ⟨rfl, ?_⟩
    simpa [sharesBefore, shareHolds, entriesBeside] using related
  | @cons child share rest shares first later ih =>
    rw [sharesBefore, Multiset.add_comm (shareBefore child share), ← Multiset.add_assoc] at related
    have ticked := (abreast_tickShare pairing visit (paired child List.mem_cons_self) first i
      related).played
    rw [List.map_cons, List.map_cons, tickShares, tickShares, entriesBeside]
    refine abreast_bind (ticked.mono (fun _ _ _ _ => id) ?_) ?_
    · rintro s' t' ⟨⟨fault, played⟩, cut⟩
      rw [played, List.append_nil]
      exact cut.of_more
    · rintro report _ s' t' ⟨played, rfl, related⟩
      rw [Multiset.add_assoc, Multiset.add_comm (sharesBefore rest shares), ← Multiset.add_assoc] at related
      have next := ih (fun child member => paired child (List.mem_cons_of_mem _ member)) (i + 1) related
      rw [played, spread_append, ← List.append_assoc]
      refine abreast_bind (next.mono (fun _ _ _ _ => id) fun _ _ => CutShort.of_more) ?_
      rintro reports _ u w ⟨rfl, related⟩
      exact abreast_pure ⟨rfl, by rwa [shareHolds, ← Multiset.coe_add, ← Multiset.add_assoc]⟩

omit pairing in
/-- Where all children have completed nothing is held. -/
theorem shareHolds_settled (resting : Stance) : ∀ (nodes : List Node) (shares : List Share),
    shares.all isSettled → shareHolds resting nodes shares = []
  | [], [], _ => rfl
  | [], _ :: _, _ => rfl
  | _ :: _, [], _ => rfl
  | _ :: rest, .settled _ :: shares, settled => shareHolds_settled resting rest shares settled
  | _ :: _, .active _ :: _, settled => nomatch settled

/-- A Parallel node succeeds or runs on. -/
theorem abreast_beside (path : Path) {node : Node} (paired : ∀ child ∈ node.children, Paired f J child)
    {shares : List (Option Share)} (sound : SoundBefore [] node.children shares) {H : Multiset Hold}
    {log : List Call} {s t : Scene} (related : J (H + sharesBefore node.children shares) log s t) :
    let made := entriesBeside (visitAt node path) 0 node.children shares s
    Abreast (tickAllBeside (visitAt node path) (node.children.map tick) shares)
      (tickAllBeside (visitAt node path) (node.children.map tick)
        (shares.map (Option.map (Share.rename f)))) s t
      (fun r r' s' t' => r' = r.rename f ∧ J (H + r.holds node) (log ++ spread made) s' t')
      (CutShort J H (log ++ spread made)) := by
  refine abreast_bind (abreast_tickShares pairing _ paired sound 0 related) ?_
  rintro reports _ s' t' ⟨rfl, related⟩
  have settled (share : Share) : isSettled (share.rename f) = isSettled share := by cases share <;> rfl
  have all : (renameAll f reports).all isSettled = reports.all isSettled := by
    rw [renameAll_eq, List.all_map]
    exact congrArg reports.all (funext settled)
  rw [all]
  by_cases done : reports.all isSettled
  · rw [if_pos done, if_pos done]
    rw [shareHolds_settled .idle _ _ done, Multiset.coe_nil] at related
    exact abreast_pure ⟨rfl, related⟩
  · rw [if_neg done, if_neg done]
    exact abreast_pure ⟨rfl, related⟩

end

theorem noteDebug_bus (s : Scene) (n : Note) : (s.noteDebug n).context.bus = s.context.bus := by
  unfold Scene.noteDebug
  split <;> rfl

section

variable (pairing : Pairing f J) {node : Node} (shaped : node.Shaped) (builtin : node.Every IsBuiltin)
  (below : ∀ child ∈ node.children, Paired f J child)

include pairing shaped builtin below

/-- A node goes on with its active child, unless its deadline has come. -/
theorem abreast_over {memory : Memory} {i : Nat} {state : Active} {child : Node}
    (waits : WaitsWith node.kind memory i) (here : node.children[i]? = some child) (sound : Sound [] child state)
    {H : Multiset Hold} {log : List Call} {s t : Scene}
    (related : J (H + holdsBefore node (some (.over memory i state))) log s t) (path : Path) :
    let made := inner (visitAt node path) s (some (.over memory i state))
    Abreast (visitNode (visitAt node path) (node.children.map tick) (some (.over memory i state)))
      (visitNode (visitAt node path) (node.children.map tick) (some ((Active.over memory i state).rename f))) s t
      (fun r r' s' t' => r' = r.rename f ∧ J (H + r.holds node) (log ++ spread made) s' t')
      (CutShort J H (log ++ spread made)) := by
  have member := List.mem_of_getElem? here
  have clock := (pairing.alike related).clock
  simp only [holdsBefore, Active.holds, here, ← Multiset.coe_add] at related
  rw [Active.rename, visitNode, visitNode, visitAt_node, visitAt_path, List.getElem?_map, here, armed_rename, inner,
    visitAt_node, here, Abreast, play_bind_ok (play_now s), play_bind_ok (play_now t), clock]
  by_cases late : (armed? node.kind memory).any (· ≤ s.context.clock)
  · rw [if_pos late, if_pos late, if_pos late]
    have deaf : memory.Deaf := by
      rintro listener rfl
      exact absurd late Bool.false_ne_true
    rw [Memory.Deaf.holds deaf, Multiset.coe_nil, Multiset.zero_add] at related
    rw [spread_nil, List.append_nil]
    exact abreast_expire pairing sound related
  · rw [if_neg late, if_neg late, if_neg late]
    rw [← Multiset.add_assoc] at related
    have called : J _ (log ++ [⟨i, child, some state, path, memory, s, s⟩]) s t :=
      pairing.call related fun entry => Option.some_ne_none _ entry.1
    refine abreast_bind (((below child member).resume sound called).mono (fun _ _ _ _ => id) ?_) ?_
    · rintro s' t' ⟨⟨fault, played⟩, cut⟩
      simpa [played, Call.within] using cut.of_more
    · rintro report _ s' t' ⟨played, rfl, related⟩
      cases report with
      | running state =>
        have reported := pairing.recast id id (fun _ => .running) related
        refine .values ⟨rfl, ?_⟩
        simp only [visitAt_path, played, spread_cons, spread_nil, List.append_nil, Call.within,
          Report.holds, Active.holds, here]
        rwa [← Multiset.coe_add, ← Multiset.add_assoc]
      | done verdict =>
        rw [Report.holds, Multiset.add_zero] at related
        have started : J _ _ (begun (visitAt node path) s') (begun (visitAt node path) t') :=
          pairing.noteDebug (.entered node.name node.id (path.length - 1)) related
        have heeded := abreast_act pairing (abreast_rule pairing shaped builtin below
          (fits_heed (visitAt node path) waits verdict) (inside_heed shaped waits verdict)
          (heeds_at pairing shaped path waits verdict started))
        simpa [played, Call.within, Report.rename] using heeded

/-- A node is visited, afresh or going on from a saved state. -/
theorem abreast_visitNode {call : Call} (same : call.node = node)
    (sound : ∀ state ∈ call.state, Sound [] node state) {H : Multiset Hold} {log : List Call} {t : Scene}
    (logged : call ∈ log) (related : J (H + holdsBefore node call.state) log call.scene t) (path : Path) :
    let made := inner (visitAt node path) call.scene call.state
    Abreast (visitNode (visitAt node path) (node.children.map tick) call.state)
      (visitNode (visitAt node path) (node.children.map tick) (call.state.map (Active.rename f)))
      call.scene t
      (fun r r' s' t' => r' = r.rename f ∧ J (H + r.holds node) (log ++ spread made) s' t')
      (CutShort J H (log ++ spread made)) := by
  obtain ⟨_, owner, state, _, _, _, s⟩ := call
  obtain rfl : node = owner := same.symm
  have started {H : Multiset Hold} {log : List Call} {s t : Scene} (related : J H log s t) :
      J H log (begun (visitAt node path) s) (begun (visitAt node path) t) :=
    pairing.noteDebug (.entered node.name node.id (path.length - 1)) related
  rcases state with _ | (memory | ⟨memory, i, state⟩ | shares)
  · rw [holdsBefore, Multiset.add_zero] at related
    rw [Option.map_none, inner, visitNode, visitAt_node]
    by_cases parallel : node.kind = .parallel
    · rw [if_pos parallel, if_pos parallel]
      have ticked := abreast_beside pairing path below (soundBefore_none [] node.children)
        (H := H) (by rw [sharesBefore_none, Multiset.add_zero]; exact started related)
      rw [List.map_map] at ticked
      rw [List.map_map]
      exact abreast_act pairing ticked
    · rw [if_neg parallel, if_neg parallel]
      refine abreast_act pairing (abreast_rule pairing shaped builtin below
        (fits_start _ builtin.self parallel) (inside_start shaped parallel) ?_)
      exact abreast_start pairing builtin.self parallel rfl rfl logged
        (noteDebug_actor s _) (noteDebug_bus s _) (started related)
  · have rests : RestsWith node.kind memory := sound _ rfl
    refine abreast_act pairing (abreast_rule pairing shaped builtin below (fits_goOn _ rests)
      (inside_goOn shaped rests) ?_)
    exact abreast_goOn pairing rests (fun listens => listens.only_child shaped) (started related)
  · obtain ⟨waits, -, child, here, sound⟩ := sound _ rfl
    exact abreast_over pairing shaped builtin below waits here sound related path
  · have ticked := abreast_beside pairing path below
      (soundBefore_some (sound (.beside shares) rfl).2) (H := H)
      (by rw [sharesBefore_some]; exact started related)
    rw [List.map_map] at ticked
    rw [Option.map_some, Active.rename, renameAll_eq, visitNode, visitNode, List.map_map]
    exact abreast_act pairing ticked

end

/-- What every single step of a tick keeps is kept by the tick. -/
theorem paired_tick (pairing : Pairing f J) (node : Node) (shaped : node.Every Node.Shaped) :
    Paired f J node := by
  induction node using Node.induct with
  | step node ih =>
    have below (child : Node) (member : child ∈ node.children) : Paired f J child :=
      ih child member (shaped.child member)
    have builtin : node.Every IsBuiltin := shaped.mono fun _ shaped => shaped.builtin
    intro call H log t same sound logged related
    subst same
    have visited := abreast_visitNode pairing shaped.self builtin below rfl sound logged related
      (call.path ++ [call.node.id])
    rw [Call.within, calls_eq, tick_eq, tick_eq]
    exact visited

end BehaviorTree.Descent
