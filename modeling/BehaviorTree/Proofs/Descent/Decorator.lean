import BehaviorTree.Proofs.Descent.Decision

/-!
Nodes with one child decide on a stack what the rules of the descent say: on a fresh tick, when
they go on with no child active, and when the child that they waited for has completed. A
listening node handles as many events in the descent as on a stack, for its child takes events out
of the mailbox or leaves them there, but never puts any in.
-/

namespace BehaviorTree.Descent

open Visit (limit?)

variable {node : Node} {path : Path} {progress : Option Progress} {tasks : List Task}

/-- A fresh node with one child ticks it. -/
theorem onlyChild_eq {child : Node} (only : node.children = [child]) :
    (onStack node none tasks path).onlyChild = child.tick path := by
  simp only [Visit.onlyChild, onStack, only]
  rfl

/-- A resumed node with one child takes up the verdict that was reported last. -/
theorem play_onlyChild (progress : Progress) {s : Scene} {verdict : Verdict}
    (reported : s.actor.last = verdict.status) :
    (onStack node (some progress) tasks path).onlyChild.play s = (.ok (.done verdict), s) := by
  simp only [Visit.onlyChild, onStack]
  rw [TickM.play_bind_ok (Visit.play_childVerdict _ reported)]
  rfl

theorem tickChild_eq {child : Node} (only : node.children = [child]) :
    (onStack node progress tasks path).tickChild 0 = child.tick path := by
  simp only [Visit.tickChild, onStack, only]
  rfl

/-! ### Verdicts -/

/-- The kinds that only change the verdict of their child. -/
def Maps (node : Node) (f : Verdict → Verdict) : Prop :=
  node.kind = .inverter ∧ f = Verdict.invert ∨ node.kind = .alwaysSuccess ∧ f = (fun _ => .success) ∨
    node.kind = .alwaysFail ∧ f = (fun _ => .failure)

theorem run_of_maps {f : Verdict → Verdict} (maps : Maps node f) :
    (onStack node progress tasks path).run = (onStack node progress tasks path).mapVerdict f := by
  rcases maps with ⟨kind, rfl⟩ | ⟨kind, rfl⟩ | ⟨kind, rfl⟩ <;>
    simp only [Visit.run, onStack, kind] <;> rfl

theorem heed_of_maps {f : Verdict → Verdict} (maps : Maps node f) (memory : Memory) (i : Nat)
    (verdict : Verdict) :
    heed (visitAt node path) node.kind memory i verdict = pure (.finish (f verdict)) := by
  rcases maps with ⟨kind, rfl⟩ | ⟨kind, rfl⟩ | ⟨kind, rfl⟩ <;> rw [kind] <;> rfl

/-- A decorator that changes the verdict begins with its child. -/
theorem mapVerdict_start (agree : Agree node.children) {f : Verdict → Verdict} (maps : Maps node f)
    {child : Node} (only : node.children = [child]) :
    (onStack node none tasks path).run =
      start (visitAt node path) node.kind >>= decision node path := by
  have begins : start (visitAt node path) node.kind = pure (.enter 0 .nothing) := by
    rcases maps with ⟨kind, rfl⟩ | ⟨kind, rfl⟩ | ⟨kind, rfl⟩ <;> rw [kind] <;> rfl
  rw [run_of_maps maps, begins, pure_bind, Visit.mapVerdict, onlyChild_eq only]
  refine (decision_only agree only .nothing nofun (fun above => ?_) fun verdict => ?_).symm
  · rcases maps with ⟨kind, _⟩ | ⟨kind, _⟩ | ⟨kind, _⟩ <;> rw [kind] <;> rfl
  · rw [heed_of_maps maps, pure_bind, decisionWithin_finish]

theorem mapVerdict_heed {f : Verdict → Verdict} (maps : Maps node f) (memory : Memory) (i : Nat)
    (progress : Progress) {s : Scene} {verdict : Verdict} (reported : s.actor.last = verdict.status) :
    (onStack node (some progress) tasks path).run.play s =
      (heed (visitAt node path) node.kind memory i verdict >>= decision node path).play s := by
  rw [run_of_maps maps, heed_of_maps maps, pure_bind, decision_finish, Visit.mapVerdict,
    TickM.play_bind_ok (play_onlyChild progress reported)]

theorem assert_start (agree : Agree node.children) (kind : node.kind = .assert) {child : Node}
    (only : node.children = [child]) :
    (onStack node none tasks path).assert = decision node path (.enter 0 .nothing) := by
  rw [Visit.assert, onlyChild_eq only]
  refine (decision_only agree only .nothing nofun (fun above => ?_) fun verdict => ?_).symm
  · rw [kind]
    rfl
  · rw [kind]
    cases verdict with
    | success =>
      simp only [heed, heedAssertion, pure_bind, decisionWithin_finish]
      rfl
    | failure => rfl

/-- An assertion that is resumed heeds its child's verdict. -/
theorem assert_heed (kind : node.kind = .assert) (memory : Memory) (i : Nat) (progress : Progress)
    {s : Scene} {verdict : Verdict} (reported : s.actor.last = verdict.status) :
    (onStack node (some progress) tasks path).assert.play s =
      (heed (visitAt node path) node.kind memory i verdict >>= decision node path).play s := by
  rw [Visit.assert, TickM.play_bind_ok (play_onlyChild progress reported), kind]
  cases verdict with
  | success =>
    simp only [heed, heedAssertion, pure_bind, decision_finish]
    rfl
  | failure => rfl

/-! ### Repetition -/

theorem alwaysRunning_enter (agree : Agree node.children) (kind : node.kind = .alwaysRunning)
    {child : Node} (only : node.children = [child])
    (begins : progress = none ∨ progress = some (.restarting false)) :
    (onStack node progress tasks path).alwaysRunning = decision node path (.enter 0 .nothing) := by
  have entered : (onStack node progress tasks path).alwaysRunning =
      ((onStack node progress tasks path).tickChild 0 >>=
        following (fun above => return .await (.restarting true) above)
          fun _ => return .keep (.restarting false)) := by
    rcases begins with rfl | rfl <;> rfl
  rw [entered, tickChild_eq only]
  refine (decision_only agree only .nothing nofun (fun above => ?_) fun verdict => ?_).symm
  · rw [kind]
    rfl
  · simp only [kind, heed, pure_bind, decisionWithin_rest]
    rfl

theorem alwaysRunning_heed (kind : node.kind = .alwaysRunning) (memory : Memory) (i : Nat)
    {s : Scene} {verdict : Verdict} (reported : s.actor.last = verdict.status) :
    (onStack node (some (.restarting true)) tasks path).alwaysRunning.play s =
      (heed (visitAt node path) node.kind memory i verdict >>= decision node path).play s := by
  simp only [kind, heed, pure_bind, decision_rest]
  exact TickM.play_bind_ok (Visit.play_childVerdict _ reported) _

variable (path) in
/-- An attempt is followed by a verdict or by another attempt. -/
theorem afterAttempt_cases (progress : Option Progress) (tasks : List Task) (wanted : Verdict)
    (count : Nat) (verdict : Verdict) :
    (∃ v, heedAttempt (visitAt node path) wanted (.attempts count) verdict = .finish v ∧
      (onStack node progress tasks path).afterAttempt wanted count verdict = .finish v) ∨
    (heedAttempt (visitAt node path) wanted (.attempts count) verdict = .rest (.attempts (count + 1)) ∧
      (onStack node progress tasks path).afterAttempt wanted count verdict =
        .keep (.attempt (count + 1) false)) := by
  rw [heedAttempt, Visit.afterAttempt]
  by_cases ended : verdict = wanted
  · rw [if_pos ended, if_pos ended]
    exact .inl ⟨.success, rfl, rfl⟩
  · rw [if_neg ended, if_neg ended]
    by_cases last : ((node.int? "maxLoop").bind limit?).any (· ≤ count + 1) = true
    · rw [if_pos (by exact last), if_pos (by exact last)]
      exact .inl ⟨.failure, rfl, rfl⟩
    · rw [if_neg (by exact last), if_neg (by exact last)]
      exact .inr ⟨rfl, rfl⟩

/-- A repeating node enters its child for every attempt. -/
theorem repeatUntil_enter (agree : Agree node.children) {wanted : Verdict}
    (kind : node.kind = .repeatUntil wanted) {child : Node} (only : node.children = [child])
    (count : Nat) (begins : progress = none ∧ count = 0 ∨ progress = some (.attempt count false)) :
    (onStack node progress tasks path).repeatUntil wanted =
      decision node path (.enter 0 (.attempts count)) := by
  have entered : (onStack node progress tasks path).repeatUntil wanted =
      ((onStack node progress tasks path).tickChild 0 >>=
        following (fun above => return .await (.attempt count true) above)
          fun verdict => return (onStack node progress tasks path).afterAttempt wanted count verdict) := by
    rcases begins with ⟨rfl, rfl⟩ | rfl <;> rfl
  rw [entered, tickChild_eq only]
  refine (decision_only agree only (.attempts count) nofun (fun above => ?_) fun verdict => ?_).symm
  · rw [kind]
    rfl
  · simp only [kind, heed, pure_bind, following]
    rcases afterAttempt_cases path progress tasks wanted count verdict with
      ⟨v, heeded, after⟩ | ⟨heeded, after⟩
    · rw [heeded, after, decisionWithin_finish]
    · rw [heeded, after, decisionWithin_rest, kind]
      rfl

/-- A repeating node that is resumed heeds its child's verdict and counts the attempt. -/
theorem repeatUntil_heed {wanted : Verdict} (kind : node.kind = .repeatUntil wanted) (count i : Nat)
    {s : Scene} {verdict : Verdict} (reported : s.actor.last = verdict.status) :
    ((onStack node (some (.attempt count true)) tasks path).repeatUntil wanted).play s =
      (heed (visitAt node path) node.kind (.attempts count) i verdict >>= decision node path).play s := by
  simp only [kind, heed, pure_bind]
  rcases afterAttempt_cases path (some (.attempt count true)) tasks wanted count verdict
    with ⟨v, heeded, after⟩ | ⟨heeded, after⟩
  · rw [heeded, decision_finish, ← after]
    exact TickM.play_bind_ok (Visit.play_childVerdict _ reported) _
  · have keeps : progressAt node.kind (.attempts (count + 1)) = .attempt (count + 1) false := by
      rw [kind]
      rfl
    rw [heeded, decision_rest, keeps, ← after]
    exact TickM.play_bind_ok (Visit.play_childVerdict _ reported) _

theorem once_start (agree : Agree node.children) (kind : node.kind = .once) {child : Node}
    (only : node.children = [child]) :
    (onStack node none tasks path).once =
      start (visitAt node path) node.kind >>= decision node path := by
  have entered : decision node path (.enter 0 .nothing) =
      ((onStack node none tasks path).onlyChild >>=
        following (fun above => return .await .entered above) fun verdict => do
          TickM.updateActor fun actor => { actor with completed := node.id :: actor.completed }
          return .finish verdict) := by
    rw [onlyChild_eq only]
    refine decision_only agree only .nothing nofun (fun above => ?_) fun verdict => ?_
    · rw [kind]
      rfl
    · simp only [kind, heed, bind_assoc, pure_bind, decisionWithin_finish]
      rfl
  rw [Visit.once, kind]
  simp only [start, bind_assoc]
  congr 1
  funext actor
  by_cases completed : node.id ∈ actor.completed
  · rw [if_pos (by exact completed), if_pos (by exact completed), pure_bind, decision_finish]
    rfl
  · rw [if_neg (by exact completed), if_neg (by exact completed), pure_bind, entered]
    rfl

/-- A Once node that waited for its child has not completed. -/
theorem once_heed (kind : node.kind = .once) (progress : Progress) (memory : Memory) (i : Nat)
    {s : Scene} (waiting : node.id ∉ s.actor.completed) {verdict : Verdict}
    (reported : s.actor.last = verdict.status) :
    (onStack node (some progress) tasks path).once.play s =
      (heed (visitAt node path) node.kind memory i verdict >>= decision node path).play s := by
  rw [Visit.once, TickM.play_bind_ok (TickM.play_actor s), if_neg (by exact waiting),
    TickM.play_bind_ok (play_onlyChild progress reported)]
  simp only [kind, heed, bind_assoc, pure_bind, decision_finish]
  rfl

/-! ### Time -/

theorem timeout_start (agree : Agree node.children) (kind : node.kind = .timeout) {child : Node}
    (only : node.children = [child]) :
    (onStack node none tasks path).timeout =
      start (visitAt node path) node.kind >>= decision node path := by
  rw [Visit.timeout, kind]
  simp only [start, bind_assoc, pure_bind]
  refine bind_congr fun now => ?_
  rw [tickChild_eq only]
  refine (decision_only agree only (.until _) nofun (fun above => ?_) fun verdict => ?_).symm
  · rw [kind]
    rfl
  · simp only [kind, heed, pure_bind, decisionWithin_finish]

/-- A Timeout node that goes on before its deadline does so with the verdict of its child. -/
theorem timeout_heed (kind : node.kind = .timeout) (memory : Memory) (i : Nat) {time : Float}
    {s : Scene} (early : ¬ time ≤ s.context.clock) {verdict : Verdict}
    (reported : s.actor.last = verdict.status) :
    (onStack node (some (.deadline time)) tasks path).timeout.play s =
      (heed (visitAt node path) node.kind memory i verdict >>= decision node path).play s := by
  simp only [kind, heed, pure_bind, decision_finish]
  rw [Visit.timeout]
  simp only [onStack]
  rw [TickM.play_bind_ok (TickM.play_now s), if_neg early]
  exact TickM.play_bind_ok (Visit.play_childVerdict _ reported) _

/-- A Timeout node whose deadline has come fails. -/
theorem timeout_expire {time : Float} {s : Scene}
    (due : time ≤ s.context.clock) :
    (onStack node (some (.deadline time)) tasks path).timeout.play s =
      (.ok .failure, s.note (.timedOut node.name node.id)) := by
  rw [Visit.timeout]
  simp only [onStack]
  rw [TickM.play_bind_ok (TickM.play_now s), if_pos due]
  rfl

theorem delay_enter (agree : Agree node.children) (kind : node.kind = .delay) {child : Node}
    (only : node.children = [child]) :
    ((onStack node progress tasks path).tickChild 0 >>=
      following (fun above => return .await .delayed above) fun verdict => return .finish verdict) =
        decision node path (.enter 0 .nothing) := by
  rw [tickChild_eq only]
  refine (decision_only agree only .nothing nofun (fun above => ?_) fun verdict => ?_).symm
  · rw [kind]
    rfl
  · simp only [kind, heed, pure_bind, decisionWithin_finish]
    rfl

/-- A delay until a time, in a tick that happens now. -/
theorem delay_until (agree : Agree node.children) (kind : node.kind = .delay) {child : Node}
    (only : node.children = [child]) (now time : Float) :
    (if now < time then return .keep (.delaying time)
      else (onStack node progress tasks path).tickChild 0 >>=
        following (fun above => return .await .delayed above) fun verdict => return .finish verdict) =
      decision node path (if now < time then .rest (.until time) else .enter 0 .nothing) := by
  by_cases early : now < time
  · rw [if_pos early, if_pos early, decision_rest, kind]
    rfl
  · rw [if_neg early, if_neg early]
    exact delay_enter agree kind only

/-- A Delay node begins by its rule, at once or later. -/
theorem delay_start (agree : Agree node.children) (kind : node.kind = .delay) {child : Node}
    (only : node.children = [child]) :
    (onStack node none tasks path).delay =
      start (visitAt node path) node.kind >>= decision node path := by
  refine TickM.ext fun s => ?_
  rw [Visit.delay, TickM.play_bind_ok (TickM.play_now s), kind]
  simp only [start, delayUntil, bind_assoc]
  rw [TickM.play_bind_ok (TickM.play_now s), TickM.play_bind_ok (TickM.play_now s), pure_bind]
  exact congrArg (TickM.play · s) (delay_until agree kind only s.context.clock _)

theorem delay_goOn (agree : Agree node.children) (kind : node.kind = .delay) {child : Node}
    (only : node.children = [child]) (time : Float) :
    (onStack node (some (.delaying time)) tasks path).delay =
      delayUntil time >>= decision node path := by
  refine TickM.ext fun s => ?_
  rw [Visit.delay, TickM.play_bind_ok (TickM.play_now s), delayUntil, bind_assoc,
    TickM.play_bind_ok (TickM.play_now s), pure_bind]
  exact congrArg (TickM.play · s) (delay_until agree kind only s.context.clock time)

theorem delay_heed (kind : node.kind = .delay) (memory : Memory) (i : Nat) {s : Scene}
    {verdict : Verdict} (reported : s.actor.last = verdict.status) :
    (onStack node (some .delayed) tasks path).delay.play s =
      (heed (visitAt node path) node.kind memory i verdict >>= decision node path).play s := by
  simp only [kind, heed, pure_bind, decision_finish]
  rw [Visit.delay, TickM.play_bind_ok (TickM.play_now s)]
  exact TickM.play_bind_ok (Visit.play_childVerdict _ reported) _

/-! ### Events -/

/-- The nodes that listen. -/
def Listens (node : Node) : Prop := node.kind = .listen ∨ node.kind = .listenTree

theorem Listens.only_child (listens : Listens node) (shaped : node.Shaped) :
    ∃ child, node.children = [child] :=
  shaped.only_child (by rcases listens with kind | kind <;> rw [kind] <;> rfl)

theorem Listens.rests (listens : Listens node) {memory : Memory} (rests : RestsWith node.kind memory) :
    ∃ listener, memory = .mailbox listener ∧ progressAt node.kind memory = .listening listener false := by
  rcases listens with kind | kind <;> rw [kind] at rests ⊢ <;> cases memory
  all_goals first | exact ⟨_, rfl, rfl⟩ | exact rests.elim

theorem Listens.waits (listens : Listens node) {memory : Memory} {i : Nat}
    (waits : WaitsWith node.kind memory i) :
    ∃ listener, memory = .mailbox listener ∧
      progressOver node.kind memory i = .listening listener true := by
  rcases listens with kind | kind <;> rw [kind] at waits ⊢ <;> cases memory
  all_goals first | exact ⟨_, rfl, rfl⟩ | exact waits.elim

/-- A listening node begins by opening a listener. -/
theorem start_of_listens {visit : Visit} (listens : Listens visit.node) :
    start visit visit.node.kind = whom visit >>= startListening visit := by
  rcases listens with kind | kind <;> rw [kind] <;> rfl

/-- It heeds its child by turning to the next event. -/
theorem heed_of_listening {visit : Visit} (listens : Listens visit.node) (memory : Memory) (i : Nat)
    (verdict : Verdict) :
    heed visit visit.node.kind memory i verdict = heedEvent visit memory verdict := by
  rcases listens with kind | kind <;> rw [kind] <;> rfl

theorem heed_of_listens (listens : Listens node) (memory : Memory) (i : Nat) (verdict : Verdict) :
    heed (visitAt node path) node.kind memory i verdict = heedEvent (visitAt node path) memory verdict :=
  heed_of_listening listens memory i verdict

theorem nextEvent_nil {listener : Nat} {s : Scene} (none : s.context.queue listener = [])
    (f : Move → TickM Step) :
    (nextEvent (visitAt node path) listener >>= f).play s = (f (.rest (.mailbox listener))).play s := by
  rw [nextEvent, bind_assoc, TickM.play_bind_ok (Visit.play_takeEvent_nil none)]
  rfl

/-- The scene once an event is handed to a node. -/
def handed (node : Node) (listener : Nat) (event : List Value) (rest : List (List Value))
    (s : Scene) : Scene :=
  (s.updateContext (·.updateMailbox listener fun _ => rest)).updateActor fun actor =>
    event.zipIdx.foldl (fun actor (v, i) => actor.setOutput node i v) actor

theorem nextEvent_cons {listener : Nat} {s : Scene} {event : List Value} {rest : List (List Value)}
    (waiting : s.context.queue listener = event :: rest) (f : Move → TickM Step) :
    (nextEvent (visitAt node path) listener >>= f).play s =
      (f (.enter 0 (.mailbox listener))).play (handed node listener event rest s) := by
  rw [nextEvent, bind_assoc, TickM.play_bind_ok (Visit.play_takeEvent_cons waiting)]
  rfl

/-- Handling events one after another, with no fewer turns than events that wait. -/
theorem handleEvents_eq (agree : Agree node.children) (listens : Listens node) {child : Node}
    (only : node.children = [child]) (builtin : child.Every IsBuiltin) (listener budget turns : Nat)
    (s : Scene) (within : (s.context.queue listener).length ≤ budget)
    (enough : (s.context.queue listener).length ≤ turns) :
    ((onStack node progress tasks path).handleEvents ((node.flag? "once").getD false) listener
        budget).play s =
      (nextEvent (visitAt node path) listener >>= decisionWithin node path turns).play s := by
  induction budget generalizing turns s with
  | zero =>
    have none := List.eq_nil_of_length_eq_zero (Nat.le_zero.mp within)
    rw [nextEvent_nil none, decisionWithin_rest]
    rcases listens with kind | kind <;> rw [kind] <;> rfl
  | succ budget ih =>
    rcases waiting : s.context.queue listener with _ | ⟨event, rest⟩
    · rw [nextEvent_nil waiting, decisionWithin_rest, Visit.handleEvents,
        TickM.play_bind_ok (Visit.play_takeEvent_nil waiting)]
      rcases listens with kind | kind <;> rw [kind] <;> rfl
    · rw [waiting, List.length_cons] at within enough
      obtain ⟨turns, rfl⟩ := Nat.exists_eq_add_of_le' (Nat.le_trans (Nat.succ_pos _) enough)
      have here : node.children[0]? = some child := by
        rw [only]
        rfl
      have left : (handed node listener event rest s).context.queue listener = rest :=
        s.context.queue_take waiting
      let settle := following (fun above => return .await (.listening listener true) above)
        fun verdict => heed (visitAt node path) node.kind (.mailbox listener) 0 verdict >>=
          decisionWithin node path turns
      have waits : ∀ above, settle (.running above) =
          pure (.suspend (progressOver node.kind (.mailbox listener) 0)
            (armed? node.kind (.mailbox listener)) above) := by
        rcases listens with kind | kind <;> rw [kind] <;> exact fun above => rfl
      rw [nextEvent_cons waiting, Visit.handleEvents,
        TickM.play_bind_ok (Visit.play_takeEvent_cons waiting),
        decisionWithin_enter agree turns 0 (.mailbox listener) here waits fun verdict => rfl]
      have written : ((onStack node progress tasks path).writeArguments event).play
          (s.updateContext (·.updateMailbox listener fun _ => rest)) =
            (.ok (), handed node listener event rest s) := rfl
      simp only
      rw [TickM.play_bind_ok written, tickChild_eq only, agree child (List.mem_of_getElem? here), bind_map_left,
        bind_map_left]
      refine TickM.play_bind_congr fun report t ticked => ?_
      cases report with
      | running state => rfl
      | done verdict =>
        -- No event arrives while the child is ticked, so the bounds go down with each event.
        have fewer := (changes_tick child builtin none path (handed node listener event rest s)).queue_length_le listener
        rw [ticked, left] at fewer
        simp only [Report.outcome, following, heed_of_listens listens, heedEvent]
        by_cases isOnce : (node.flag? "once").getD false = true
        · rw [if_pos isOnce, if_pos (by exact isOnce)]
          simp only [bind_assoc, pure_bind, decisionWithin_finish]
        · rw [if_neg isOnce, if_neg (by exact isOnce)]
          exact ih turns t (Nat.le_trans fewer (Nat.le_of_succ_le_succ within))
            (Nat.le_trans fewer (Nat.le_of_succ_le_succ enough))

variable (path progress tasks) in
/-- All events that wait are handled. -/
theorem handle_eq (agree : Agree node.children) (listens : Listens node) {child : Node}
    (only : node.children = [child]) (builtin : child.Every IsBuiltin) (listener further : Nat) :
    (do
      let waiting := ((← TickM.context).queue listener).length
      (onStack node progress tasks path).handleEvents ((node.flag? "once").getD false) listener
        (waiting + further)) =
      nextEvent (visitAt node path) listener >>= decision node path := by
  refine TickM.ext fun s => ?_
  rw [TickM.play_bind_ok (TickM.play_context s),
    handleEvents_eq agree listens only builtin listener _ (s.context.queue listener).length s
      (Nat.le_add_right _ _) (Nat.le_refl _)]
  rcases waiting : s.context.queue listener with _ | ⟨event, rest⟩
  · rw [nextEvent_nil waiting, nextEvent_nil waiting, decisionWithin_rest, decision_rest]
  · have left : (handed node listener event rest s).context.queue listener = rest :=
      s.context.queue_take waiting
    have count : turns (visitAt node path) (handed node listener event rest s).context
        (.enter 0 (.mailbox listener)) = (event :: rest).length := by
      rw [turns, left, List.length_cons, Nat.add_comm]
      exact congrArg (fun nodes => rest.length + nodes.length) only
    rw [nextEvent_cons waiting, nextEvent_cons waiting, decision, decisionWithin, TickM.play_map,
      TickM.play_map, carryOut, TickM.play_bind_ok (TickM.play_context _), count]

theorem run_of_listens (listens : Listens node) :
    (onStack node progress tasks path).run =
      whom (visitAt node path) >>= (onStack node progress tasks path).listenOn := by
  rcases listens with kind | kind
  · have named : (onStack node progress tasks path).run = (onStack node progress tasks path).listen := by
      simp only [Visit.run, onStack, kind]
    rw [named, Visit.listen, whom]
    simp only [visitAt, kind, bind_assoc]
    refine bind_congr fun v => ?_
    rcases v.bind Value.text? with _ | name <;> rfl
  · simp only [Visit.run, whom, onStack, visitAt, kind, bind_assoc, pure_bind]
    rfl

/-- A listening node subscribes and waits. -/
theorem listen_start (agree : Agree node.children) (listens : Listens node) {child : Node}
    (only : node.children = [child]) (builtin : child.Every IsBuiltin) :
    (onStack node none tasks path).run =
      start (visitAt node path) node.kind >>= decision node path := by
  have begins : start (visitAt node path) node.kind = _ := start_of_listens listens
  rw [run_of_listens listens, begins, bind_assoc]
  refine bind_congr fun target => ?_
  simp only [startListening, bind_assoc,
    ← handle_eq path none tasks agree listens only builtin _ Visit.furtherEvents]
  rfl

/-- Looking up whom events must be addressed to changes nothing. -/
theorem play_whom (visit : Visit) (s : Scene) : ∃ target, (whom visit).play s = (.ok target, s) := by
  unfold whom
  split
  · simp only [Visit.input?, bind_assoc, pure_bind]
    rw [TickM.play_bind_ok (TickM.play_actor s)]
    rcases (s.actor.input? visit.node 0).bind Value.text? with _ | name
    · exact ⟨.everyone, rfl⟩
    · exact ⟨.named name, rfl⟩
  · exact ⟨s.actor.target, rfl⟩

/-- A listening node goes on with the events that have come. -/
theorem listen_goOn (agree : Agree node.children) (listens : Listens node) {child : Node}
    (only : node.children = [child]) (builtin : child.Every IsBuiltin) (listener : Nat) :
    (onStack node (some (.listening listener false)) tasks path).run =
      nextEvent (visitAt node path) listener >>= decision node path := by
  refine TickM.ext fun s => ?_
  obtain ⟨target, looked⟩ := play_whom (visitAt node path) s
  rw [run_of_listens listens, TickM.play_bind_ok looked,
    ← handle_eq path (some (.listening listener false)) tasks agree listens only builtin listener
      Visit.furtherEvents]
  rfl

/-- A listening node that is resumed heeds its child's verdict on the event. -/
theorem listen_heed (agree : Agree node.children) (listens : Listens node) {child : Node}
    (only : node.children = [child]) (builtin : child.Every IsBuiltin) (listener i : Nat) {s : Scene}
    {verdict : Verdict} (reported : s.actor.last = verdict.status) :
    (onStack node (some (.listening listener true)) tasks path).run.play s =
      (heed (visitAt node path) node.kind (.mailbox listener) i verdict >>= decision node path).play
        s := by
  obtain ⟨target, looked⟩ := play_whom (visitAt node path) s
  have resumed : (onStack node (some (.listening listener true)) tasks path).listenOn target =
      (onStack node (some (.listening listener true)) tasks path).childVerdict >>= fun verdict =>
        if (node.flag? "once").getD false = true then do
          Visit.unsubscribe listener
          return .finish verdict
        else TickM.context >>= fun ctx =>
          (onStack node (some (.listening listener true)) tasks path).handleEvents
            ((node.flag? "once").getD false) listener
              ((ctx.queue listener).length + Visit.furtherEvents) := rfl
  rw [run_of_listens listens, TickM.play_bind_ok looked, resumed,
    TickM.play_bind_ok (Visit.play_childVerdict _ reported), heed_of_listens listens, heedEvent]
  by_cases isOnce : (node.flag? "once").getD false = true
  · rw [if_pos isOnce, if_pos (by exact isOnce)]
    simp only [bind_assoc, pure_bind, decision_finish]
  · rw [if_neg isOnce, if_neg (by exact isOnce),
      ← handle_eq path (some (.listening listener true)) tasks agree listens only builtin listener
        Visit.furtherEvents]

end BehaviorTree.Descent
