import BehaviorTree.Proofs.Session.Steady

/-!
Guarded sessions. Mailboxes and listeners belong together, what a host has registered is never taken
for a mailbox, the active listening nodes of every runner hold exactly the mailboxes of its caller,
and the runners that a host spares are listened to. Whatever a host asks for, a guarded session stays
guarded.
-/

namespace BehaviorTree

open Context (Given Passage Spared Wired)
open Descent (Call)

namespace Session

/-! ### Sparing a runner -/

/-- The command to a runner, and whatever comes of the reactions that it lets in, ends no listening of
the runner of a name; it may be a command to that runner. -/
def RunnerCommand.spares (name : String) (own : Bool) : RunnerCommand → Bool
  | .off _ => !own
  | .offCaller => !own
  | .on _ _ _ reaction => reaction.spares name
  | .subscribe _ _ _ reaction => reaction.spares name
  | .follow _ reaction => reaction.spares name
  | _ => true

/-- Whether a command leaves an actor's listeners alone. -/
def Command.spares (name : String) : Command → Bool
  | .toRunner runner command => command.spares name (runner = name)
  | _ => true

/-! ### The invariant -/

/-- A listener that no mailbox belongs to. -/
structure Foreign (ctx : Context) (listener : Nat) : Prop where
  issued : listener ≤ ctx.bus.issued
  apart : ∀ box ∈ ctx.mailboxes, box.listener ≠ listener

theorem Foreign.passage {caller listener : Nat} {older newer : Context} (foreign : Foreign older listener)
    (passage : Passage caller older newer) : Foreign newer listener :=
  ⟨Nat.le_trans foreign.issued passage.issued, passage.apart foreign.issued foreign.apart⟩

theorem Foreign.unsubscribe {session : Session} {listener : Nat} (foreign : Foreign session.context listener)
    (label : String) : Foreign (session.unsubscribe label).context listener := by
  rw [Session.unsubscribe]
  split
  · exact foreign
  · have without := Bus.without_offListener session.context.bus
    exact ⟨(without _ _ _).issued ▸ foreign.issued, foreign.apart⟩

/-- The caller of a runner, if there is such a runner. -/
def caller? (session : Session) (name : String) : Option Nat :=
  (session.runners.at? name).map fun runner => runner.actor.caller

/-- The host keeps no listener of a frame, every runner holds those of its frames, and followers and
reactions leave the spared actors alone. -/
structure Guarded (spared : String → Prop) (log : String → List Call) (session : Session) : Prop where
  wired : session.context.Wired
  registered : ∀ entry ∈ session.registrations, Foreign session.context entry.2.listener
  subscribed : ∀ entry ∈ session.subscriptions, Foreign session.context entry.2.listener
  held : ∀ name runner, session.runners.at? name = some runner →
    runner.Held (log name) session.context
  followers : ∀ name, spared name → ∀ other runner, session.runners.at? other = some runner →
    ∀ follower ∈ runner.followers, follower.2.spares name
  spares : ∀ name, spared name → Spared name (session.caller? name) session.context

/-- At the beginning there is nothing to guard. -/
theorem guarded_new (registry : Registry) (source : SourceInput) (spared : String → Prop)
    (log : String → List Call) : (new registry source).Guarded spared log where
  wired := Context.wired_new registry
  registered := nofun
  subscribed := nofun
  held := nofun
  followers := nofun
  spares _ _ := ⟨Context.wired_new registry, nofun, nofun, nofun⟩

namespace Tidy

variable {session : Session}

/-- No two runners share a caller. -/
theorem eq_of_caller (tidy : session.Tidy) {name other : String} {runner runner' : Runner}
    (there : session.runners.at? name = some runner) (there' : session.runners.at? other = some runner')
    (same : runner.actor.caller = runner'.actor.caller) : name = other := by
  have listed : (name, runner.actor.entry) ∈ session.context.directory := by
    refine Index.mem_of_at? ?_
    rw [tidy.at?_directory, there]
    rfl
  have listed' : (other, runner'.actor.entry) ∈ session.context.directory := by
    refine Index.mem_of_at? ?_
    rw [tidy.at?_directory, there']
    rfl
  exact congrArg Prod.fst (List.inj_on_of_nodup_map tidy.context.owners listed listed' same)

/-- A caller that has not been given out has no mailboxes. -/
theorem boxes_eq_nil (tidy : session.Tidy) {caller : Nat} (fresh : session.context.callers < caller) :
    session.context.boxes caller = [] := by
  refine List.filter_eq_nil_iff.mpr fun box member own => ?_
  have known := (tidy.context.known.mailboxes box member).1
  rw [of_decide_eq_true own] at known
  omega

end Tidy

namespace Guarded

variable {spared : String → Prop} {log log' : String → List Call} {session : Session}

/-- The bus and the events in the mailboxes may change as long as nobody who is spared is harmed. -/
theorem still (guarded : session.Guarded spared log) {later : Session} (wired : later.context.Wired)
    (issued : session.context.bus.issued ≤ later.context.bus.issued)
    (posts : later.context.posts = session.context.posts) (runners : later.runners = session.runners)
    (registrations : ∀ entry ∈ later.registrations,
      entry ∈ session.registrations ∨ Foreign later.context entry.2.listener)
    (subscriptions : ∀ entry ∈ later.subscriptions,
      entry ∈ session.subscriptions ∨ Foreign later.context entry.2.listener)
    (kept : ∀ name, spared name → Spared name (session.caller? name) session.context →
      Spared name (session.caller? name) later.context) : later.Guarded spared log := by
  have passage : Passage 0 session.context later.context := Context.passage_of_posts wired issued posts
  refine ⟨wired, fun entry member => ?_, fun entry member => ?_, fun name runner there => ?_, ?_, ?_⟩
  · exact (registrations entry member).elim (fun old => (guarded.registered entry old).passage passage) id
  · exact (subscriptions entry member).elim (fun old => (guarded.subscribed entry old).passage passage) id
  · rw [runners] at there
    exact (guarded.held name runner there).mono (List.Subset.refl _)
      (Context.map_boxes_of_posts Mailbox.emptied (fun _ => rfl) posts _)
  · rw [runners]
    exact guarded.followers
  · intro name spares
    rw [caller?, runners]
    exact kept name spares (guarded.spares name spares)

/-- Neither the bus nor the mailboxes have changed. -/
theorem same (guarded : session.Guarded spared log) {later : Session}
    (bus : later.context.bus = session.context.bus)
    (mailboxes : later.context.mailboxes = session.context.mailboxes)
    (directory : later.context.directory = session.context.directory)
    (runners : later.runners = session.runners)
    (registrations : later.registrations = session.registrations)
    (subscriptions : later.subscriptions = session.subscriptions) : later.Guarded spared log :=
  guarded.still (guarded.wired.congr bus mailboxes) (Nat.le_of_eq (congrArg Bus.issued bus.symm))
    (congrArg (List.map Mailbox.emptied) mailboxes) runners (fun _ member => .inl (registrations ▸ member))
    (fun _ member => .inl (subscriptions ▸ member)) fun _ _ kept => kept.congr bus mailboxes directory

/-- A runner has become another one with the same caller. -/
theorem setRunner (guarded : session.Guarded spared log) (tidy : session.Tidy) {name : String}
    {runner runner' : Runner} {ctx : Context} (there : session.runners.at? name = some runner)
    (passage : Passage runner.actor.caller session.context ctx)
    (same : runner'.actor.caller = runner.actor.caller) (logged : ∀ name, log name ⊆ log' name)
    (held : runner'.Held (log' name) ctx)
    (followers : ∀ name, spared name → ∀ follower ∈ runner'.followers, follower.2.spares name)
    (kept : ∀ name, spared name → Spared name (session.caller? name) session.context →
      Spared name (session.caller? name) ctx) :
    (session.setRunner name runner' ctx).Guarded spared log' where
  wired := passage.wired
  registered entry member := (guarded.registered entry member).passage passage
  subscribed entry member := (guarded.subscribed entry member).passage passage
  held other found there' := by
    rw [setRunner_runners, Index.at?_put] at there'
    split at there'
    · rename_i same
      cases there'
      exact same ▸ held
    · rename_i apart
      refine (guarded.held other found there').mono (logged other) (passage.others _ fun shared => apart ?_)
      exact (tidy.eq_of_caller there' there shared).symm
  followers other spares another found there' := by
    rw [setRunner_runners, Index.at?_put] at there'
    split at there'
    · cases there'
      exact followers other spares
    · exact guarded.followers other spares another found there'
  spares other spares := by
    have callers : (session.setRunner name runner' ctx).caller? other = session.caller? other := by
      rw [caller?, caller?, setRunner_runners, Index.at?_put]
      split
      · rename_i here
        rw [← here, there, Option.map_some, Option.map_some, same]
      · rfl
    rw [callers]
    exact kept other spares (guarded.spares other spares)

/-- Entries of the directory that are missed do no harm. -/
theorem spared_forget {name other : String} {caller : Option Nat} {ctx : Context}
    (kept : Spared name caller ctx) :
    Spared name caller { ctx with directory := ctx.directory.remove other } where
  wired := kept.wired.congr rfl rfl
  heeds := kept.heeds
  attended := kept.attended
  known c member actor target listed := by
    simp only [Index.at?_remove] at listed
    split at listed
    · cases listed
    · exact kept.known c member actor target listed

/-- Dropping a runner removes its own listeners and no others. -/
theorem dropRunner (guarded : session.Guarded spared log) (tidy : session.Tidy) (name : String) :
    (session.dropRunner name).Guarded spared log ∧
      Passage ((session.caller? name).getD 0) session.context (session.dropRunner name).context := by
  rw [Session.dropRunner, caller?]
  split
  · exact ⟨guarded, .refl guarded.wired⟩
  · rename_i runner there
    rw [there]
    have forgotten : Passage runner.actor.caller session.context
        { session.context with directory := session.context.directory.remove name } :=
      Context.passage_of_same guarded.wired rfl rfl
    have passage := forgotten.trans (Runner.passage_discard forgotten.wired)
    refine ⟨⟨passage.wired, fun entry member => (guarded.registered entry member).passage passage,
      fun entry member => (guarded.subscribed entry member).passage passage, ?_, ?_, ?_⟩, passage⟩
    · intro other found there'
      rw [Index.at?_remove] at there'
      split at there'
      · cases there'
      · rename_i apart
        refine (guarded.held other found there').mono (List.Subset.refl _) (passage.others _ fun shared => apart ?_)
        exact (tidy.eq_of_caller there' there shared).symm
    · intro other spares another found there'
      rw [Index.at?_remove] at there'
      split at there'
      · cases there'
      · exact guarded.followers other spares another found there'
    · intro other spares
      have forgot : Spared other (session.caller? other)
          { session.context with directory := session.context.directory.remove name } :=
        spared_forget (guarded.spares other spares)
      have kept : Spared other (session.caller? other) (runner.discard _) := Runner.spared_discard forgot
      obtain ⟨wired, heeds, attended, known⟩ := kept
      refine ⟨wired, heeds, fun c member => attended c ?_, fun c member => known c ?_⟩
      all_goals
        simp only [caller?, Index.at?_remove] at member ⊢
        split at member
        · cases member
        · exact member

theorem newCaller (guarded : session.Guarded spared log) :
    Guarded spared log { session with context := session.context.newCaller.2 } :=
  guarded.same rfl rfl rfl rfl rfl rfl

/-- A new runner takes a name. Nobody has known its caller before. -/
theorem enlist (guarded : session.Guarded spared log) (tidy : session.Tidy) (label : String) (tree : Tree)
    {actor : Actor} (stack : actor.stack = []) (none : session.context.boxes actor.caller = [])
    (fresh : ∀ name caller target, session.context.directory.at? name = some (caller, target) →
      caller < actor.caller) :
    (session.setRunner label (Runner.new tree actor)
      { session.context with
        directory := session.context.directory.put label (actor.caller, actor.target) }).Guarded spared log := by
  have passage : Passage 0 session.context
      { session.context with directory := session.context.directory.put label (actor.caller, actor.target) } :=
    Context.passage_of_same guarded.wired rfl rfl
  refine ⟨passage.wired, fun entry member => (guarded.registered entry member).passage passage,
    fun entry member => (guarded.subscribed entry member).passage passage, ?_, ?_, ?_⟩
  · intro other found there
    rw [setRunner_runners, Index.at?_put] at there
    split at there
    · cases there
      exact .of_nil stack none
    · exact (guarded.held other found there).mono (List.Subset.refl _) rfl
  · intro other spares another found there
    rw [setRunner_runners, Index.at?_put] at there
    split at there
    · cases there
      rintro follower ⟨⟩
    · exact guarded.followers other spares another found there
  · intro other spares
    obtain ⟨wired, heeds, attended, only⟩ := guarded.spares other spares
    rw [caller?, setRunner_runners, Index.at?_put]
    split
    · rename_i here
      refine ⟨passage.wired, heeds, fun c member => ?_, fun c member name target there => ?_⟩
      · obtain rfl : actor.caller = c := Option.mem_some.mp member
        exact Context.attended_of_boxes_nil none
      · obtain rfl : actor.caller = c := Option.mem_some.mp member
        simp only [setRunner_context, Index.at?_put] at there
        split at there
        · rename_i same
          exact same.symm.trans here
        · exact absurd (fresh name _ _ there) (Nat.lt_irrefl _)
    · refine ⟨passage.wired, heeds, attended, fun c member name target there => ?_⟩
      simp only [setRunner_context, Index.at?_put] at there
      split at there
      · obtain ⟨runner, found, rfl⟩ := Option.map_eq_some_iff.mp member
        have listed := tidy.at?_directory other
        rw [found] at listed
        have same : actor.caller = runner.actor.caller := congrArg Prod.fst (Option.some.inj there)
        exact absurd (same ▸ fresh other _ _ listed) (Nat.lt_irrefl _)
      · exact only c member name target there

/-- Starting a runner drops the one of its name and touches no other. -/
theorem spawn (guarded : session.Guarded spared log) (tidy : session.Tidy) (label : String) (tree : Tree)
    (address : Option Address) (debug : Bool) (vars : List (String × Value)) :
    (session.spawn label tree address debug vars).Guarded spared log := by
  have counted := tidy.newCaller
  obtain ⟨dropped, passage⟩ := guarded.newCaller.dropRunner counted.tidy label
  have next : (session.spawned address debug vars).caller = session.context.callers + 1 := rfl
  have bound : ((session.caller? label).getD 0) < session.context.callers + 1 := by
    rcases there : session.runners.at? label with _ | runner
    · rw [caller?, there]
      exact Nat.succ_pos _
    · rw [caller?, there]
      exact Nat.lt_succ_of_le (tidy.given there).caller
  rw [spawn_eq]
  refine dropped.enlist (counted.tidy.dropRunner label).tidy label tree rfl ?_ fun name caller target there => ?_
  · have before : session.context.newCaller.2.boxes (session.context.callers + 1) = [] :=
      tidy.boxes_eq_nil (Nat.lt_succ_self _)
    have same := passage.others (session.context.callers + 1) (Nat.ne_of_gt bound)
    rw [before, List.map_nil] at same
    rw [next]
    exact List.map_eq_nil_iff.mp same
  · -- Whoever is listed by now was listed before the new caller was given out.
    rw [counted.tidy.directory_dropRunner label] at there
    have known := (tidy.context.entries _ (Index.mem_remove (Index.mem_of_at? there)).1).caller
    rw [next]
    exact Nat.lt_succ_of_le known

/-- Giving up a label removes a listener of a host and never one of a frame. -/
theorem unsubscribe (guarded : session.Guarded spared log) (label : String) :
    (session.unsubscribe label).Guarded spared log := by
  rw [Session.unsubscribe]
  split
  · exact guarded
  · rename_i r found
    have foreign := guarded.subscribed _ (Index.mem_of_at? found)
    have without := Bus.without_offListener session.context.bus r.listener r.event r.target
    refine guarded.still (guarded.wired.thin without) (Nat.le_of_eq without.issued.symm) rfl rfl
      (fun _ member => .inl member) (fun _ member => .inl (Index.mem_remove member).1) fun name _ kept => ?_
    exact kept.without without fun _ _ box there _ => foreign.apart box there

theorem evalFor (guarded : session.Guarded spared log) (runner : Runner) (code : String) :
    (session.evalFor runner code).2.Guarded spared log := by
  have compiled : Guarded spared log { session with context := (session.context.compile code).2 } :=
    guarded.same rfl rfl rfl rfl rfl rfl
  simp only [Session.evalFor]
  split
  · exact compiled
  · split <;> exact compiled

/-- A listener that a host registers is none of a frame's. -/
theorem register (guarded : session.Guarded spared log) (runner : Runner) (label event : String)
    (address : Address) {reaction : Reaction} (spares : ∀ name, spared name → reaction.spares name) :
    (session.register runner label event address reaction).2.Guarded spared log ∧
      Foreign (session.register runner label event address reaction).2.context
        (session.register runner label event address reaction).1.listener := by
  have wired := guarded.wired.on event (session.context.resolve address) runner.actor.caller reaction
  have foreign : Foreign (session.register runner label event address reaction).2.context
      (session.register runner label event address reaction).1.listener :=
    ⟨Nat.le_refl _, fun box there => Nat.ne_of_lt (Nat.lt_succ_of_le (guarded.wired.opened box there))⟩
  refine ⟨guarded.still wired (Nat.le_succ _) rfl rfl (fun entry member => ?_) (fun _ member => .inl member)
    fun name keeps kept => kept.on _ _ _ (spares name keeps), foreign⟩
  rcases Index.mem_put member with rfl | old
  · exact .inr foreign
  · exact .inl old

/-! ### Commands -/

/-- A command that leads to no ticks adds nothing to the logs. -/
theorem idle {more : String → List Call} (guarded : session.Guarded spared log) (quiet : ∀ name, more name = []) :
    session.Guarded spared fun name => log name ++ more name := by
  simpa only [quiet, List.append_nil] using guarded

section

variable {name : String} {runner : Runner} (guarded : session.Guarded spared log) (tidy : session.Tidy)
  (there : session.runners.at? name = some runner)

include guarded tidy there

/-- The actor of a runner may change, save its caller and its stack. -/
theorem setActor {actor : Actor} (caller : actor.caller = runner.actor.caller)
    (stack : actor.stack = runner.actor.stack) :
    (session.setRunner name { runner with actor } session.context).Guarded spared log := by
  have held := guarded.held name runner there
  refine guarded.setRunner tidy there (.refl guarded.wired) caller (fun _ => List.Subset.refl _) ⟨?_, ?_⟩
    (fun other spares => guarded.followers other spares name runner there) fun _ _ => id
  · simpa only [caller, stack] using held.owned
  · simpa only [caller, stack] using held.opened

/-- Listeners of a runner may be removed unless it is spared. -/
theorem without {bus : Bus Sink}
    (removed : Bus.Without (fun l => l.caller = runner.actor.caller) session.context.bus bus)
    (others : ∀ other, spared other → name ≠ other) :
    Guarded spared log { session with context := { session.context with bus } } := by
  refine guarded.still (guarded.wired.thin removed) (Nat.le_of_eq removed.issued.symm) rfl rfl
    (fun _ member => .inl member) (fun _ member => .inl member) fun other spares kept => ?_
  refine kept.without removed fun c member box _ own same => others other spares ?_
  obtain ⟨runner', there', rfl⟩ := Option.map_eq_some_iff.mp member
  exact tidy.eq_of_caller there there' (same.symm.trans own)

/-- The ticks of a run are logged. -/
theorem run (ready : session.Ready) :
    (session.setRunner name (runner.run session.context).2.1 (runner.run session.context).2.2).Guarded spared
      fun other => log other ++ session.calls other (.toRunner name .run) := by
  have held := guarded.held name runner there
  have good := ready.runners name runner there
  have followers := fun other (spares : spared other) => guarded.followers other spares name runner there
  refine guarded.setRunner tidy there (good.passage_run guarded.wired held)
    (congrArg Prod.fst (good.tame_run (tidy.given there)).2) (fun _ => List.subset_append_left _ _) ?_ ?_ ?_
  · have ran := good.held_run guarded.wired held
    simpa only [Session.calls, if_pos, there] using ran
  · rw [runner.followers_run]
    exact followers
  · exact fun other spares kept => good.spared_run held (tidy.given there) (followers other spares) kept

/-- Interrupting a runner leaves the others' listeners alone. -/
theorem interrupt :
    (session.setRunner name (runner.interrupt session.context).1
      (runner.interrupt session.context).2).Guarded spared log := by
  have followers := fun other (spares : spared other) => guarded.followers other spares name runner there
  refine guarded.setRunner tidy there (Runner.passage_interrupt guarded.wired)
    (congrArg Prod.fst (runner.entry_interrupt _)) (fun _ => List.Subset.refl _)
    (guarded.held name runner there).interrupt ?_ ?_
  · rw [runner.followers_interrupt]
    exact followers
  · exact fun other spares kept =>
      (Runner.steady_spared runner.actor.caller (followers other spares) _).interrupt kept

/-- Clearing a runner leaves the others' listeners alone. -/
theorem clear :
    (session.setRunner name (runner.clear session.context).1
      (runner.clear session.context).2).Guarded spared log := by
  have followers := fun other (spares : spared other) => guarded.followers other spares name runner there
  refine guarded.setRunner tidy there (Runner.passage_clear guarded.wired)
    (congrArg Prod.fst (runner.entry_clear _)) (fun _ => List.Subset.refl _) (runner.held_clear _) ?_ ?_
  · rw [runner.followers_clear]
    exact followers
  · exact fun other spares kept => Runner.spared_clear (followers other spares) kept

/-- A follower that spares the actors keeps them guarded. -/
theorem follow (stage : Stage) {reaction : Reaction} (spares : ∀ other, spared other → reaction.spares other) :
    (session.setRunner name (runner.follow stage reaction) session.context).Guarded spared log := by
  have held := guarded.held name runner there
  refine guarded.setRunner tidy there (.refl guarded.wired) rfl (fun _ => List.Subset.refl _)
    ⟨held.owned, held.opened⟩ ?_ fun _ _ => id
  intro other spared follower member
  rcases List.mem_append.mp member with old | new
  · exact guarded.followers other spared name runner there follower old
  · rw [List.mem_singleton.mp new]
    exact spares other spared

end

theorem request (guarded : session.Guarded spared log) (caller : Nat) :
    Guarded spared log { session with context := session.context.request caller } := by
  refine guarded.same (Context.bus_request ..) (Context.mailboxes_request ..) ?_ rfl rfl rfl
  simp only [Context.request]
  split <;> rfl

/-- The listener that was kept under the label before is given up once the new one is registered. -/
theorem resubscribe (guarded : session.Guarded spared log) {r : Registration} (label : String)
    (foreign : Foreign session.context r.listener) :
    Guarded spared log
      { session.unsubscribe label with
        subscriptions := (session.unsubscribe label).subscriptions.put label r } := by
  have ended := guarded.unsubscribe label
  refine ended.still ended.wired (Nat.le_refl _) rfl rfl (fun _ member => .inl member) (fun entry member => ?_)
    fun _ _ => id
  rcases Index.mem_put member with rfl | old
  · exact .inr (foreign.unsubscribe label)
  · exact .inl old

variable (guarded : session.Guarded spared log) (tidy : session.Tidy) (ready : session.Ready)

include guarded tidy ready

/-- Every command for a runner keeps the guard, its ticks added to the log. -/
theorem performOn {name : String} {runner : Runner} (there : session.runners.at? name = some runner)
    (command : RunnerCommand) (spares : ∀ other, spared other → command.spares other (name = other)) :
    (session.performOn name runner command).2.Guarded spared
      fun other => log other ++ session.calls other (.toRunner name command) := by
  cases command with
  | run => exact guarded.run tidy there ready
  | interrupt => exact (guarded.interrupt tidy there).idle fun _ => rfl
  | clear => exact (guarded.clear tidy there).idle fun _ => rfl
  | request => exact (guarded.request runner.actor.caller).idle fun _ => rfl
  | tree => exact guarded.idle fun _ => rfl
  | get key => exact guarded.idle fun _ => rfl
  | set key v => exact (guarded.setActor tidy there (by rfl) (by rfl)).idle fun _ => rfl
  | remove key => exact (guarded.setActor tidy there (by rfl) (by rfl)).idle fun _ => rfl
  | clearVars => exact (guarded.setActor tidy there (by rfl) (by rfl)).idle fun _ => rfl
  | clearTemporaries => exact (guarded.setActor tidy there (by rfl) (by rfl)).idle fun _ => rfl
  | setDebug debug => exact (guarded.setActor tidy there (by rfl) (by rfl)).idle fun _ => rfl
  | eval code => exact (guarded.evalFor runner code).idle fun _ => rfl
  | on label event address reaction =>
    exact (guarded.register runner label event address spares).1.idle fun _ => rfl
  | subscribe label event address reaction =>
    obtain ⟨registered, foreign⟩ := guarded.register runner label event address spares
    exact (registered.resubscribe label foreign).idle fun _ => rfl
  | off event =>
    refine (guarded.without tidy there (Bus.without_off _ event _) fun other spared => ?_).idle fun _ => rfl
    simpa [RunnerCommand.spares] using spares other spared
  | offCaller =>
    refine (guarded.without tidy there (Bus.without_offCaller _ _) fun other spared => ?_).idle fun _ => rfl
    simpa [RunnerCommand.spares] using spares other spared
  | hasListeners => exact guarded.idle fun _ => rfl
  | follow stage reaction =>
    simp only [Session.performOn]
    split
    · exact (guarded.follow tidy there _ spares).idle fun _ => rfl
    · exact guarded.idle fun _ => rfl
  | unknown => exact guarded.idle fun _ => rfl

/-- Every command keeps the guard, its ticks added to the log. -/
theorem perform (command : Command) (spares : ∀ name, spared name → command.spares name) :
    (session.perform command).2.Guarded spared fun name => log name ++ session.calls name command := by
  -- Only commands to runners lead to ticks.
  cases command with
  | load label tree strict source =>
    refine .idle ?_ fun _ => rfl
    rw [Session.perform, Session.load]
    split
    · exact guarded
    · simp only
      split <;> exact guarded.same rfl rfl rfl rfl rfl rfl
  | spawn label name address debug vars =>
    refine .idle ?_ fun _ => rfl
    rw [Session.perform]
    split
    · exact guarded.spawn tidy label _ address debug vars
    · exact guarded
  | advance dt => exact .idle (guarded.same rfl rfl rfl rfl rfl rfl) fun _ => rfl
  | setTime t => exact .idle (guarded.same rfl rfl rfl rfl rfl rfl) fun _ => rfl
  | dispatch event args address =>
    have stirs := Context.stirs_dispatch session.context event
      ((address.map session.context.resolve).getD .everyone) args
    refine .idle ?_ fun _ => rfl
    exact guarded.still (stirs.wired guarded.wired) stirs.issued stirs.posts rfl (fun _ member => .inl member)
      (fun _ member => .inl member) fun name _ kept =>
        (Context.withstands_spared name _).dispatch event _ args kept
  | compile code =>
    refine .idle ?_ fun _ => rfl
    simp only [Session.perform]
    split <;> exact guarded.same rfl rfl rfl rfl rfl rfl
  | isTemporary name => exact guarded.idle fun _ => rfl
  | unsubscribe label => exact (guarded.unsubscribe label).idle fun _ => rfl
  | offListener label event address =>
    refine .idle ?_ fun _ => rfl
    rw [Session.perform]
    split
    · exact guarded
    · rename_i r found
      have foreign := guarded.registered _ (Index.mem_of_at? found)
      have without := Bus.without_offListener session.context.bus r.listener (event.getD r.event)
        ((address.map session.context.resolve).getD r.target)
      exact guarded.still (guarded.wired.thin without) (Nat.le_of_eq without.issued.symm) rfl rfl
        (fun _ member => .inl member) (fun _ member => .inl member) fun name _ kept =>
          kept.without without fun _ _ box there _ => foreign.apart box there
  | drop name => exact (guarded.dropRunner tidy name).1.idle fun _ => rfl
  | toRunner name command =>
    rw [Session.perform]
    split
    · rename_i runner there
      exact guarded.performOn tidy ready there command spares
    · rename_i none
      refine guarded.idle fun other => ?_
      rw [Session.calls.eq_def]
      split
      · rename_i same
        cases same
        split
        · rename_i here
          rw [← here, none]
        · rfl
      · rfl

theorem exchange (command : Command) (spares : ∀ name, spared name → command.spares name) :
    (session.exchange command).2.Guarded spared fun name => log name ++ session.calls name command :=
  (guarded.perform tidy ready command spares).same rfl rfl rfl rfl rfl rfl

/-- Whatever a host asks for, a guarded session stays guarded. -/
theorem after (commands : List Command)
    (spares : ∀ name, spared name → ∀ command ∈ commands, command.spares name) :
    (session.after commands).Guarded spared fun name => log name ++ session.journal name commands := by
  induction commands generalizing session log with
  | nil =>
    simp only [journal, List.append_nil]
    exact guarded
  | cons command rest ih =>
    have first := guarded.exchange tidy ready command fun name spared => spares name spared command List.mem_cons_self
    have later := ih first (tidy.exchange ready command).tidy (ready.exchange command)
      fun name spared other member => spares name spared other (List.mem_cons_of_mem _ member)
    simp only [List.append_assoc] at later
    exact later

end Guarded
end Session
end BehaviorTree
