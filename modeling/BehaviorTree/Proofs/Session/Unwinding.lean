import BehaviorTree.Proofs.Session.Isolation

/-!
What a host sees of a runner when deeds on another one are left out. The two sessions are likened step
by step: a deed on the observed runner is answered in both in the same way, a deed on no runner keeps
the likeness, and so does one on another runner, be it done in both sessions or in the first only.
-/

namespace BehaviorTree

open Context (Aside Mirrors)
open Descent (Active Call)

namespace Runner

variable {f : Nat → Nat} {runner : Runner} {stack : List Frame} {ctx ctx' : Context}

/-- The variables and the like may change, in both contexts in the same way. -/
theorem Twins.recast (twins : runner.Twins f stack ctx ctx') {actor : Actor} (same : actor.stack = runner.actor.stack)
    (caller : actor.caller = runner.actor.caller) : Twins f { runner with actor } stack ctx ctx' :=
  ⟨same ▸ twins.state, caller ▸ twins.mirrors⟩

/-- Giving the runner up comes to the same in both contexts. -/
theorem Twins.notes_discard (twins : runner.Twins f stack ctx ctx') :
    (runner.discard ctx').notes = (runner.discard ctx).notes :=
  (twins.mirrors.unsubscribeAll.offCaller (Context.boxes_unsubscribeAll ctx runner.actor.caller)).notes

end Runner

namespace Session

variable {name other : String} {session session' later : Session} {deed : Deed}

/-! ### Deeds on other runners -/

/-- A session has become another one without any consequence for the runner of a name. -/
structure Apart (name : String) (older newer : Session) : Prop where
  same : newer.runners.at? name = older.runners.at? name
  aside : ∀ runner, older.runners.at? name = some runner → Aside runner.actor.caller older.context newer.context

namespace Apart

theorem refl (session : Session) : Apart name session session := ⟨rfl, fun _ _ => .refl _⟩

/-- Runners that agree keep two sessions alike. -/
theorem setRunner {runner : Runner} {ctx : Context} (ne : other ≠ name)
    (aside : ∀ observed, session.runners.at? name = some observed →
      Aside observed.actor.caller session.context ctx) :
    Apart name session (session.setRunner other runner ctx) where
  same := by rw [setRunner_runners, Index.at?_put, if_neg ne]
  aside := aside

theorem takeNotes (apart : Apart name session later) : Apart name session later.takeNotes.2 where
  same := apart.same
  aside runner there := by
    obtain ⟨untouched, pending, clock, cache⟩ := apart.aside runner there
    exact ⟨⟨untouched.boxes, untouched.listeners⟩, pending, clock, cache⟩

end Apart

namespace Quiet

variable (quiet : session.Quiet)

include quiet

/-- Dropping another runner is apart from this one. -/
theorem apart_dropRunner (ne : other ≠ name) : Apart name session (session.dropRunner other) := by
  rw [dropRunner]
  rcases there : session.runners.at? other with _ | runner
  · exact .refl session
  · obtain ⟨-, tidy, ⟨log, guarded⟩, -, -⟩ := quiet
    refine ⟨by rw [Index.at?_remove, if_neg ne], fun observed known => ?_⟩
    have callers : runner.actor.caller ≠ observed.actor.caller := fun same =>
      ne (tidy.eq_of_caller there known same)
    have forgotten : Aside observed.actor.caller session.context
        { session.context with directory := session.context.directory.remove other } :=
      ⟨⟨rfl, fun _ _ => rfl⟩, rfl, rfl, rfl⟩
    exact forgotten.trans (runner.aside_discard callers (guarded.wired.congr rfl rfl))

/-- An operation of another runner is apart from this one. -/
theorem apart_performOn (ne : other ≠ name) {runner : Runner} (there : session.runners.at? other = some runner)
    {command : RunnerCommand} (plain : command.isOperation) :
    Apart name session (session.performOn other runner command).2 := by
  obtain ⟨ready, tidy, ⟨log, guarded⟩, silent, -⟩ := quiet
  have callers {observed : Runner} (known : session.runners.at? name = some observed) :
      runner.actor.caller ≠ observed.actor.caller := fun same => ne (tidy.eq_of_caller there known same)
  have follows := silent.runners other runner there
  have acted {actor : Actor} : Apart name session (session.setRunner other { runner with actor } session.context) :=
    .setRunner ne fun _ _ => .refl _
  cases command with
  | run =>
    exact .setRunner ne fun _ known => Runner.Ready.aside_run (callers known) (ready.runners other runner there)
      guarded.wired (guarded.held other runner there) follows
  | interrupt => exact .setRunner ne fun _ known => runner.aside_interrupt (callers known) guarded.wired follows
  | clear => exact .setRunner ne fun _ known => runner.aside_clear (callers known) guarded.wired follows
  | request => exact ⟨rfl, fun _ known => .request _ (callers known)⟩
  | tree => exact .refl session
  | get key => exact .refl session
  | set key v => exact acted
  | remove key => exact acted
  | clearVars => exact acted
  | clearTemporaries => exact acted
  | setDebug debug => exact acted
  | _ => exact absurd plain Bool.false_ne_true

/-- Whatever is done with another runner is of no consequence for the one observed. -/
theorem apart_enact (ne : other ≠ name) (plain : deed.isOperation) (doer : deed.runner? = some other) :
    Apart name session (session.enact deed).2 := by
  cases deed with
  | toRunner subject command =>
    obtain rfl : subject = other := Option.some.inj doer
    suffices Apart name session (session.act (.toRunner subject command)).2 from this.takeNotes
    rw [act, perform]
    rcases there : session.runners.at? subject with _ | runner
    · exact .refl session
    · exact quiet.apart_performOn ne there plain
  | drop subject =>
    obtain rfl : subject = other := Option.some.inj doer
    exact (quiet.apart_dropRunner ne).takeNotes
  | _ => cases doer

end Quiet

/-! ### Sessions alike for a runner -/

/-- The runner of a name is the same in both sessions, or there is none in either. -/
structure Alike (name : String) (session session' : Session) : Prop where
  notes : session'.context.notes = session.context.notes
  absent : session.runners.at? name = none → session'.runners.at? name = none
  present : ∀ runner, session.runners.at? name = some runner → ∃ f stack,
    session'.runners.at? name = some (runner.restack stack) ∧
      runner.Twins f stack session.context session'.context

namespace Alike

theorem refl (session : Session) : Alike name session session where
  notes := rfl
  absent := id
  present runner there := by
    refine ⟨id, runner.actor.stack, there, ?_, ?_, fun _ _ => Iff.rfl, rfl, rfl, rfl, rfl⟩
    · rw [show Active.rename id = id from funext Active.rename_id, Option.map_id]
      rfl
    · exact (List.map_id _).symm

/-- What is done apart on the first side keeps two sessions alike. -/
theorem left (alike : Alike name session session') (apart : Apart name session later)
    (notes : later.context.notes = session.context.notes) : Alike name later session' where
  notes := alike.notes.trans notes.symm
  absent none := alike.absent (apart.same ▸ none)
  present runner there := by
    rw [apart.same] at there
    obtain ⟨f, stack, there', twins⟩ := alike.present runner there
    exact ⟨f, stack, there', twins.state, twins.mirrors.left (apart.aside runner there) notes⟩

/-- What is done apart on the second side keeps two sessions alike. -/
theorem right (alike : Alike name session session') (apart : Apart name session' later)
    (notes : later.context.notes = session'.context.notes) : Alike name session later where
  notes := notes.trans alike.notes
  absent none := apart.same.trans (alike.absent none)
  present runner there := by
    obtain ⟨f, stack, there', twins⟩ := alike.present runner there
    have aside : Aside runner.actor.caller session'.context later.context := apart.aside (runner.restack stack) there'
    exact ⟨f, stack, apart.same.trans there', twins.state, twins.mirrors.right aside notes⟩

theorem takeNotes (alike : Alike name session session') : Alike name session.takeNotes.2 session'.takeNotes.2 where
  notes := rfl
  absent := alike.absent
  present runner there := by
    obtain ⟨f, stack, there', twins⟩ := alike.present runner there
    exact ⟨f, stack, there', twins.state, twins.mirrors.takeNotes⟩

theorem setRunner {f : Nat → Nat} {one two : Runner × Context} (agree : Runner.Agree f one two) :
    Alike name (session.setRunner name one.1 one.2) (session'.setRunner name two.1 two.2) := by
  obtain ⟨stack, same, twins⟩ := agree
  refine ⟨twins.mirrors.notes, fun none => ?_, fun runner there => ?_⟩
  · rw [setRunner_runners, Index.at?_put, if_pos rfl] at none
    cases none
  · rw [setRunner_runners, Index.at?_put, if_pos rfl] at there ⊢
    cases there
    exact ⟨f, stack, congrArg some same, twins⟩

/-- A host sees the same of the runner in both sessions. -/
theorem sight_eq (alike : Alike name session session') (ready : session.Ready) (ready' : session'.Ready) :
    session'.sight name = session.sight name := by
  rw [sight, sight]
  rcases there : session.runners.at? name with _ | runner
  · rw [alike.absent there]
    rfl
  · obtain ⟨f, stack, there', twins⟩ := alike.present runner there
    have good := ready.runners name runner there
    have good' := ready'.runners name _ there'
    have pending : session'.context.isPending (runner.restack stack).actor.caller = _ := twins.mirrors.pending
    have running := twins.isRunning_eq good good'
    have path : (runner.restack stack).actor.stack.map Frame.node = _ := twins.nodes_eq good good'
    rw [there', Option.map_some, Option.map_some, pending, path, Runner.status, Runner.status, pending, running]
    rfl

/-! ### Deeds on the observed runner and on none -/

/-- Dropping the runner on both sides keeps two sessions alike. -/
theorem dropRunner (alike : Alike name session session') :
    (session'.runners.at? name).isSome = (session.runners.at? name).isSome ∧
    Alike name (session.dropRunner name) (session'.dropRunner name) := by
  rw [Session.dropRunner, Session.dropRunner]
  rcases there : session.runners.at? name with _ | runner
  · rw [alike.absent there]
    exact ⟨rfl, alike⟩
  · obtain ⟨f, stack, there', twins⟩ := alike.present runner there
    have gone (runners : Index String Runner) : (runners.remove name).at? name = none := by
      rw [Index.at?_remove, if_pos rfl]
    have forgotten : runner.Twins f stack
        { session.context with directory := session.context.directory.remove name }
        { session'.context with directory := session'.context.directory.remove name } :=
      ⟨twins.state, twins.mirrors.boxes, twins.mirrors.filled, twins.mirrors.pending, twins.mirrors.clock,
        twins.mirrors.cache, twins.mirrors.notes⟩
    rw [there']
    refine ⟨rfl, forgotten.notes_discard, fun _ => gone _, fun found known => ?_⟩
    rw [gone] at known
    cases known

section

variable (alike : Alike name session session') (quiet : session.Quiet) (quiet' : session'.Quiet)

include alike quiet quiet'

/-- The same operation on both sides is answered alike and keeps two sessions alike. -/
theorem performOn {runner : Runner} (there : session.runners.at? name = some runner) {f : Nat → Nat}
    {stack : List Frame} (there' : session'.runners.at? name = some (runner.restack stack))
    (twins : runner.Twins f stack session.context session'.context) {command : RunnerCommand}
    (plain : command.isOperation) :
    (session'.performOn name (runner.restack stack) command).1 = (session.performOn name runner command).1 ∧
      Alike name (session.performOn name runner command).2
        (session'.performOn name (runner.restack stack) command).2 := by
  obtain ⟨ready, -, ⟨log, guarded⟩, silent, -⟩ := quiet
  obtain ⟨ready', -, ⟨log', guarded'⟩, -, -⟩ := quiet'
  have good := ready.runners name runner there
  have good' := ready'.runners name _ there'
  have follows := silent.runners name runner there
  have acted {actor : Actor} (same : actor.stack = runner.actor.stack) (caller : actor.caller = runner.actor.caller) :
      Alike name (session.setRunner name { runner with actor } session.context)
        (session'.setRunner name (Runner.restack { runner with actor } stack) session'.context) :=
    @setRunner _ _ _ _ (_, _) (_, _) ⟨stack, rfl, twins.recast same caller⟩
  cases command with
  | run =>
    obtain ⟨answer, g, agree⟩ := twins.run follows good good' guarded.wired guarded'.wired
      (guarded.held name runner there)
    exact ⟨congrArg Answer.status answer, .setRunner agree⟩
  | interrupt => exact ⟨rfl, .setRunner (twins.interrupt follows good good')⟩
  | clear => exact ⟨rfl, .setRunner (twins.clear follows good good')⟩
  | request =>
    have requested := twins.mirrors.request
    refine ⟨congrArg Answer.flag requested.pending, requested.notes, alike.absent, fun found known => ?_⟩
    obtain rfl : runner = found := Option.some.inj (there.symm.trans known)
    exact ⟨f, stack, there', twins.state, requested⟩
  | tree => exact ⟨rfl, alike⟩
  | get key => exact ⟨rfl, alike⟩
  | set key v => exact ⟨rfl, acted rfl rfl⟩
  | remove key => exact ⟨rfl, acted rfl rfl⟩
  | clearVars => exact ⟨rfl, acted rfl rfl⟩
  | clearTemporaries => exact ⟨rfl, acted rfl rfl⟩
  | setDebug debug => exact ⟨rfl, acted rfl rfl⟩
  | _ => exact absurd plain Bool.false_ne_true

/-- A deed on the observed runner is answered in both sessions in the same way. -/
theorem enact_own (plain : deed.isOperation) (doer : deed.runner? = some name) :
    (session'.enact deed).1 = (session.enact deed).1 ∧ Alike name (session.enact deed).2 (session'.enact deed).2 := by
  have acted : (session'.act deed).1 = (session.act deed).1 ∧
      Alike name (session.act deed).2 (session'.act deed).2 := by
    cases deed with
    | toRunner subject command =>
      obtain rfl : subject = name := Option.some.inj doer
      rw [act, act, perform, perform]
      rcases there : session.runners.at? subject with _ | runner
      · rw [alike.absent there]
        exact ⟨rfl, alike⟩
      · obtain ⟨f, stack, there', twins⟩ := alike.present runner there
        rw [there']
        exact alike.performOn quiet quiet' there there' twins plain
    | drop subject =>
      obtain rfl : subject = name := Option.some.inj doer
      obtain ⟨found, alike⟩ := alike.dropRunner
      exact ⟨congrArg Answer.flag found, alike⟩
    | _ => cases doer
  exact ⟨Prod.ext acted.1 acted.2.notes, acted.2.takeNotes⟩

/-- A deed on no runner keeps the likeness. -/
theorem enact_free (free : deed.runner? = none) : Alike name (session.enact deed).2 (session'.enact deed).2 := by
  cases deed with
  | toRunner subject command => cases free
  | drop subject => cases free
  | advance dt =>
    refine ⟨rfl, alike.absent, fun runner there => ?_⟩
    obtain ⟨f, stack, there', twins⟩ := alike.present runner there
    exact ⟨f, stack, there', twins.state, (twins.mirrors.advance dt).takeNotes⟩
  | setTime t =>
    refine ⟨rfl, alike.absent, fun runner there => ?_⟩
    obtain ⟨f, stack, there', twins⟩ := alike.present runner there
    exact ⟨f, stack, there', twins.state, (twins.mirrors.setClock t).takeNotes⟩
  | dispatch event target args =>
    refine ⟨rfl, alike.absent, fun runner there => ?_⟩
    obtain ⟨f, stack, there', twins⟩ := alike.present runner there
    obtain ⟨-, -, ⟨log, guarded⟩, silent, -⟩ := quiet
    obtain ⟨-, -, ⟨log', guarded'⟩, silent', -⟩ := quiet'
    exact ⟨f, stack, there', twins.state, twins.mirrors.dispatch guarded.wired guarded'.wired silent.context
      silent'.context event target args⟩

end

end Alike

/-! ### Leaving deeds out -/

/-- The deeds apart from those on the runner of a name. -/
def deedsWithout (name : String) (deeds : List Deed) : List Deed :=
  deeds.filter fun deed => deed.runner? ≠ some name

/-- A deed that is done in both sessions keeps them alike. -/
theorem Alike.enact (alike : Alike name session session') (quiet : session.Quiet) (quiet' : session'.Quiet)
    (plain : deed.isOperation) : Alike name (session.enact deed).2 (session'.enact deed).2 := by
  rcases doer : deed.runner? with _ | subject
  · exact alike.enact_free quiet quiet' doer
  · by_cases own : subject = name
    · exact (alike.enact_own quiet quiet' plain (own ▸ doer)).2
    · have noted := (quiet.enact plain).noted.trans quiet.noted.symm
      have noted' := (quiet'.enact plain).noted.trans quiet'.noted.symm
      exact (alike.left (quiet.apart_enact own plain doer) noted).right (quiet'.apart_enact own plain doer) noted'

/-- As long as only deeds on another runner are left out, a host hears and sees the same of the one it
observes. -/
theorem Alike.leave_out (ne : other ≠ name) (deeds : List Deed) (plain : ∀ deed ∈ deeds, deed.isOperation)
    (alike : Alike name session session') (quiet : session.Quiet) (quiet' : session'.Quiet) :
    session'.replies name (deedsWithout other deeds) = session.replies name deeds ∧
      (session'.afterDeeds (deedsWithout other deeds)).sight name = (session.afterDeeds deeds).sight name := by
  induction deeds generalizing session session' with
  | nil => exact ⟨rfl, alike.sight_eq quiet.ready quiet'.ready⟩
  | cons deed rest ih =>
    obtain ⟨first, later⟩ := List.forall_mem_cons.mp plain
    by_cases omitted : deed.runner? = some other
    · have aside := quiet.apart_enact ne first omitted
      have noted := (quiet.enact first).noted.trans quiet.noted.symm
      have unseen : deed.runner? ≠ some name := fun own => ne (Option.some.inj (omitted.symm.trans own))
      rw [deedsWithout, List.filter_cons_of_neg (by simp [omitted]), replies, if_neg unseen, List.nil_append]
      exact ih later (alike.left aside noted) (quiet.enact first) quiet'
    · obtain ⟨heard, seen⟩ := ih later (alike.enact quiet quiet' first) (quiet.enact first) (quiet'.enact first)
      rw [deedsWithout, List.filter_cons_of_pos (by simp [omitted]), replies, replies, ← deedsWithout, heard]
      refine ⟨?_, seen⟩
      by_cases own : deed.runner? = some name
      · rw [if_pos own, if_pos own, (alike.enact_own quiet quiet' first own).1]
      · rw [if_neg own, if_neg own]

/-- Whatever else is done in a session, what is done with one runner has no bearing on another: what it
answers, the stages of its runs and all else that is seen of it are the same without. -/
theorem deeds_on_other_unseen (source : SourceInput) (commands : List Command) (name other : String)
    (mute : ∀ command ∈ commands, ∀ reaction ∈ command.reaction?, reaction.orders = [])
    (ne : other ≠ name) (deeds : List Deed) (plain : ∀ deed ∈ deeds, deed.isOperation) :
    let session := (new Registry.builtin source).after commands
    session.replies name (deedsWithout other deeds) = session.replies name deeds ∧
      (session.afterDeeds (deedsWithout other deeds)).sight name = (session.afterDeeds deeds).sight name :=
  have quiet := (quiet_new source).after commands mute
  (Alike.refl _).leave_out ne deeds plain quiet quiet

/-- Has two guards set on the patrol, and follows the runs of the first one. -/
def guarding : List Command :=
  [.load "patrol" "patrol" true none, .spawn "first" "patrol" none false [],
    .spawn "second" "patrol" none false [], .toRunner "first" (.follow "BeforeRun" ⟨"begun", []⟩)]

/-- The second guard is run and given up without a trace at the first one. -/
theorem deeds_on_other_unseen_guards :
    let session := (new Registry.builtin (.trees patrolSource)).after guarding
    let deeds := [.toRunner "second" .run, .toRunner "first" .run, .drop "second", .toRunner "first" .run]
    session.replies "first" [.toRunner "first" .run, .toRunner "first" .run] = session.replies "first" deeds ∧
      (session.afterDeeds [.toRunner "first" .run, .toRunner "first" .run]).sight "first" =
        (session.afterDeeds deeds).sight "first" :=
  deeds_on_other_unseen (.trees patrolSource) guarding "first" "second"
    (by simp [guarding, Command.reaction?, RunnerCommand.reaction?]) (by decide)
    [.toRunner "second" .run, .toRunner "first" .run, .drop "second", .toRunner "first" .run] (by decide)

end Session
end BehaviorTree
