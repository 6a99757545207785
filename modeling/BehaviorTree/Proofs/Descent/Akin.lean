import BehaviorTree.Proofs.Descent.Abreast
import BehaviorTree.Proofs.Event.Flat

/-!
Computations that match: from scenes that differ at most in the numbers of nodes on the stack that were noted, they
come to related values and leave such scenes again, or they raise the same error, maybe at different depths. Nobody
debugs the actor. Rules of nodes match themselves, since they do not look at the notes.
-/

namespace BehaviorTree

namespace TickM

variable {α β : Type}

/-- The computation whose faults do not tell how many nodes were on the stack. -/
def flat (x : TickM α) : TickM α := tryCatch x fun fault => throw ⟨fault.error, 0⟩

theorem play_flat (x : TickM α) (s : Scene) :
    x.flat.play s = ((x.play s).1.mapError fun fault => ⟨fault.error, 0⟩, (x.play s).2) := by
  rw [flat, play_tryCatch]
  rcases x.play s with ⟨fault | a, t⟩ <;> rfl

theorem flat_bind (x : TickM α) (f : α → TickM β) : (x >>= f).flat = x.flat >>= fun a => (f a).flat := by
  refine ext fun s => ?_
  rw [play_flat, play_bind, play_bind, play_flat]
  rcases x.play s with ⟨fault | a, t⟩
  · rfl
  · exact (play_flat (f a) t).symm

theorem flat_rethrow (x : TickM α) (depth : Nat) :
    (tryCatch x fun fault => throw ⟨fault.error, depth⟩).flat = x.flat := by
  refine ext fun s => ?_
  rw [play_flat, play_flat, play_tryCatch]
  rcases x.play s with ⟨fault | a, t⟩ <;> rfl

end TickM

/-- Two scenes of an actor that is not debugged. They differ at most in the numbers of nodes on the stack that were
noted. -/
structure Scene.Akin (s t : Scene) : Prop where
  silent : s.actor.debug = false
  actor : t.actor = s.actor
  context : t.context.flat = s.context.flat

namespace Scene.Akin

variable {s t : Scene} (akin : s.Akin t)

include akin

theorem updateActor {f : Actor → Actor} (keeps : (f s.actor).debug = s.actor.debug) :
    (s.updateActor f).Akin (t.updateActor f) where
  silent := keeps.trans akin.silent
  actor := congrArg f akin.actor
  context := akin.context

theorem updateContext {f : Context → Context} (keeps : ∀ ctx : Context, (f ctx).flat = f ctx.flat) :
    (s.updateContext f).Akin (t.updateContext f) where
  silent := akin.silent
  actor := akin.actor
  context := (keeps _).trans ((congrArg f akin.context).trans (keeps _).symm)

theorem note (n : Note) : (s.note n).Akin (t.note n) where
  silent := akin.silent
  actor := akin.actor
  context := by rw [Scene.note, Scene.note, Scene.updateContext, Scene.updateContext, Context.flat_note,
    Context.flat_note, akin.context]

theorem queue (listener : Nat) : t.context.queue listener = s.context.queue listener :=
  (congrArg (Context.queue · listener) akin.context :)

end Scene.Akin

namespace Descent

open TickM

variable {α β γ δ : Type}

/-! ### Rules -/

/-- Scenes that are akin, whatever is held and called. -/
abbrev Close (_ : Multiset Hold) (_ : List Call) (s t : Scene) : Prop := s.Akin t

theorem calm_close : Calm Close where
  alike akin := ⟨by rw [akin.actor], by rw [akin.actor], by rw [akin.actor], by rw [akin.actor],
    (congrArg Context.clock akin.context :), (congrArg Context.cache akin.context :)⟩
  recast vars completed last akin := akin.updateActor rfl
  logged level id message akin := akin.note _
  compile code akin := akin.updateContext fun ctx => ctx.flat_compile code

theorem even_updateContext {f : Context → Context} (keeps : ∀ ctx : Context, (f ctx).flat = f ctx.flat) :
    Even Close (TickM.updateContext f) := fun _ _ _ _ akin => .values ⟨rfl, akin.updateContext keeps⟩

theorem even_takeEvent (listener : Nat) : Even Close (Visit.takeEvent listener) := by
  intro H log s t akin
  have same := akin.queue listener
  rcases waiting : s.context.queue listener with _ | ⟨event, rest⟩ <;> rw [waiting] at same
  · rw [Abreast, Visit.play_takeEvent_nil waiting, Visit.play_takeEvent_nil same]
    exact .values ⟨rfl, akin⟩
  · rw [Abreast, Visit.play_takeEvent_cons waiting, Visit.play_takeEvent_cons same]
    exact .values ⟨rfl, akin.updateContext fun ctx => ctx.flat_updateMailbox listener _⟩

theorem even_nextEvent (visit : Visit) (listener : Nat) : Even Close (nextEvent visit listener) := by
  refine even_bind (even_takeEvent listener) fun event => ?_
  rcases event with _ | args
  · exact even_pure _
  · obtain ⟨vars, written⟩ := Actor.writeArguments_eq visit.node args
    exact even_bind (even_recast calm_close vars id id written) fun _ => even_pure _

theorem even_whom (visit : Visit) : Even Close (whom visit) := by
  unfold whom
  split
  · refine even_bind (even_input calm_close visit 0) fun v => ?_
    split <;> exact even_pure _
  · exact even_actor calm_close (fun _ => even_pure _) fun s t alike => by rw [alike.target]

theorem even_startListening (visit : Visit) (target : Target) : Even Close (startListening visit target) := by
  intro H log s t akin
  have subscribed : (s.subscribe visit.node.event target).Akin (t.subscribe visit.node.event target) := by
    rw [Scene.subscribe, Scene.subscribe, akin.actor]
    exact akin.updateContext fun ctx => ctx.flat_subscribe _ _ _
  have issued : t.context.bus.issued = s.context.bus.issued :=
    (congrArg (fun ctx : Context => ctx.bus.issued) akin.context :)
  have opened (s : Scene) : (startListening visit target).play s =
      (nextEvent visit (s.context.bus.issued + 1)).play (s.subscribe visit.node.event target) := rfl
  rw [Abreast, opened, opened, issued]
  exact even_nextEvent visit _ H log _ _ subscribed

/-- However a node begins, it begins the same. -/
theorem akin_start (visit : Visit) (builtin : IsBuiltin visit.node) :
    Even Close (start visit visit.node.kind) := by
  by_cases listens : Listens visit.node
  · rw [start_of_listens listens]
    exact even_bind (even_whom visit) fun target => even_startListening visit target
  · exact even_start calm_close visit builtin listens

theorem akin_goOn (visit : Visit) (kind : Kind) (memory : Memory) : Even Close (goOn visit kind memory) := by
  cases memory with
  | mailbox listener => exact even_nextEvent visit listener
  | _ => exact even_goOn calm_close visit kind nofun

theorem akin_heed (visit : Visit) (memory : Memory) (child : Nat) (verdict : Verdict) :
    Even Close (heed visit visit.node.kind memory child verdict) := by
  by_cases listens : Listens visit.node
  · rw [heed_of_listening listens]
    cases memory with
    | mailbox listener =>
      refine even_ite (even_bind ?_ fun _ => even_pure _) (even_nextEvent visit listener)
      exact even_updateContext fun ctx => ctx.flat_unsubscribe listener
    | _ => exact even_pure _
  · exact even_heed calm_close visit listens memory child verdict

/-! ### Two computations -/

/-- From scenes that are akin both computations come to related values, or both raise the same error. -/
def Matches (x : TickM α) (y : TickM β) (Q : α → β → Prop) : Prop :=
  ∀ s t, s.Akin t → Abreast x.flat y.flat s t (fun a b s' t' => Q a b ∧ s'.Akin t') Scene.Akin

section

variable {x : TickM α} {y : TickM β} {P : α → β → Prop} {Q : γ → δ → Prop}

theorem matches_of_even {x : TickM α} (even : Even Close x) : Matches x x (· = ·) := fun s t akin =>
  (abreast_rethrow _ (even 0 [] s t akin)).mono (fun _ _ _ _ both => ⟨both.1.symm, both.2⟩) fun _ _ => id

theorem matches_of_flat {x y : TickM α} (even : Even Close x) (same : y.flat = x.flat) : Matches x y (· = ·) := by
  rw [Matches, same]
  exact matches_of_even even

/-- How two computations that match can end. -/
theorem Matches.ends (h : Matches x y P) {s t : Scene} (akin : s.Akin t) :
    (∃ a b s' t', x.play s = (.ok a, s') ∧ y.play t = (.ok b, t') ∧ P a b ∧ s'.Akin t') ∨
      ∃ fault fault' s' t', x.play s = (.error fault, s') ∧ y.play t = (.error fault', t') ∧
        fault'.error = fault.error ∧ s'.Akin t' := by
  have ended := h s t akin
  rw [Abreast, play_flat, play_flat] at ended
  generalize x.play s = left at ended ⊢
  generalize y.play t = right at ended ⊢
  rcases left with ⟨⟨error, depth⟩ | a, s'⟩ <;> rcases right with ⟨⟨error', depth'⟩ | b, t'⟩
  · cases ended with
    | faults _ akin => exact .inr ⟨_, _, _, _, rfl, rfl, rfl, akin⟩
  · cases ended
  · cases ended
  · cases ended with
    | values both => exact .inl ⟨_, _, _, _, rfl, rfl, both⟩

theorem matches_pure {a : α} {b : β} (h : P a b) : Matches (pure a) (pure b) P :=
  fun _ _ akin => .values ⟨h, akin⟩

theorem matches_fail (visit visit' : Visit) (error : RunError) :
    Matches (visit.fail error : TickM α) (visit'.fail error : TickM β) P := fun _ _ akin => .faults _ akin

theorem matches_bind {f : α → TickM γ} {g : β → TickM δ} (first : Matches x y P)
    (next : ∀ a b, P a b → Matches (f a) (g b) Q) : Matches (x >>= f) (y >>= g) Q := by
  intro s t akin
  rw [flat_bind, flat_bind]
  exact abreast_bind (first s t akin) fun a b s' t' both => next a b both.1 s' t' both.2

theorem matches_map {f : α → γ} {g : β → δ} (h : Matches x y P) (sub : ∀ a b, P a b → Q (f a) (g b)) :
    Matches (f <$> x) (g <$> y) Q := by
  rw [← bind_pure_comp, ← bind_pure_comp]
  exact matches_bind h fun a b related => matches_pure (sub a b related)

theorem matches_rethrow_left (depth : Nat) (h : Matches x y P) :
    Matches (tryCatch x fun fault => throw ⟨fault.error, depth⟩) y P := by
  rw [Matches, flat_rethrow]
  exact h

theorem matches_rethrow_right (depth : Nat) (h : Matches x y P) :
    Matches x (tryCatch y fun fault => throw ⟨fault.error, depth⟩) P := by
  rw [Matches, flat_rethrow]
  exact h

/-- Without debugging no note is taken. -/
theorem play_silent (n : Note) (f : Unit → TickM α) {s : Scene} (silent : s.actor.debug = false) :
    (TickM.noteDebug n >>= f).flat.play s = (f ()).flat.play s := by
  have quiet : s.noteDebug n = s := if_neg (by rw [silent]; exact Bool.false_ne_true)
  rw [play_flat, play_flat, play_bind_ok (play_noteDebug n s), quiet]

theorem matches_noteDebug_left (n : Note) {f : Unit → TickM α} (h : Matches (f ()) y P) :
    Matches (TickM.noteDebug n >>= f) y P := fun s t akin => by
  rw [Abreast, play_silent n f akin.silent]
  exact h s t akin

theorem matches_noteDebug_right (n : Note) {f : Unit → TickM β} (h : Matches x (f ()) P) :
    Matches x (TickM.noteDebug n >>= f) P := fun s t akin => by
  rw [Abreast, play_silent n f (akin.actor ▸ akin.silent)]
  exact h s t akin

theorem matches_report (status : Status) :
    Matches (TickM.updateActor fun actor => { actor with last := status })
      (TickM.updateActor fun actor => { actor with last := status }) fun _ _ => True :=
  fun _ _ akin => .values ⟨trivial, akin.updateActor rfl⟩

/-- Executions match if what they record does. -/
theorem matches_act {x y : TickM Report} {Q : Report → Report → Prop} (visit visit' : Visit)
    (same : ∀ r r', Q r r' → r'.status = r.status) (h : Matches x y Q) :
    Matches (act visit x) (act visit' y) Q := by
  refine matches_noteDebug_left _ (matches_noteDebug_right _ (matches_bind h fun r r' related => ?_))
  rw [same r r' related]
  exact matches_noteDebug_left _ (matches_noteDebug_right _ (matches_bind (matches_report _) fun _ _ _ =>
    matches_pure related))

end

end Descent
end BehaviorTree
