import BehaviorTree.Proofs.Returns
import BehaviorTree.Tick.Node

/-!
What a computation on a scene gives: a value or a fault, and the scene it leaves. Computations are
equal when they give the same from every scene, and a sequence of computations is played one after
the other, up to the first fault.
-/

namespace BehaviorTree.TickM

variable {α β : Type}

/-- The result of a computation and the scene it leaves. -/
def play (x : TickM α) (s : Scene) : Except Fault α × Scene := x.run.run s

theorem ext {x y : TickM α} (h : ∀ s, x.play s = y.play s) : x = y := funext h

@[simp] theorem play_pure (a : α) (s : Scene) : (pure a : TickM α).play s = (.ok a, s) := rfl

@[simp] theorem play_throw (fault : Fault) (s : Scene) :
    (throw fault : TickM α).play s = (.error fault, s) := rfl

@[simp] theorem play_get (s : Scene) : (get : TickM Scene).play s = (.ok s, s) := rfl

@[simp] theorem play_set (s t : Scene) : (set t : TickM PUnit).play s = (.ok ⟨⟩, t) := rfl

@[simp] theorem play_context (s : Scene) : TickM.context.play s = (.ok s.context, s) := rfl

@[simp] theorem play_actor (s : Scene) : TickM.actor.play s = (.ok s.actor, s) := rfl

@[simp] theorem play_now (s : Scene) : TickM.now.play s = (.ok s.context.clock, s) := rfl

@[simp] theorem play_updateContext (f : Context → Context) (s : Scene) :
    (TickM.updateContext f).play s = (.ok (), s.updateContext f) := rfl

@[simp] theorem play_updateActor (f : Actor → Actor) (s : Scene) :
    (TickM.updateActor f).play s = (.ok (), s.updateActor f) := rfl

@[simp] theorem play_note (n : Note) (s : Scene) :
    (TickM.note n).play s = (.ok (), s.note n) := rfl

@[simp] theorem play_noteDebug (n : Note) (s : Scene) :
    (TickM.noteDebug n).play s = (.ok (), s.noteDebug n) := rfl

theorem play_bind (x : TickM α) (f : α → TickM β) (s : Scene) :
    (x >>= f).play s =
      match x.play s with
      | (.ok a, t) => (f a).play t
      | (.error fault, t) => (.error fault, t) := by
  rw [play, run_bind_eq, play]
  rcases x.run.run s with ⟨_ | _, _⟩ <;> rfl

theorem play_bind_ok {x : TickM α} {s t : Scene} {a : α} (h : x.play s = (.ok a, t))
    (f : α → TickM β) : (x >>= f).play s = (f a).play t := by
  rw [play_bind, h]

/-- Sequences with the same beginning agree when they agree from what the beginning leaves. -/
theorem play_bind_congr {x : TickM α} {f g : α → TickM β} {s : Scene}
    (h : ∀ a t, x.play s = (.ok a, t) → (f a).play t = (g a).play t) :
    (x >>= f).play s = (x >>= g).play s := by
  rw [play_bind, play_bind]
  rcases played : x.play s with ⟨fault | a, t⟩
  · rfl
  · exact h a t played

theorem play_bind_left {x y : TickM α} {s : Scene} (h : x.play s = y.play s) (f : α → TickM β) :
    (x >>= f).play s = (y >>= f).play s := by
  rw [play_bind, play_bind, h]

theorem play_map (g : α → β) (x : TickM α) (s : Scene) :
    (g <$> x).play s = ((x.play s).1.map g, (x.play s).2) := by
  rw [← bind_pure_comp, play_bind]
  rcases x.play s with ⟨_ | _, _⟩ <;> rfl

theorem play_map_left {x y : TickM α} {s : Scene} (h : x.play s = y.play s) (g : α → β) :
    (g <$> x).play s = (g <$> y).play s := by
  rw [play_map, play_map, h]

/-- Handling a fault goes on from the scene that the fault left. -/
theorem play_tryCatch (x : TickM α) (handle : Fault → TickM α) (s : Scene) :
    (tryCatch x handle).play s =
      match x.play s with
      | (.ok a, t) => (.ok a, t)
      | (.error fault, t) => (handle fault).play t := by
  have opened : (tryCatch x handle).play s =
      StateT.run (ExceptT.run (ExceptT.tryCatch x handle)) s := rfl
  rw [opened, ExceptT.tryCatch, ExceptT.run_mk, StateT.run_bind]
  have played : StateT.run x s = x.play s := rfl
  rw [played]
  rcases x.play s with ⟨_ | _, _⟩ <;> rfl

/-! ### What comes of a computation -/

/-- If a computation gives a value, then that value and the scene it leaves are so related. -/
def Gives (x : TickM α) (s : Scene) (Q : α → Scene → Prop) : Prop :=
  ∀ a t, x.play s = (.ok a, t) → Q a t

section

variable {x : TickM α} {s : Scene} {P : α → Scene → Prop} {Q : β → Scene → Prop}

theorem gives_pure {a : α} (h : P a s) : Gives (pure a) s P := by
  intro b t played
  cases played
  exact h

theorem gives_throw (fault : Fault) : Gives (throw fault : TickM α) s P := by
  intro a t played
  rw [play_throw] at played
  cases played

/-- What the first part gives is what the next one is given. -/
theorem gives_bind {f : α → TickM β} (first : Gives x s P) (next : ∀ a t, P a t → Gives (f a) t Q) :
    Gives (x >>= f) s Q := by
  intro b u played
  rw [play_bind] at played
  rcases done : x.play s with ⟨fault | a, t⟩
  · rw [done] at played
    cases played
  · rw [done] at played
    exact next a t (first a t done) b u played

theorem gives_map {g : α → β} (h : Gives x s fun a t => Q (g a) t) : Gives (g <$> x) s Q := by
  rw [← bind_pure_comp]
  exact gives_bind h fun a t related => gives_pure related

theorem gives_rethrow (handle : Fault → Fault) (h : Gives x s P) :
    Gives (tryCatch x fun fault => throw (handle fault)) s P := by
  intro a t played
  rw [play_tryCatch] at played
  rcases done : x.play s with ⟨fault | a, t⟩ <;> rw [done] at played <;> cases played
  exact h a t done

theorem Gives.mono {R : α → Scene → Prop} (h : Gives x s P) (sub : ∀ a t, P a t → R a t) :
    Gives x s R := fun a t played => sub a t (h a t played)

theorem Gives.and {R : α → Scene → Prop} (h : Gives x s P) (g : Gives x s R) :
    Gives x s fun a t => P a t ∧ R a t := fun a t played => ⟨h a t played, g a t played⟩

end

/-- Whatever value a computation gives has a property. -/
def Yields (x : TickM α) (P : α → Prop) : Prop := ∀ s, Gives x s fun a _ => P a

section

variable {x y : TickM α} {P : α → Prop} {Q : β → Prop}

theorem yields_pure {a : α} (h : P a) : Yields (pure a) P := fun _ => gives_pure h

theorem yields_throw (fault : Fault) : Yields (throw fault : TickM α) P := fun _ => gives_throw fault

/-- What a sequence gives is what its end gives, whatever comes before. -/
theorem yields_bind {f : α → TickM β} (h : ∀ a, Yields (f a) Q) : Yields (x >>= f) Q :=
  fun _ => gives_bind (P := fun _ _ => True) (fun _ _ _ => trivial) fun a t _ => h a t

theorem yields_map {g : α → β} (h : Yields x fun a => Q (g a)) : Yields (g <$> x) Q :=
  fun s => gives_map (h s)

theorem yields_ite {p : Prop} [Decidable p] (hx : p → Yields x P) (hy : ¬ p → Yields y P) :
    Yields (if p then x else y) P := by
  split
  · exact hx ‹p›
  · exact hy ‹¬ p›

end

end BehaviorTree.TickM

namespace BehaviorTree.Visit

theorem play_childVerdict (visit : Visit) {s : Scene} {verdict : Verdict}
    (reported : s.actor.last = verdict.status) : visit.childVerdict.play s = (.ok verdict, s) := by
  simp only [childVerdict, TickM.play_bind, TickM.play_actor, reported, Status.verdict?_status]
  rfl

theorem play_takeEvent_nil {listener : Nat} {s : Scene} (none : s.context.queue listener = []) :
    (takeEvent listener).play s = (.ok .none, s) := by
  rw [takeEvent, TickM.play_bind_ok (TickM.play_context s), none]
  rfl

theorem play_takeEvent_cons {listener : Nat} {s : Scene} {event : List Value}
    {rest : List (List Value)} (waiting : s.context.queue listener = event :: rest) :
    (takeEvent listener).play s =
      (.ok (some event), s.updateContext (·.updateMailbox listener fun _ => rest)) := by
  rw [takeEvent, TickM.play_bind_ok (TickM.play_context s), waiting]
  rfl

/-- What an expression read from a source text comes to for the actor of a scene. -/
def evaluated (visit : Visit) (s : Scene) : Except ExprError Expr → Except Fault Value
  | .error error => .error ⟨.expr visit.node.name visit.node.id error, visit.path.length⟩
  | .ok e =>
    match e.eval s.actor.get? with
    | .ok v => .ok v
    | .error error => .error ⟨.expr visit.node.name visit.node.id error, visit.path.length⟩

theorem play_evaluate (visit : Visit) (arg : String) (s : Scene) :
    (visit.evaluate arg).play s =
      match visit.node.text? arg with
      | none =>
        (.error ⟨.custom (visit.node.name ++ " #" ++ toString visit.node.id ++
          ": no expression in " ++ Text.quoted arg), visit.path.length⟩, s)
      | some code =>
        (visit.evaluated s (s.context.compile code).1,
          s.updateContext fun ctx => (ctx.compile code).2) := by
  simp only [evaluate]
  rcases visit.node.text? arg with _ | code
  · rfl
  · simp only [TickM.play_bind, TickM.play_get, TickM.play_set, Scene.updateContext, evaluated]
    rcases s.context.compile code with ⟨_ | e, ctx⟩
    · rfl
    · simp only
      rcases e.eval s.actor.get? with _ | v <;> rfl

end BehaviorTree.Visit
