import BehaviorTree.Proofs.Descent.Decorator
import BehaviorTree.Proofs.Descent.Safe

/-!
How often a node turns to its children in one tick. From a child that has completed it goes on to a
later one; a listening node enters its child again, but only for an event that it takes from its
mailbox. So a node has as many turns as it can use.
-/

namespace BehaviorTree.Descent

open TickM

/-- A memory without a listener. -/
def Memory.Deaf (memory : Memory) : Prop := ∀ listener, memory ≠ .mailbox listener

/-- A move that lets a node remember no listener. -/
def Move.Deaf : Move → Prop
  | .enter _ memory => memory.Deaf
  | .rest memory => memory.Deaf
  | .finish _ => True

/-- A move into a child after the `i`-th, if into any. -/
def Move.Onward (i count : Nat) : Move → Prop
  | .enter j _ => i < j ∧ j < count
  | _ => True

/-- How often children can be entered from a move on. -/
def Move.room (count : Nat) (ctx : Context) : Move → Nat
  | .enter _ (.mailbox listener) => 1 + (ctx.queue listener).length
  | .enter i _ => 1 + (count - (i + 1))
  | _ => 0

section

variable {node : Node} {memory : Memory} (deaf : ¬ Listens node)

include deaf

theorem deaf_of_restsWith (rests : RestsWith node.kind memory) : memory.Deaf := by
  rintro listener rfl
  unfold Listens at deaf
  generalize node.kind = kind at deaf rests
  cases kind <;> first | exact rests.elim | exact deaf (.inl rfl) | exact deaf (.inr rfl)

theorem deaf_of_waitsWith {i : Nat} (waits : WaitsWith node.kind memory i) : memory.Deaf := by
  rintro listener rfl
  unfold Listens at deaf
  generalize node.kind = kind at deaf waits
  cases kind <;> first | exact waits.elim | exact deaf (.inl rfl) | exact deaf (.inr rfl)

theorem deaf_of_fits {move : Move} (fits : move.Fits node.kind) : move.Deaf := by
  cases move with
  | finish verdict => trivial
  | enter i memory => exact deaf_of_waitsWith deaf fits
  | rest memory => exact deaf_of_restsWith deaf fits

end

/-! ### From child to child -/

section

variable (visit : Visit)

theorem onward_nextChild (stop : Verdict) (i : Nat) :
    (nextChild visit stop (i + 1)).Onward i visit.node.children.length := by
  unfold nextChild
  split
  · exact ⟨Nat.lt_succ_self i, by assumption⟩
  · trivial

theorem onward_chosenChild (condition : Verdict) :
    (chosenChild visit condition).Onward 0 visit.node.children.length := by
  cases condition <;> simp only [chosenChild] <;> split <;> trivial

theorem onward_heedInRound (memory : Memory) (i : Nat) (verdict : Verdict) :
    (heedInRound visit memory i verdict).Onward i visit.node.children.length := by
  cases memory with
  | round it =>
    cases verdict with
    | success =>
      simp only [heedInRound, nextInRound]
      split
      · exact ⟨Nat.lt_succ_self i, by assumption⟩
      · split <;> trivial
    | failure => trivial
  | _ => trivial

/-- A node that does not listen goes on to a later child. -/
theorem onward_heed (deaf : ¬ Listens visit.node) {memory : Memory} {i : Nat}
    (waits : WaitsWith visit.node.kind memory i) (verdict : Verdict) :
    Yields (heed visit visit.node.kind memory i verdict) (Move.Onward i visit.node.children.length) := by
  unfold Listens at deaf
  generalize visit.node.kind = kind at deaf waits
  cases kind with
  | sequence =>
    refine yields_pure ?_
    split
    · trivial
    · exact onward_nextChild visit _ i
  | selector =>
    refine yields_pure ?_
    split
    · trivial
    · exact onward_nextChild visit _ i
  | ifElse =>
    refine yields_pure ?_
    split
    · rename_i first
      rw [first]
      exact onward_chosenChild visit verdict
    · trivial
  | loop => exact yields_pure (onward_heedInRound visit memory i verdict)
  | foreach => exact yields_pure (onward_heedInRound visit memory i verdict)
  | assert =>
    cases verdict with
    | success => exact yields_pure trivial
    | failure => exact yields_throw _
  | repeatUntil wanted =>
    refine yields_pure ?_
    cases memory with
    | attempts count =>
      rw [heedAttempt]
      split
      · trivial
      · split <;> trivial
    | _ => trivial
  | once => exact yields_bind fun _ => yields_pure trivial
  | listen => exact absurd (.inl rfl) deaf
  | listenTree => exact absurd (.inr rfl) deaf
  | _ => exact yields_pure trivial

/-! ### Turns -/

/-- For every event that waits there is a turn. -/
theorem room_nextEvent (listener : Nat) (s : Scene) :
    Gives (nextEvent visit listener) s fun move t =>
      move.room visit.node.children.length t.context ≤ (s.context.queue listener).length := by
  intro move t played
  rcases waiting : s.context.queue listener with _ | ⟨args, rest⟩
  · rw [nextEvent, play_bind_ok (Visit.play_takeEvent_nil waiting)] at played
    cases played
    exact Nat.zero_le _
  · rw [nextEvent, play_bind_ok (Visit.play_takeEvent_cons waiting)] at played
    cases played
    simp only [Move.room, Scene.updateActor, Scene.updateContext, Context.queue_take _ waiting,
      List.length_cons]
    omega

/-- Every turn leaves room for fewer. -/
theorem room_heed {memory : Memory} {i : Nat} (waits : WaitsWith visit.node.kind memory i)
    (verdict : Verdict) (s : Scene) :
    Gives (heed visit visit.node.kind memory i verdict) s fun move t =>
      move.room visit.node.children.length t.context <
        (Move.enter i memory).room visit.node.children.length s.context := by
  by_cases listens : Listens visit.node
  · obtain ⟨listener, rfl, -⟩ := listens.waits waits
    have full : (Move.enter i (.mailbox listener)).room visit.node.children.length s.context =
        1 + (s.context.queue listener).length := rfl
    rw [heed_of_listening listens, heedEvent, full]
    split
    · intro move t played
      cases played
      exact Nat.lt_add_right _ Nat.one_pos
    · exact (room_nextEvent visit listener s).mono fun _ _ le => by omega
  · have deaf := deaf_of_waitsWith listens waits
    have plain : (Move.enter i memory).room visit.node.children.length s.context =
        1 + (visit.node.children.length - (i + 1)) := by
      cases memory <;> first | rfl | exact absurd rfl (deaf _)
    rw [plain]
    refine ((onward_heed visit listens waits verdict s).and (fits_heed visit waits verdict s)).mono ?_
    rintro move t ⟨onward, fits⟩
    have deaf := deaf_of_fits listens fits
    cases move with
    | enter j memory =>
      obtain ⟨later, inside⟩ := onward
      cases memory <;> first | exact absurd rfl (deaf _) | (simp only [Move.room]; omega)
    | _ => exact Nat.lt_add_right _ Nat.one_pos

/-- Ticks leave no more room than there was. -/
theorem room_mono {ids : List Nat} {count : Nat} (move : Move) {s t : Scene} (effects : Effects ids s t) :
    move.room count t.context ≤ move.room count s.context := by
  cases move with
  | enter i memory =>
    cases memory with
    | mailbox listener => exact Nat.add_le_add_left (effects.queue_length_le listener) 1
    | _ => exact Nat.le_refl _
  | _ => exact Nat.le_refl _

/-- A node has as many turns as it can use. -/
theorem room_le_turns {move : Move} (ctx : Context) (inside : move.Inside visit.node.children.length) :
    move.room visit.node.children.length ctx ≤ turns visit ctx move := by
  cases move with
  | enter i memory =>
    have bound : i < visit.node.children.length := inside
    cases memory <;> simp only [Move.room, turns] <;> omega
  | _ => exact Nat.zero_le _

end

end BehaviorTree.Descent
