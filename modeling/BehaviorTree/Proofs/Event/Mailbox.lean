import BehaviorTree.Context

/-!
What each operation on mailboxes does to the events that wait in one of them. A queue is only
lengthened by an event that is delivered, and only shortened when an event is taken or the mailbox
is closed.
-/

namespace BehaviorTree.Context

variable (ctx : Context)

theorem mailbox?_updateMailbox (id other : Nat) (update : List (List Value) → List (List Value)) :
    (ctx.updateMailbox id update).mailbox? other = (ctx.mailbox? other).map fun box =>
      if box.listener = id then { box with queue := update box.queue } else box := by
  simp only [mailbox?, updateMailbox, List.find?_map]
  congr 1
  congr 1
  funext box
  simp only [Function.comp]
  split <;> rfl

/-- Changing one queue leaves the others alone. -/
theorem queue_updateMailbox (id other : Nat) (update : List (List Value) → List (List Value))
    (keeps : update [] = [] ∨ (ctx.mailbox? id).isSome) :
    (ctx.updateMailbox id update).queue other =
      if other = id then update (ctx.queue other) else ctx.queue other := by
  simp only [queue, mailbox?_updateMailbox]
  rcases h : ctx.mailbox? other with _ | box
  · split
    · rename_i same
      subst same
      simpa [h] using keeps
    · rfl
  · have named : box.listener = other := by
      simpa using List.find?_some h
    simp only [Option.map_some, Option.getD_some, named]
    split <;> rfl

/-- Other mailboxes are left alone. -/
theorem queue_updateMailbox_of_ne {id other : Nat} (ne : other ≠ id)
    (update : List (List Value) → List (List Value)) :
    (ctx.updateMailbox id update).queue other = ctx.queue other := by
  simp only [queue, mailbox?_updateMailbox]
  rcases h : ctx.mailbox? other with _ | box
  · rfl
  · have named : box.listener = other := by
      simpa using List.find?_some h
    simp only [Option.map_some, Option.getD_some, named, if_neg ne]

@[simp] theorem queue_subscribe (event : String) (target : Target) (caller other : Nat) :
    (ctx.subscribe event target caller).2.queue other = ctx.queue other := by
  simp only [queue, mailbox?, subscribe, List.find?_append]
  rcases h : List.find? (fun box => decide (box.listener = other)) ctx.mailboxes with _ | box
  · rw [h, Option.none_or, List.find?_cons]
    split <;> rfl
  · rw [h, Option.some_or]

/-- Giving up a listener empties its queue and no other. -/
theorem queue_unsubscribe (id other : Nat) :
    (ctx.unsubscribe id).queue other = if other = id then [] else ctx.queue other := by
  unfold unsubscribe
  rcases closed : ctx.mailbox? id with _ | box
  · simp only
    split
    · rename_i same
      rw [same, queue, closed]
      rfl
    · rfl
  · simp only [queue, mailbox?, List.find?_filter]
    split
    · rename_i same
      subst same
      have gone : (ctx.mailboxes.find? fun b =>
          decide (b.listener ≠ other) && decide (b.listener = other)) = none := by
        rw [List.find?_eq_none]
        intro b _
        by_cases h : b.listener = other <;> simp [h]
      simpa using congrArg (fun found => (found.map Mailbox.queue).getD []) gone
    · rename_i different
      congr 2
      congr 1
      funext b
      by_cases h : b.listener = other
      · simp [h, different]
      · simp [h]

theorem isSome_mailbox?_of_queue {id : Nat} (h : ctx.queue id ≠ []) : (ctx.mailbox? id).isSome := by
  rcases found : ctx.mailbox? id with _ | box
  · exact absurd (by rw [queue, found]; rfl) h
  · rfl

/-- A mailbox that an event is taken from holds the others. -/
theorem queue_take {id : Nat} {event : List Value} {rest : List (List Value)}
    (waiting : ctx.queue id = event :: rest) : (ctx.updateMailbox id fun _ => rest).queue id = rest := by
  have mailbox := ctx.isSome_mailbox?_of_queue (by rw [waiting]; exact List.cons_ne_nil _ _)
  rw [queue_updateMailbox _ _ _ _ (.inr mailbox), if_pos rfl]

end BehaviorTree.Context
