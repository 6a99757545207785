import BehaviorTree.Proofs.Event.Orders

/-!
What is done on behalf of one caller, seen by all others. It closes the caller's mailboxes or opens
new ones; the mailboxes of others stay open, though events may come into them, and so does the
listening of an actor that everybody spares.
-/

namespace BehaviorTree.Context

variable {ctx older newer : Context} {caller : Nat}

/-- A wired context has become another one on behalf of a caller. -/
structure Passage (caller : Nat) (older newer : Context) : Prop where
  wired : newer.Wired
  issued : older.bus.issued ≤ newer.bus.issued
  /-- Mailboxes are only opened for new listeners. -/
  grown : ∀ box ∈ newer.mailboxes,
    (∃ before ∈ older.mailboxes, before.listener = box.listener) ∨ older.bus.issued < box.listener
  others : ∀ other, other ≠ caller →
    (newer.boxes other).map Mailbox.emptied = (older.boxes other).map Mailbox.emptied

namespace Passage

theorem refl (wired : ctx.Wired) : Passage caller ctx ctx :=
  ⟨wired, Nat.le_refl _, fun box member => .inl ⟨box, member, rfl⟩, fun _ _ => rfl⟩

/-- Passages can be joined. -/
theorem trans {between : Context} (first : Passage caller older between)
    (second : Passage caller between newer) : Passage caller older newer where
  wired := second.wired
  issued := Nat.le_trans first.issued second.issued
  grown box member := by
    rcases second.grown box member with ⟨before, there, same⟩ | new
    · exact same ▸ first.grown before there
    · exact .inr (Nat.lt_of_le_of_lt first.issued new)
  others other apart := (second.others other apart).trans (first.others other apart)

/-- A listener that has no mailbox gets none. -/
theorem apart (passage : Passage caller older newer) {listener : Nat} (known : listener ≤ older.bus.issued)
    (host : ∀ box ∈ older.mailboxes, box.listener ≠ listener) :
    ∀ box ∈ newer.mailboxes, box.listener ≠ listener := by
  rintro box member rfl
  rcases passage.grown box member with ⟨before, there, same⟩ | new
  · exact host before there same
  · exact absurd known (Nat.not_le.mpr new)

end Passage

/-- What leaves the mailboxes alone is a passage. -/
theorem passage_of_posts (wired : newer.Wired) (issued : older.bus.issued ≤ newer.bus.issued)
    (same : newer.posts = older.posts) : Passage caller older newer where
  wired := wired
  issued := issued
  grown box member := by
    have there : box.emptied ∈ newer.posts := List.mem_map_of_mem member
    rw [same] at there
    obtain ⟨before, member, alike⟩ := List.mem_map.mp there
    exact .inl ⟨before, member, show before.emptied.listener = box.emptied.listener by rw [alike]⟩
  others other _ := map_boxes_of_posts Mailbox.emptied (fun _ => rfl) same other

theorem Stirs.passage (stirs : Stirs older newer) (wired : older.Wired) : Passage caller older newer :=
  passage_of_posts (stirs.wired wired) stirs.issued stirs.posts

/-- Neither the bus nor the mailboxes have changed. -/
theorem passage_of_same (wired : older.Wired) (bus : newer.bus = older.bus)
    (mailboxes : newer.mailboxes = older.mailboxes) : Passage caller older newer :=
  passage_of_posts (wired.congr bus mailboxes) (Nat.le_of_eq (congrArg Bus.issued bus.symm))
    (congrArg (List.map Mailbox.emptied) mailboxes)

theorem passage_of_without (wired : ctx.Wired) {bus : Bus Sink} {gone : Listener Sink → Prop}
    (without : Bus.Without gone ctx.bus bus) : Passage caller ctx { ctx with bus } :=
  passage_of_posts (wired.thin without) (Nat.le_of_eq without.issued.symm) rfl

/-- An actor that gives up a listener of its own passes. -/
theorem passage_unsubscribe (wired : ctx.Wired) {box : Mailbox} (member : box ∈ ctx.mailboxes)
    (own : box.caller = caller) : Passage caller ctx (ctx.unsubscribe box.listener) where
  wired := wired.unsubscribe _
  issued := Nat.le_of_eq (wired.without_unsubscribe member).issued.symm
  grown other there := by
    rw [unsubscribe, wired.mailbox?_eq member] at there
    exact .inl ⟨other, List.mem_of_mem_filter there, rfl⟩
  others other apart :=
    congrArg (List.map Mailbox.emptied) (untouched_unsubscribe wired member (own ▸ apart.symm)).boxes

/-! ### Closing all mailboxes of a caller -/

/-- What one mailbox after another of a caller being closed keeps. -/
theorem unsubscribeAll_keep {K : Context → Prop} {ctx : Context} (wired : ctx.Wired) (caller : Nat)
    (kept : K ctx) (step : ∀ ctx : Context, ctx.Wired → K ctx → ∀ box ∈ ctx.mailboxes,
      box.caller = caller → K (ctx.unsubscribe box.listener)) : K (ctx.unsubscribeAll caller) := by
  have all (boxes : List Mailbox) : ∀ ctx : Context, ctx.Wired → K ctx →
      (∀ box ∈ boxes, box ∈ ctx.mailboxes ∧ box.caller = caller) →
      (boxes.map Mailbox.listener).Nodup → K ((boxes.map Mailbox.listener).foldl Context.unsubscribe ctx) := by
    induction boxes with
    | nil => exact fun _ _ kept _ _ => kept
    | cons box rest ih =>
      intro ctx wired kept own distinct
      obtain ⟨⟨there, mine⟩, later⟩ := List.forall_mem_cons.mp own
      obtain ⟨apart, distinct⟩ := List.nodup_cons.mp distinct
      refine ih _ (wired.unsubscribe _) (step ctx wired kept box there mine) (fun other member => ?_) distinct
      obtain ⟨there', mine'⟩ := later other member
      refine ⟨?_, mine'⟩
      rw [Context.unsubscribe, wired.mailbox?_eq there]
      refine List.mem_filter.mpr ⟨there', decide_eq_true fun same => apart ?_⟩
      exact same ▸ List.mem_map_of_mem member
  exact all _ ctx wired kept (fun box member => mem_boxes.mp member)
    ((List.filter_sublist.map _).nodup wired.apart)

theorem passage_unsubscribeAll (wired : ctx.Wired) (caller : Nat) :
    Passage caller ctx (ctx.unsubscribeAll caller) :=
  unsubscribeAll_keep wired caller (.refl wired) fun _ wired passage _ member own =>
    passage.trans (passage_unsubscribe wired member own)

/-- The context once the mailboxes of these listeners have been closed. -/
def closing (ctx : Context) (ids : List Nat) : Context := ids.foldl unsubscribe ctx

/-- Giving up listeners removes their mailboxes and no others. -/
theorem mailboxes_closing (ids : List Nat) (ctx : Context) :
    (ctx.closing ids).mailboxes = ctx.mailboxes.filter fun box => box.listener ∉ ids := by
  induction ids generalizing ctx with
  | nil => simp [closing]
  | cons id rest ih =>
    rw [closing, List.foldl_cons, ← closing, ih, mailboxes_unsubscribe, List.filter_filter]
    refine List.filter_congr fun box _ => ?_
    simp [Bool.and_comm]

/-- A mailbox that is closed is gone. -/
theorem boxes_unsubscribeAll (ctx : Context) (caller : Nat) : (ctx.unsubscribeAll caller).boxes caller = [] := by
  have closed : (ctx.unsubscribeAll caller).mailboxes =
      ctx.mailboxes.filter fun box => box.listener ∉ (ctx.boxes caller).map Mailbox.listener :=
    mailboxes_closing _ ctx
  rw [boxes, closed, List.filter_filter, List.filter_eq_nil_iff]
  intro box member
  simpa using fun own : box.caller = caller => ⟨box, mem_boxes.mpr ⟨member, own⟩, rfl⟩

/-! ### Actors that everybody spares -/

theorem attended_of_boxes_nil (none : ctx.boxes caller = []) : Attended caller ctx := by
  intro box member own
  have there : box ∈ ctx.boxes caller := mem_boxes.mpr ⟨member, own⟩
  rw [none] at there
  cases there

variable {name : String} {spared : Option Nat}

theorem Spared.unsubscribe (kept : Spared name spared ctx) {box : Mailbox} (member : box ∈ ctx.mailboxes) :
    Spared name spared (ctx.unsubscribe box.listener) := by
  obtain ⟨wired, heeds, attended, known⟩ := kept
  refine ⟨wired.unsubscribe _, heeds.without (wired.without_unsubscribe member),
    fun c inside other there own => ?_, ?_⟩
  · rw [Context.unsubscribe, wired.mailbox?_eq member] at there ⊢
    obtain ⟨there, apart⟩ := List.mem_filter.mp there
    exact (Bus.without_offListener ctx.bus box.listener box.event box.target).mem
      (attended c inside other there own) (of_decide_eq_true apart)
  · rw [Context.unsubscribe, wired.mailbox?_eq member]
    exact known

theorem Spared.unsubscribeAll (kept : Spared name spared ctx) (caller : Nat) :
    Spared name spared (ctx.unsubscribeAll caller) :=
  unsubscribeAll_keep kept.wired caller kept fun _ _ kept _ member _ => kept.unsubscribe member

end BehaviorTree.Context
