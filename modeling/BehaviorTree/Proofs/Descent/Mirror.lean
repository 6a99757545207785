import BehaviorTree.Proofs.Descent.Keeping
import BehaviorTree.Proofs.Event.Mirror

/-!
Ticks for one and the same actor in two contexts where its caller finds the same. Both ticks go the
same way and leave the contexts alike. Listeners are numbered in each context as they come, so those
that are opened meanwhile go by other ids as well.
-/

namespace BehaviorTree.Descent

open Context (Mirrors)

/-- Listeners that were there before are renamed; new ones are numbered on from other ids. -/
def renumber (f : Nat → Nat) (before before' id : Nat) : Nat :=
  if id ≤ before then f id else id - before + before'

theorem renumber_of_le {f : Nat → Nat} {before before' id : Nat} (known : id ≤ before) :
    renumber f before before' id = f id := if_pos known

/-- Two ticks that have begun in contexts where the caller finds the same. -/
structure Mirrored (f : Nat → Nat) (caller : Nat) (start start' : Context) (H : Multiset Hold) (log : List Call)
    (s t : Scene) : Prop where
  keeps : Keeps caller start H log s
  wired : t.context.Wired
  actor : t.actor = s.actor
  mirrors : Mirrors caller (renumber f start.bus.issued start'.bus.issued) s.context t.context
  issued : s.context.bus.issued + start'.bus.issued = t.context.bus.issued + start.bus.issued

namespace Mirrored

variable {f : Nat → Nat} {caller : Nat} {start start' : Context} {H : Multiset Hold} {log : List Call}
  {s t : Scene}

/-- At the beginning of a run the scenes mirror each other. -/
theorem begin (keeps : Keeps caller s.context H log s) (wired : t.context.Wired) (actor : t.actor = s.actor)
    (mirrors : Mirrors caller f s.context t.context) : Mirrored f caller s.context t.context H log s t where
  keeps := keeps
  wired := wired
  actor := actor
  mirrors := mirrors.congr fun box member =>
    renumber_of_le (keeps.wired.opened box (Context.mem_boxes.mp member).1)
  issued := Nat.add_comm _ _

/-- The number of the next listener. -/
theorem next (mirrored : Mirrored f caller start start' H log s t) :
    t.context.bus.issued + 1 = renumber f start.bus.issued start'.bus.issued (s.context.bus.issued + 1) := by
  have fresh : ¬ s.context.bus.issued + 1 ≤ start.bus.issued := Nat.not_le.mpr (Nat.lt_succ_of_le mirrored.keeps.issued)
  have issued := mirrored.issued
  rw [renumber, if_neg fresh]
  omega

/-- A listener that is held has a mailbox of the caller. -/
theorem box_of_held {h : Hold} (mirrored : Mirrored f caller start start' (h ::ₘ H) log s t) :
    ∃ box ∈ s.context.boxes caller, box.listener = h.listener := by
  obtain ⟨box, there, named, own⟩ := mirrored.keeps.box_of_held
  exact ⟨box, Context.mem_boxes.mpr ⟨there, own⟩, named⟩

end Mirrored

/-- Scenes that mirror each other are paired through a whole tick. -/
theorem pairing_mirrored (f : Nat → Nat) (caller : Nat) (start start' : Context) :
    Pairing (renumber f start.bus.issued start'.bus.issued) (Mirrored f caller start start') where
  alike mirrored :=
    ⟨by rw [mirrored.actor], by rw [mirrored.actor], by rw [mirrored.actor], by rw [mirrored.actor],
      mirrored.mirrors.clock, mirrored.mirrors.cache⟩
  queue mirrored := by
    obtain ⟨box, member, named⟩ := mirrored.box_of_held
    rw [← named]
    exact mirrored.mirrors.queue_eq mirrored.wired mirrored.keeps.wired member
  next mirrored := mirrored.next
  recast vars completed last mirrored :=
    { mirrored with
      keeps := (invariant_keeps caller start).recast vars completed last mirrored.keeps
      actor := congrArg (Actor.recast vars completed last) mirrored.actor }
  note n mirrored :=
    { mirrored with
      keeps := (invariant_keeps caller start).note n mirrored.keeps
      wired := mirrored.wired.congr rfl rfl
      mirrors := mirrored.mirrors.note n }
  noteDebug {H log s t} n mirrored := by
    have keeps := (invariant_keeps caller start).noteDebug n mirrored.keeps
    unfold Scene.noteDebug at keeps ⊢
    rw [mirrored.actor]
    by_cases debug : s.actor.debug = true
    · rw [if_pos debug] at keeps
      rw [if_pos debug, if_pos debug]
      exact ⟨keeps, mirrored.wired.congr rfl rfl, mirrored.actor, mirrored.mirrors.note n, mirrored.issued⟩
    · rw [if_neg debug, if_neg debug]
      exact mirrored
  compile code mirrored :=
    { mirrored with
      keeps := (invariant_keeps caller start).compile code mirrored.keeps
      wired := mirrored.wired.congr rfl rfl
      mirrors := mirrored.mirrors.compile code }
  call mirrored other := { mirrored with keeps := (invariant_keeps caller start).call mirrored.keeps other }
  unheard mirrored := (invariant_keeps caller start).unheard mirrored.keeps
  subscribe {H log s t call} mirrored logged fresh listens actor bus := by
    have own : s.actor.caller = caller := mirrored.keeps.acting
    have own' : t.actor.caller = caller := by rw [mirrored.actor, own]
    -- The new listener is the next one on both sides, and the renumbering takes one to the other.
    have both := mirrored.mirrors.subscribe mirrored.keeps.wired mirrored.wired call.node.event
      (call.node.audience s.actor) mirrored.next.symm
    refine ⟨(invariant_keeps caller start).subscribe mirrored.keeps logged fresh listens actor bus,
      mirrored.wired.subscribe _ _ _, mirrored.actor, ?_, ?_⟩
    · rw [Scene.subscribe, Scene.subscribe, own, own']
      exact both
    · have issued := mirrored.issued
      have grown : (s.subscribe call.node.event (call.node.audience s.actor)).context.bus.issued =
        s.context.bus.issued + 1 := rfl
      have grown' : (t.subscribe call.node.event (call.node.audience s.actor)).context.bus.issued =
        t.context.bus.issued + 1 := rfl
      omega
  accept {node listener stance H log s t args rest call} mirrored again waiting fresh heard before entered := by
    obtain ⟨box, member, named⟩ := mirrored.box_of_held
    obtain ⟨vars, written⟩ := Actor.writeArguments_eq node args
    have taken := mirrored.mirrors.updateMailbox mirrored.wired member fun _ => rest
    rw [named] at taken
    have actor : (handed node (renumber f start.bus.issued start'.bus.issued listener) args rest t).actor =
        (handed node listener args rest s).actor := congrArg (fun actor => actor.writeArguments node args) mirrored.actor
    have wired : (handed node (renumber f start.bus.issued start'.bus.issued listener) args rest t).context.Wired :=
      mirrored.wired.updateMailbox (renumber f start.bus.issued start'.bus.issued listener) fun _ => rest
    exact ⟨(invariant_keeps caller start).accept mirrored.keeps again waiting fresh heard before entered, wired, actor,
      taken, mirrored.issued⟩
  settle mirrored again nothing :=
    { mirrored with keeps := (invariant_keeps caller start).settle mirrored.keeps again nothing }
  unsubscribe {h H log s t} mirrored := by
    obtain ⟨box, member, named⟩ := mirrored.box_of_held
    have closed := mirrored.mirrors.unsubscribe mirrored.wired mirrored.keeps.wired member
    rw [named] at closed
    refine ⟨(invariant_keeps caller start).unsubscribe mirrored.keeps, mirrored.wired.unsubscribe _, mirrored.actor,
      closed, ?_⟩
    have issued := (s.context.without_bus_unsubscribe h.listener).issued
    have issued' := (t.context.without_bus_unsubscribe
      (renumber f start.bus.issued start'.bus.issued h.listener)).issued
    exact (congrArg (· + _) issued).trans (mirrored.issued.trans (congrArg (· + _) issued'.symm))

/-- Both ticks end in the same way, whichever that is. -/
theorem mirrored_tick {f : Nat → Nat} {caller : Nat} {start start' : Context} {H : Multiset Hold}
    {log : List Call} {t : Scene} (call : Call) (shaped : call.node.Every Node.Shaped)
    (sound : ∀ state ∈ call.state, Sound [] call.node state) (logged : call ∈ log)
    (mirrored : Mirrored f caller start start' (H + holdsBefore call.node call.state) log call.scene t) :
    ∃ result s' t' H log,
      (tick call.node call.state call.path).play call.scene = (result, s') ∧
      (tick call.node (call.state.map (Active.rename (renumber f start.bus.issued start'.bus.issued)))
          call.path).play t =
        (result.map (Report.rename (renumber f start.bus.issued start'.bus.issued)), t') ∧
      Mirrored f caller start start' H log s' t' := by
  have ticked := paired_tick (pairing_mirrored f caller start start') call.node shaped call H log t rfl sound logged
    mirrored
  unfold TickM.Abreast at ticked
  generalize (tick call.node call.state call.path).play call.scene = left at ticked ⊢
  generalize (tick call.node _ call.path).play t = right at ticked ⊢
  cases ticked with
  | values related => exact ⟨_, _, _, _, _, rfl, by rw [related.1]; rfl, related.2⟩
  | faults fault related =>
    obtain ⟨more, mirrored⟩ := related
    exact ⟨.error fault, _, _, _, _, rfl, rfl, mirrored⟩

end BehaviorTree.Descent
