/-!
Computations that carry a state along and can fail. A computation leads from one state to another
whether it fails or not; if it returns, each of its parts has returned. What decides whether it returns is put
together from what decides it for the parts.
-/

namespace BehaviorTree

variable {ε σ α β : Type}

/-- A computation returns a value and leaves a state. -/
def Returns (x : ExceptT ε (StateM σ) α) (s : σ) (a : α) (t : σ) : Prop := x.run.run s = (.ok a, t)

/-- A computation raises an error, whatever state it leaves. -/
def Raises (x : ExceptT ε (StateM σ) α) (s : σ) (error : ε) : Prop := (x.run.run s).1 = .error error

/-- However a computation ends, the state that it leaves is so related to the one it began with. -/
def Leads (R : σ → σ → Prop) (x : ExceptT ε (StateM σ) α) : Prop := ∀ s, R s (x.run.run s).2

section

variable {x : ExceptT ε (StateM σ) α} {f : α → ExceptT ε (StateM σ) β} {s t u : σ}

theorem run_bind_eq : (x >>= f).run.run s =
    match x.run.run s with
    | (.ok a, t) => (f a).run.run t
    | (.error error, t) => (.error error, t) := by
  have split : (x >>= f).run.run s = (ExceptT.bindCont f (x.run.run s).1).run (x.run.run s).2 := rfl
  rw [split]
  rcases x.run.run s with ⟨_ | _, _⟩ <;> rfl

theorem Returns.bind {a : α} {b : β} (first : Returns x s a t) (next : Returns (f a) t b u) : Returns (x >>= f) s b u := by
  rw [Returns, run_bind_eq, first]
  exact next

/-- What returns has returned from its parts. -/
theorem returns_bind {b : β} (h : Returns (x >>= f) s b t) :
    ∃ a u, Returns x s a u ∧ Returns (f a) u b t := by
  rw [Returns, run_bind_eq] at h
  rcases first : x.run.run s with ⟨error | a, u⟩
  · rw [first] at h
    cases h
  · rw [first] at h
    exact ⟨a, u, first, h⟩

/-- What raises an error has raised it in one of its parts. -/
theorem raises_bind {error : ε} (h : Raises (x >>= f) s error) :
    Raises x s error ∨ ∃ a u, Returns x s a u ∧ Raises (f a) u error := by
  rw [Raises, run_bind_eq] at h
  rcases first : x.run.run s with ⟨error' | a, u⟩
  · rw [first] at h
    cases h
    exact .inl (congrArg Prod.fst first)
  · rw [first] at h
    exact .inr ⟨a, u, first, h⟩

theorem returns_pure {a b : α} (h : Returns (pure a : ExceptT ε (StateM σ) α) s b t) :
    b = a ∧ t = s := by
  cases h
  exact ⟨rfl, rfl⟩

theorem not_returns_throw {error : ε} {a : α}
    (h : Returns (throw error : ExceptT ε (StateM σ) α) s a t) : False := by
  cases h

variable {R : σ → σ → Prop}

theorem Leads.of_returns {a : α} (h : Leads R x) (returns : Returns x s a t) : R s t := by
  have led := h s
  rw [show x.run.run s = (.ok a, t) from returns] at led
  exact led

/-- What holds of the parts holds of the whole, if it can be chained. -/
theorem leads_bind (trans : ∀ {s t u}, R s t → R t u → R s u) (hx : Leads R x)
    (hf : ∀ a, Leads R (f a)) : Leads R (x >>= f) := by
  intro s
  have first := hx s
  rw [run_bind_eq]
  rcases done : x.run.run s with ⟨error | a, t⟩
  · rw [done] at first
    exact first
  · rw [done] at first
    exact trans first (hf a t)

end

/-! ### What decides whether a computation returns -/

/-- Begun with a state of that sort, a computation returns exactly if the proposition holds; and it leaves such
a state however it ends. -/
structure Decides (I : σ → Prop) (x : ExceptT ε (StateM σ) α) (P : Prop) : Prop where
  keeps : ∀ s, I s → I (x.run.run s).2
  returns : ∀ s, I s → ((∃ a t, Returns x s a t) ↔ P)

section

variable {I : σ → Prop} {x : ExceptT ε (StateM σ) α} {f : α → ExceptT ε (StateM σ) β} {P Q : Prop}

theorem Decides.of_iff (h : Decides I x P) (same : P ↔ Q) : Decides I x Q :=
  ⟨h.keeps, fun s sort => (h.returns s sort).trans same⟩

theorem decides_pure (a : α) : Decides I (pure a : ExceptT ε (StateM σ) α) True :=
  ⟨fun _ sort => sort, fun s _ => iff_of_true ⟨a, s, rfl⟩ trivial⟩

theorem decides_throw (error : ε) : Decides I (throw error : ExceptT ε (StateM σ) α) False :=
  ⟨fun _ sort => sort, fun _ _ => iff_of_false (fun ⟨_, _, returned⟩ => not_returns_throw returned) id⟩

/-- The second part is only asked about what the first one returns. -/
theorem decides_bind (hx : Decides I x P) (hf : ∀ s a t, I s → Returns x s a t → Decides I (f a) Q) :
    Decides I (x >>= f) (P ∧ Q) := by
  refine ⟨fun s sort => ?_, fun s sort => ?_⟩
  · have kept := hx.keeps s sort
    rw [run_bind_eq]
    rcases first : x.run.run s with ⟨error | a, t⟩ <;> rw [first] at kept
    · exact kept
    · exact (hf s a t sort first).keeps t kept
  · have kept := hx.keeps s sort
    constructor
    · rintro ⟨b, u, returned⟩
      obtain ⟨a, t, first, second⟩ := returns_bind returned
      rw [show x.run.run s = (.ok a, t) from first] at kept
      exact ⟨(hx.returns s sort).mp ⟨a, t, first⟩, ((hf s a t sort first).returns t kept).mp ⟨b, u, second⟩⟩
    · rintro ⟨p, q⟩
      obtain ⟨a, t, first⟩ := (hx.returns s sort).mpr p
      rw [show x.run.run s = (.ok a, t) from first] at kept
      obtain ⟨b, u, second⟩ := ((hf s a t sort first).returns t kept).mpr q
      refine ⟨b, u, ?_⟩
      rw [Returns, run_bind_eq, show x.run.run s = (.ok a, t) from first]
      exact second

/-- Checking all items decides whether all of them hold. -/
theorem decides_forM {γ : Type} {check : γ → ExceptT ε (StateM σ) PUnit} {holds : γ → Prop} {items : List γ}
    (each : ∀ item ∈ items, Decides I (check item) (holds item)) :
    Decides I (items.forM check) (∀ item ∈ items, holds item) := by
  induction items with
  | nil => exact (decides_pure _).of_iff (by simp)
  | cons item rest ih =>
    have first := each item List.mem_cons_self
    have others := ih fun other member => each other (List.mem_cons_of_mem _ member)
    exact (decides_bind first fun _ _ _ _ _ => others).of_iff List.forall_mem_cons.symm

end

end BehaviorTree
