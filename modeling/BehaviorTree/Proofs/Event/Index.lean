import BehaviorTree.Index
import Mathlib.Data.List.Nodup

/-!
Tables in which every key stands once. Such a table holds exactly what can be looked up in it, and
it stays such a table whatever is put into it or removed from it. Relabelling the keys and the
values of a table goes along with all of its operations.
-/

namespace BehaviorTree.Index

variable {κ α : Type} [DecidableEq κ]

/-- No key stands twice. -/
def Distinct (index : Index κ α) : Prop := (index.map Prod.fst).Nodup

variable {index : Index κ α} {k : κ} {v : α}

theorem mem_of_at? (found : at? index k = some v) : (k, v) ∈ index := by
  induction index with
  | nil => cases found
  | cons entry rest ih =>
    obtain ⟨key, value⟩ := entry
    simp only [at?] at found
    split at found
    · rename_i same
      cases found
      rw [same]
      exact List.mem_cons_self
    · exact List.mem_cons_of_mem _ (ih found)

/-- Where no key comes twice, an entry is found under its key. -/
theorem at?_of_mem (distinct : Distinct index) (member : (k, v) ∈ index) : at? index k = some v := by
  induction index with
  | nil => exact absurd member List.not_mem_nil
  | cons entry rest ih =>
    obtain ⟨key, value⟩ := entry
    rw [Distinct, List.map_cons, List.nodup_cons] at distinct
    simp only [at?]
    rcases List.mem_cons.mp member with same | member
    · cases same
      rw [if_pos rfl]
    · rw [if_neg fun same => distinct.1 ?_]
      · exact ih distinct.2 member
      · exact List.mem_map.mpr ⟨(k, v), member, same.symm⟩

/-- What is found in a list of a table, which may be missing, stands in the table. -/
theorem mem_of_mem_getD {lists : Index κ (List α)} {a : α} (member : a ∈ (at? lists k).getD []) :
    ∃ items, (k, items) ∈ lists ∧ a ∈ items := by
  rcases found : at? lists k with _ | items
  · rw [found] at member
    exact absurd member List.not_mem_nil
  · rw [found] at member
    exact ⟨items, mem_of_at? found, member⟩

/-- What is in a table after something has been put in. -/
theorem mem_put {entry : κ × α} (member : entry ∈ put index k v) : entry = (k, v) ∨ entry ∈ index := by
  induction index with
  | nil => exact .inl (List.mem_singleton.mp member)
  | cons first rest ih =>
    simp only [put] at member
    split at member
    · rcases List.mem_cons.mp member with same | member
      · exact .inl same
      · exact .inr (List.mem_cons_of_mem _ member)
    · rcases List.mem_cons.mp member with same | member
      · rw [same]
        exact .inr List.mem_cons_self
      · exact (ih member).imp_right (List.mem_cons_of_mem _)

theorem mem_remove {entry : κ × α} (member : entry ∈ remove index k) :
    entry ∈ index ∧ entry.1 ≠ k := by
  obtain ⟨member, other⟩ := List.mem_filter.mp member
  exact ⟨member, of_decide_eq_true other⟩

theorem distinct_put (distinct : Distinct index) (k : κ) (v : α) : Distinct (put index k v) := by
  induction index with
  | nil => exact List.nodup_cons.mpr ⟨List.not_mem_nil, .nil⟩
  | cons first rest ih =>
    rw [Distinct, List.map_cons, List.nodup_cons] at distinct
    simp only [put]
    split
    · rename_i same
      rw [Distinct, List.map_cons, List.nodup_cons, ← same]
      exact distinct
    · rename_i other
      rw [Distinct, List.map_cons, List.nodup_cons]
      refine ⟨fun member => ?_, ih distinct.2⟩
      obtain ⟨entry, member, key⟩ := List.mem_map.mp member
      rcases mem_put member with same | member
      · rw [same] at key
        exact other key.symm
      · exact distinct.1 (List.mem_map.mpr ⟨entry, member, key⟩)

theorem distinct_remove (distinct : Distinct index) (k : κ) : Distinct (remove index k) :=
  distinct.sublist (List.filter_sublist.map Prod.fst)

theorem remove_of_none (none : at? index k = none) : remove index k = index := by
  refine List.filter_eq_self.mpr fun entry member => decide_eq_true fun same => ?_
  induction index with
  | nil => exact absurd member List.not_mem_nil
  | cons first rest ih =>
    obtain ⟨key, value⟩ := first
    simp only [at?] at none
    split at none
    · cases none
    · rename_i other
      rcases List.mem_cons.mp member with rfl | member
      · exact other same
      · exact ih none member

theorem put_of_none (none : at? index k = none) (v : α) : put index k v = index ++ [(k, v)] := by
  induction index with
  | nil => rfl
  | cons first rest ih =>
    obtain ⟨key, value⟩ := first
    simp only [at?] at none
    split at none
    · cases none
    · rename_i other
      rw [put, if_neg other, ih none]
      rfl

omit [DecidableEq κ] in
/-- What is listed under several keys is listed twice nowhere if it tells its key. -/
theorem nodup_flatMap {β : Type} {f : α → List β} (distinct : Distinct index)
    (each : ∀ entry ∈ index, (f entry.2).Nodup)
    (keyed : ∀ entry ∈ index, ∀ other ∈ index, ∀ b ∈ f entry.2, b ∈ f other.2 → entry.1 = other.1) :
    (index.flatMap fun entry => f entry.2).Nodup := by
  refine List.nodup_flatMap.mpr ⟨each, ?_⟩
  refine (List.pairwise_map.mp distinct).imp_of_mem fun first second apart => ?_
  exact List.disjoint_left.mpr fun b here there => apart (keyed _ first _ second b here there)

/-! ### Relabelled tables -/

section

variable {κ' α' : Type} [DecidableEq κ'] {f : κ → κ'}

/-- A table with other keys and values. -/
def relabel (f : κ → κ') (g : α → α') (index : Index κ α) : Index κ' α' :=
  index.map fun entry => (f entry.1, g entry.2)

/-- Relabelled entries are found under the new keys. -/
theorem at?_relabel (inj : Function.Injective f) (g : α → α') (index : Index κ α) (k : κ) :
    at? (relabel f g index) (f k) = (at? index k).map g := by
  induction index with
  | nil => rfl
  | cons entry rest ih =>
    simp only [relabel, List.map_cons, at?, inj.eq_iff] at ih ⊢
    split
    · rfl
    · exact ih

/-- Relabelling goes along with putting. -/
theorem relabel_put (inj : Function.Injective f) (g : α → α') (index : Index κ α) (k : κ) (v : α) :
    relabel f g (put index k v) = put (relabel f g index) (f k) (g v) := by
  induction index with
  | nil => rfl
  | cons entry rest ih =>
    simp only [relabel, List.map_cons, put, inj.eq_iff] at ih ⊢
    split
    · rfl
    · rw [List.map_cons, ih]

theorem relabel_remove (inj : Function.Injective f) (g : α → α') (index : Index κ α) (k : κ) :
    relabel f g (remove index k) = remove (relabel f g index) (f k) := by
  simp only [relabel, remove, List.filter_map]
  congr 2
  funext entry
  simp only [Function.comp, ne_eq, inj.eq_iff]

omit [DecidableEq κ] [DecidableEq κ'] in
theorem isEmpty_relabel (g : α → α') (index : Index κ α) :
    (relabel f g index).isEmpty = index.isEmpty := List.isEmpty_map

omit [DecidableEq κ'] in
/-- Replacing a value by one that goes by the same label. -/
theorem relabel_put_of_at? (g : α → α') {w : α} (found : at? index k = some w) (same : g v = g w) :
    relabel f g (put index k v) = relabel f g index := by
  induction index with
  | nil => cases found
  | cons entry rest ih =>
    obtain ⟨key, value⟩ := entry
    simp only [at?] at found
    simp only [put]
    split at found
    · rename_i here
      cases found
      rw [if_pos here, ← here]
      exact congrArg (fun a => (f key, a) :: relabel f g rest) same
    · rename_i other
      rw [if_neg other]
      exact congrArg (List.cons (f key, g value)) (ih found)

end

omit [DecidableEq κ] in
theorem relabel_eq_self {f : κ → κ} {g : α → α}
    (fixed : ∀ entry ∈ index, f entry.1 = entry.1 ∧ g entry.2 = entry.2) : relabel f g index = index := by
  refine (List.map_congr_left fun entry member => ?_).trans (List.map_id index)
  exact Prod.ext (fixed entry member).1 (fixed entry member).2

/-- When all values but one stay as they are, relabelling is replacing that one. -/
theorem relabel_eq_put {g : α → α} (distinct : Distinct index) (found : at? index k = some v)
    (others : ∀ entry ∈ index, entry.1 ≠ k → g entry.2 = entry.2) :
    relabel id g index = put index k (g v) := by
  induction index with
  | nil => cases found
  | cons entry rest ih =>
    obtain ⟨key, value⟩ := entry
    rw [Distinct, List.map_cons, List.nodup_cons] at distinct
    simp only [at?] at found
    simp only [put]
    split at found
    · rename_i here
      cases found
      rw [if_pos here, ← here]
      refine congrArg (List.cons (key, g v)) (relabel_eq_self fun entry member => ⟨rfl, ?_⟩)
      refine others entry (List.mem_cons_of_mem _ member) fun same => distinct.1 ?_
      rw [here]
      exact List.mem_map.mpr ⟨entry, member, same⟩
    · rename_i other
      rw [if_neg other, ← ih distinct.2 found fun entry member =>
        others entry (List.mem_cons_of_mem _ member)]
      exact congrArg (fun a => (key, a) :: relabel id g rest) (others _ List.mem_cons_self other)

end BehaviorTree.Index
