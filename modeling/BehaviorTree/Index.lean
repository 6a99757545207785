/-!
Tables from keys to values, in the order in which the keys came. `at?` is the view that the other
operations are described by.
-/

namespace BehaviorTree

/-- Entries in the order in which their keys came up. -/
abbrev Index (κ α : Type) := List (κ × α)

namespace Index

variable {κ α : Type} [DecidableEq κ]

/-- The value of a key, the first if there were several. -/
def at? : Index κ α → κ → Option α
  | [], _ => none
  | (key, value) :: rest, k => if key = k then some value else at? rest k

/-- Replaces the value of the key where it stands, or adds the key at the end. -/
def put : Index κ α → κ → α → Index κ α
  | [], k, v => [(k, v)]
  | (key, value) :: rest, k, v =>
    if key = k then (k, v) :: rest else (key, value) :: put rest k v

/-- Removes a key. -/
def remove (index : Index κ α) (k : κ) : Index κ α := index.filter fun entry => entry.1 ≠ k

/-- Putting one key changes what that key has and nothing else. -/
theorem at?_put (index : Index κ α) (k other : κ) (v : α) :
    at? (put index k v) other = if k = other then some v else at? index other := by
  induction index with
  | nil => rfl
  | cons entry rest ih =>
    obtain ⟨key, value⟩ := entry
    simp only [put]
    split <;> simp only [at?, ih] <;> grind

/-- Removing one key changes what that key has and nothing else. -/
theorem at?_remove (index : Index κ α) (k other : κ) :
    at? (remove index k) other = if k = other then none else at? index other := by
  induction index with
  | nil => simp [remove, at?]
  | cons entry rest ih =>
    obtain ⟨key, value⟩ := entry
    simp only [remove] at ih
    simp only [remove, List.filter_cons]
    split <;> simp only [at?, ih] <;> grind

end Index
end BehaviorTree
