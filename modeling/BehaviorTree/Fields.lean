/-!
Named entries in the order of their names: the members of an object, the arguments of a node, the
variables of an actor. `get?` is the view that the other operations are described by.
-/

namespace BehaviorTree

/-- Entries with their names; `set` keeps the names strictly increasing. -/
abbrev Fields (α : Type) := List (String × α)

namespace Fields

variable {α : Type}

/-- The value of a name, the first if there were several. -/
def get? : Fields α → String → Option α
  | [], _ => none
  | (name, value) :: rest, key => if name = key then some value else get? rest key

/-- Writes the entry at its place in the order, over a former one of that name. -/
def set : Fields α → String → α → Fields α
  | [], key, value => [(key, value)]
  | (name, old) :: rest, key, value =>
    if name = key then (key, value) :: rest
    else if key < name then (key, value) :: (name, old) :: rest
    else (name, old) :: set rest key value

/-- Removes a name. -/
def erase (fields : Fields α) (key : String) : Fields α :=
  fields.filter fun entry => entry.1 ≠ key

/-- Whether a name has a value. -/
def contains (fields : Fields α) (key : String) : Bool := (fields.get? key).isSome

def names (fields : Fields α) : List String := fields.map Prod.fst

/-- The entries of a list, the last one of a name counting. -/
def ofList (entries : List (String × α)) : Fields α :=
  entries.foldl (fun fields entry => set fields entry.1 entry.2) []

@[simp] theorem get?_nil (key : String) : get? ([] : Fields α) key = none := rfl

/-- Writing one name changes what that name has and nothing else. -/
theorem get?_set (fields : Fields α) (key other : String) (value : α) :
    (fields.set key value).get? other = if key = other then some value else fields.get? other := by
  induction fields with
  | nil => rfl
  | cons entry rest ih =>
    obtain ⟨name, old⟩ := entry
    simp only [set]
    split
    · simp only [get?]; grind
    · split
      · simp only [get?]
      · simp only [get?, ih]; grind

/-- A filter that goes by the name takes away whole names. -/
theorem get?_filter (fields : Fields α) (keep : String → Bool) (key : String) :
    Fields.get? (fields.filter fun entry => keep entry.1) key = if keep key then fields.get? key else none := by
  induction fields with
  | nil => simp
  | cons entry rest ih =>
    obtain ⟨name, old⟩ := entry
    rw [List.filter_cons]
    split <;> simp only [get?, ih] <;> grind

end Fields
end BehaviorTree
