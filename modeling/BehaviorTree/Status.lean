/-!
Outcomes. A node that completes has a verdict; a tick of a node may also leave it running. A
whole tree is moreover idle before its first run and interrupted when its run was abandoned.
-/

namespace BehaviorTree

/-- How a node completed. -/
inductive Verdict where
  | success
  | failure
deriving DecidableEq, Repr

/-- What a tick of a node reported. -/
inductive Status where
  | success
  | failure
  | running
deriving DecidableEq, Repr

/-- State of a whole tree between runs. -/
inductive TreeStatus where
  | idle
  | success
  | failure
  | running
  | interrupted
deriving DecidableEq, Repr

namespace Verdict

/-- A test that passes is a success. -/
def ofBool (pass : Bool) : Verdict := if pass then success else failure

/-- The opposite verdict. -/
def invert : Verdict → Verdict
  | success => failure
  | failure => success

/-- The status of a node that has completed. -/
def status : Verdict → Status
  | success => .success
  | failure => .failure

/-- The status of a tree that has completed. -/
def treeStatus : Verdict → TreeStatus
  | success => .success
  | failure => .failure

@[simp] theorem invert_invert (v : Verdict) : v.invert.invert = v := by cases v <;> rfl

end Verdict

namespace Status

def name : Status → String
  | success => "success"
  | failure => "failure"
  | running => "running"

/-- The status of a name. -/
def ofName? (name : String) : Option Status :=
  if name = "success" then some success
  else if name = "failure" then some failure
  else if name = "running" then some running
  else none

/-- The verdict of a status that is not running. -/
def verdict? : Status → Option Verdict
  | success => some .success
  | failure => some .failure
  | running => none

@[simp] theorem ofName?_name (s : Status) : ofName? s.name = some s := by cases s <;> rfl

@[simp] theorem verdict?_status (v : Verdict) : verdict? v.status = some v := by cases v <;> rfl

end Status

def TreeStatus.name : TreeStatus → String
  | .idle => "idle"
  | .success => "success"
  | .failure => "failure"
  | .running => "running"
  | .interrupted => "interrupted"

end BehaviorTree
