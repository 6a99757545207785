import BehaviorTree.Session.Basic
import BehaviorTree.Value.Parse
import BehaviorTree.Proofs.StackShape
import BehaviorTree.Proofs.Session.Clear
import BehaviorTree.Proofs.Session.Executions
import BehaviorTree.Proofs.Descent.Mirror
import BehaviorTree.Proofs.Session.Heeding
import BehaviorTree.Proofs.Session.Isolation
import BehaviorTree.Proofs.Event.Ledger
import BehaviorTree.Proofs.Session.Unwinding
import BehaviorTree.Proofs.Session.Abandoning
import BehaviorTree.Proofs.Expression.Complete
import BehaviorTree.Proofs.Lifecycle.Hearing
import BehaviorTree.Proofs.Tree.Recursion
import BehaviorTree.Proofs.Stack.ChildVerdict
import BehaviorTree.Proofs.Stack.Timeout
import BehaviorTree.Proofs.Session.Aftermath
import BehaviorTree.Proofs.Session.LastReport
import BehaviorTree.Proofs.Stack.Beside
import BehaviorTree.Proofs.Session.Unfork
import BehaviorTree.Proofs.Descent.Course
import BehaviorTree.Proofs.Descent.Parts
import BehaviorTree.Proofs.Descent.Visits
import BehaviorTree.Proofs.Descent.Continuing
import BehaviorTree.Proofs.Activity.Activation
import BehaviorTree.Proofs.Activity.Sweep
import BehaviorTree.Proofs.Activity.Rounds
import BehaviorTree.Proofs.Activity.InTurn
import BehaviorTree.Proofs.Activity.Iterations
import BehaviorTree.Proofs.Activity.Attempts
import BehaviorTree.Proofs.Activity.Once
import BehaviorTree.Proofs.Expression.Vars
import BehaviorTree.Proofs.Session.Accepting
import BehaviorTree.Proofs.Tree.Disabled
import BehaviorTree.Proofs.Source.RoundTrip
import BehaviorTree.Proofs.Expression.Pattern
import BehaviorTree.Proofs.Expression.Quoting
import BehaviorTree.Proofs.Expression.Rules
import BehaviorTree.Proofs.Expression.Offset
