import BehaviorTree.Kind.Basic

/-!
The declaration of every kind of node: name, role, slots and arguments.
-/

namespace BehaviorTree

namespace Arg

/-- An argument that has to be given. -/
def required (name : String) (type : ArgType) (desc : String) : Arg := ⟨name, type, desc, false⟩

/-- An argument that may be left out. -/
def optionally (name : String) (type : ArgType) (desc : String) : Arg := ⟨name, type, desc, true⟩

end Arg

namespace Slot

/-- A slot that has to be wired. -/
def required (name : String) : Slot := ⟨name, false, false⟩

/-- A slot that may be left unwired. -/
def optionally (name : String) : Slot := ⟨name, true, false⟩

/-- A last slot that takes any number of wires. -/
def many (name : String) : Slot := ⟨name, true, true⟩

end Slot

/-- What the kinds of a host declare. -/
def Extension.declaration : Extension → Declaration
  | .ticks =>
    { name := "Ticks", role := .action, desc := ""
      output := [.optionally "count"], args := [.required "results" .json ""] }
  | .busy =>
    { name := "Busy", role := .action, desc := "", args := [.required "ticks" .int ""] }
  | .shout =>
    { name := "Shout", role := .action, desc := ""
      input := [.required "target", .optionally "payload"], output := [.optionally "called"]
      args := [.required "event" .string ""] }
  | .probe name => { name, role := .condition, desc := "" }
  | .raise =>
    { name := "Raise", role := .action, desc := "", args := [.optionally "message" .string ""] }
  | .eval =>
    { name := "Eval", role := .action, desc := ""
      output := [.optionally "value"], args := [.optionally "code" .json ""] }
  | .hold =>
    { name := "Hold", role := .action, desc := "", args := [.optionally "typed" .bool ""] }
  | .confused => { name := "Confused", role := .action, desc := "" }
  | .guarded =>
    { name := "Guarded", role := .decorator, desc := "", args := [.required "time" .float ""] }
  | .peek => { name := "Peek", role := .condition, desc := "" }
  | .sendToArg =>
    { name := "SendToArg", role := .action, desc := ""
      input := [.required "input"], output := [.required "output"]
      args := [.optionally "scale" .float ""] }
  | .fussy =>
    { name := "Fussy", role := .action, desc := "", args := [.optionally "message" .string ""] }
  | .fakeNow => { name := "Now", role := .action, desc := "", output := [.required "time"] }
  | .declared d => d

namespace Kind

/-- What every kind declares. -/
def declaration : Kind → Declaration
  | sequence =>
    { name := "Sequence", role := .composite, desc := "Succeeds when every child succeeds" }
  | selector =>
    { name := "Selector", role := .composite, desc := "Succeeds as soon as one child succeeds" }
  | parallel =>
    { name := "Parallel", role := .composite
      desc := "Runs all children side by side, succeeding when all have completed" }
  | ifElse =>
    { name := "IfElse", role := .composite
      desc := "Runs the second child if the first succeeds, the third otherwise" }
  | loop =>
    { name := "Loop", role := .composite
      desc := "Runs the children in sequence repeatedly, one iteration per tick"
      doc := "The input variable, when wired, overrides the \x60count\x60 argument."
      input := [.optionally "count"], output := [.optionally "index"]
      args := [.optionally "count" .int "Number of iterations, negative for no limit"] }
  | foreach =>
    { name := "Foreach", role := .composite
      desc := "Runs the children in sequence for each element of an array"
      input := [.required "array"], output := [.required "item", .optionally "index"] }
  | inverter =>
    { name := "Inverter", role := .decorator, desc := "Swaps success and failure of the child" }
  | alwaysSuccess =>
    { name := "AlwaysSuccess", role := .decorator
      desc := "Succeeds once the child completes, whatever its outcome" }
  | alwaysFail =>
    { name := "AlwaysFail", role := .decorator
      desc := "Fails once the child completes, whatever its outcome" }
  | alwaysRunning =>
    { name := "AlwaysRunning", role := .decorator
      desc := "Keeps running, restarting the child whenever it completes" }
  | assert =>
    { name := "Assert", role := .decorator
      desc := "Aborts the tree with an error if the child fails"
      args := [.optionally "message" .string "Reported when the assertion fails"] }
  | repeatUntil .success =>
    { name := "RepeatUntilSuccess", role := .decorator
      desc := "Repeats the child until it succeeds"
      args := [.optionally "maxLoop" .int "Maximum number of attempts, negative for no limit"] }
  | repeatUntil .failure =>
    { name := "RepeatUntilFailure", role := .decorator
      desc := "Repeats the child until it fails, then succeeds"
      args := [.optionally "maxLoop" .int "Maximum number of attempts, negative for no limit"] }
  | timeout =>
    { name := "Timeout", role := .decorator, desc := "Fails if the child does not complete in time"
      args := [.required "time" .float "Time limit"] }
  | delay =>
    { name := "Delay", role := .decorator, desc := "Runs the child after a delay"
      args := [.required "time" .float "Delay before the child runs"] }
  | once =>
    { name := "Once", role := .decorator, desc := "Runs the child to completion only once" }
  | listen =>
    { name := "Listen", role := .decorator
      desc := "Runs the child whenever an event is dispatched"
      doc := "Stays running while subscribed. Without an input the event is listened to globally."
      input := [.optionally "target"], output := [.many "args"], args := listenArgs }
  | listenTree =>
    { name := "ListenTree", role := .decorator
      desc := "Runs the child whenever an event targeting this tree is dispatched"
      output := [.many "args"], args := listenArgs }
  | check =>
    { name := "Check", role := .condition, desc := "Tests an expression"
      args := [.required "value" .expr "Expression to test"] }
  | isNull =>
    { name := "IsNull", role := .condition, desc := "Succeeds if the variable is unset or null"
      input := [.required "value"] }
  | notNull =>
    { name := "NotNull", role := .condition, desc := "Succeeds if the variable holds a value"
      input := [.required "value"] }
  | isStatus =>
    { name := "IsStatus", role := .condition
      desc := "Tests the status of the previously completed node"
      args := [.required "status" .status "One of success, failure or running"] }
  | calculate =>
    { name := "Calculate", role := .action, desc := "Stores the result of an expression"
      output := [.required "value"], args := [.required "value" .expr "Expression to evaluate"] }
  | constant =>
    { name := "Let", role := .action, desc := "Stores a constant"
      output := [.required "value"], args := [.optionally "value" .json "Value to store"] }
  | push =>
    { name := "Push", role := .action, desc := "Appends a value to an array variable"
      input := [.required "value"], output := [.required "array"] }
  | clear =>
    { name := "Clear", role := .action, desc := "Removes variables"
      doc := "Temporary variables are those whose names start with \x60__\x60."
      output := [.many "vars"]
      args := [.optionally "temp" .bool "Also remove all temporary variables"] }
  | log =>
    { name := "Log", role := .action, desc := "Logs a message", input := [.many "values"]
      args := [
        .required "message" .string "Message",
        .optionally "level" .string "trace, debug, info, warn or error; info by default"] }
  | now =>
    { name := "Now", role := .action, desc := "Stores the current time"
      output := [.required "time"] }
  | wait =>
    { name := "Wait", role := .action, desc := "Waits for a while"
      doc := "The input variable, when wired, overrides the \x60time\x60 argument."
      input := [.optionally "time"], args := [.optionally "time" .float "Duration"] }
  | extension e => e.declaration
where
  listenArgs : List Arg := [
    .required "event" .string "Event name",
    .optionally "once" .bool "Complete with the child's status after the first event"]

end Kind
end BehaviorTree
