import BehaviorTree.Expression.Cache
import BehaviorTree.Kind.Declaration
import BehaviorTree.Source.Basic
import BehaviorTree.Tree.Basic

/-!
Checks that a node passes when its tree is loaded: the number of its children, its arguments, the
variables wired to its slots, and what its kind asks beyond its declaration. A strict loader also
refuses arguments and slots that are not declared.
-/

namespace BehaviorTree

/-- What is wrong with a node. -/
inductive InitError where
  | tooFewChildren (expected found : Nat)
  | tooManyChildren (expected found : Nat)
  | missingArg (arg : String)
  | argType (arg expected : String)
  | missingInput (slot : String)
  | missingOutput (slot : String)
  | expr (arg : String) (error : ExprError)
  | custom (message : String)
deriving DecidableEq, Repr

def InitError.message : InitError → String
  | .tooFewChildren expected found =>
    "Needs at least " ++ toString expected ++ " children, but has " ++ toString found
  | .tooManyChildren expected found =>
    "Accepts at most " ++ toString expected ++ " children, but has " ++ toString found
  | .missingArg arg => "Missing required argument " ++ Text.quoted arg
  | .argType arg expected => "Argument " ++ Text.quoted arg ++ " should be of type " ++ expected
  | .missingInput slot => "Input slot " ++ Text.quoted slot ++ " is not wired"
  | .missingOutput slot => "Output slot " ++ Text.quoted slot ++ " is not wired"
  | .expr arg error => "Argument " ++ Text.quoted arg ++ ": " ++ error.message
  | .custom message => message

/-- A check that may fail and that reads expressions into the cache. What was read before a
failure stays read. -/
abbrev CheckM := ExceptT InitError (StateM ExprCache)

namespace Node

/-- A node needs at least so many children, and takes at most so many if there is a limit. -/
def checkChildCount (found least : Nat) (greatest : Option Nat) : Except InitError Unit :=
  if found < least then .error (.tooFewChildren least found)
  else
    match greatest with
    | some most => if most < found then .error (.tooManyChildren most found) else .ok ()
    | none => .ok ()

/-- An argument that is null counts as missing. -/
def givenArg? (node : Node) (name : String) : Option Value :=
  (node.arg? name).filter fun v => !v.isNull

/-- Reads the expression of an argument into the cache. -/
def readExpr (arg code : String) : CheckM Unit := do
  let (result, cache) := ExprCache.compile (← get) code
  set cache
  match result with
  | .ok _ => pure ()
  | .error error => throw (.expr arg error)

/-- A required argument has to be given, and what is given has to be of its type; an expression has
to be readable. -/
def checkArg (node : Node) (arg : Arg) : CheckM Unit :=
  match node.givenArg? arg.name with
  | none => if arg.optional then pure () else throw (.missingArg arg.name)
  | some v =>
    if arg.type.accepts v then
      match arg.type, v.text? with
      | .expr, some code => readExpr arg.name code
      | _, _ => pure ()
    else throw (.argType arg.name arg.type.name)

/-- The first slot that has to be wired and is not. -/
def unwired? (slots : List Slot) (wired : Nat → Option String) : Option Slot :=
  (slots.zipIdx.find? fun (slot, i) => !slot.optional && (wired i).isNone).map Prod.fst

/-- Every required slot has to be wired, inputs before outputs. -/
def checkSlots (node : Node) (d : Declaration) : Except InitError Unit :=
  match unwired? d.input node.inputVar? with
  | some slot => .error (.missingInput slot.name)
  | none =>
    match unwired? d.output node.outputVar? with
    | some slot => .error (.missingOutput slot.name)
    | none => .ok ()

/-- Checks a node against its declaration. -/
def checkDeclared (node : Node) (d : Declaration) : CheckM Unit := do
  let (least, greatest) := d.role.childBounds
  liftExcept (checkChildCount node.children.length least greatest)
  d.args.forM node.checkArg
  liftExcept (node.checkSlots d)
where
  liftExcept (result : Except InitError Unit) : CheckM Unit :=
    match result with
    | .ok _ => pure ()
    | .error error => throw error

/-- What a node can log at. -/
def logLevels : List String := ["trace", "debug", "info", "warn", "error"]

/-- What a kind asks of a node beyond its declaration. -/
def checkKind (node : Node) : Except InitError Unit :=
  match node.kind with
  | .ifElse => checkChildCount node.children.length 2 (some 3)
  | .log =>
    match node.text? "level" with
    | some level => if level ∈ logLevels then .ok () else .error (.argType "level" "log level")
    | none => .ok ()
  | .extension .fussy =>
    match node.text? "message" with
    | some message => .error (.custom message)
    | none => .ok ()
  | _ => .ok ()

/-- Checks a node against what its kind declares, then as its kind asks. -/
def check (node : Node) : CheckM Unit := do
  node.checkDeclared node.kind.declaration
  match node.checkKind with
  | .ok _ => pure ()
  | .error error => throw error

end Node

/-- An argument or a wired variable that the declaration has no place for. -/
inductive Undeclared where
  | arg (name : String)
  | variable (name : String)
deriving DecidableEq, Repr

/-- The first wired variable beyond the declared slots. A variadic last slot has places for any
number. -/
def surplus? (slots : List Slot) (vars : List String) : Option String :=
  if (slots.getLast?.map Slot.variadic).getD false then none else vars[slots.length]?

namespace NodeSource

/-- The first thing in the source of a node that its declaration does not know: arguments in the
order of their names, then inputs, then outputs. -/
def undeclared? (data : NodeSource) (d : Declaration) : Option Undeclared :=
  match data.args.names.find? fun name => (d.arg? name).isNone with
  | some name => some (.arg name)
  | none =>
    match surplus? d.input data.input with
    | some name => some (.variable name)
    | none => (surplus? d.output data.output).map .variable

end NodeSource
end BehaviorTree
