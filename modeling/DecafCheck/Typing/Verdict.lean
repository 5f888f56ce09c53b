import DecafCheck.Failure
import DecafCheck.Forest.Basic
import DecafCheck.Diagnostic.Problem

namespace DecafCheck

namespace BinaryOp

/-- Operators that take integers only; the others take any two operands of one type. -/
def needsInt : BinaryOp → Bool
  | or | and | eq | ne => false
  | _ => true

def result : BinaryOp → DataType
  | add | sub | mul | div | mod => .int
  | _ => .bool

def infer (op : BinaryOp) (left right : InferredType) : Except Problem DataType :=
  if !left.agrees right then .error (.operandsDiffer op left right)
  else if op.needsInt && !left.is .int then .error (.operandsNotInt op left)
  else .ok op.result

end BinaryOp

def UnaryOp.operandType : UnaryOp → DataType
  | neg => .int
  | not => .bool

/-- The types inferred so far, the latest first. -/
abbrev Types := List (NodeId × InferredType)

/-- A node without a type counts as `unknown`. -/
def Types.get (types : Types) (id : NodeId) : InferredType :=
  (types.lookup id).getD .unknown

/-- What is found out about one node. The types of the nodes below it are given. -/
structure Verdict where
  log : List Diagnostic := []
  type : Option InferredType := none
  stop : Option Stop := none

namespace Verdict

def ok : Verdict := {}

/-- Reports a problem unless the condition holds. -/
def require (condition : Bool) (p : Problem) (span : Span) : List Diagnostic :=
  if condition then [] else [p.on span]

def malformed (m : Malformed) : Verdict :=
  { stop := some (.malformed m) }

def fault (f : Fault) : Verdict :=
  { stop := some (.fault f) }

def unresolved (p : Problem) (span : Span) : Verdict :=
  { log := [p.on span], type := some .unknown }

def ofBinary (op : BinaryOp) (left right : InferredType) (span : Span) : Verdict :=
  match op.infer left right with
  | .ok type => { type := some (.known type) }
  | .error p => { log := [p.on span], type := some .unknown }

/-- The type is the operand's, right or wrong. -/
def ofUnary (op : UnaryOp) (operand : InferredType) (span : Span) : Verdict :=
  { log := require (operand.is op.operandType) (.operand op operand) span, type := some operand }

end Verdict

namespace Forest

def spanOf (f : Forest) (id : NodeId) : Span :=
  ((f.node? id).map Node.span).getD ⟨0, 0⟩

def kindOf? (f : Forest) (id : NodeId) : Option Kind :=
  (f.node? id).map Node.kind

def parentOf? (f : Forest) (id : NodeId) : Option NodeId :=
  (f.node? id).bind Node.parent

/-- The index must be an integer, and what is indexed must have elements. -/
def indexProblems (f : Forest) (types : Types) (symbol : Symbol) (span : Span) (index : NodeId) :
    List Diagnostic :=
  if !(types.get index).is .int then [(Problem.index (types.get index)).on (f.spanOf index)]
  else Verdict.require (symbol.length != 0) (.notIndexable symbol.name) span

def checkLocation (f : Forest) (types : Types) (id : NodeId) (span : Span) (name : String)
    (index : Option NodeId) : Verdict :=
  match f.nearestTable id with
  | none => .malformed (.noTable (Kind.location name index).name span)
  | some table =>
    match f.tables.lookup table name with
    | .error (.fault e) => .fault e
    | .error _ => .unresolved (.undeclared name) span
    | .ok symbol =>
      { log := index.toList.flatMap (f.indexProblems types symbol span)
        type := some (.known symbol.type) }

/-- Each argument against its parameter, counted from `position`. -/
def argumentProblems (f : Forest) (types : Types) (name : String) :
    Nat → List NodeId → List DataType → List Diagnostic
  | position, argument :: arguments, parameter :: parameters =>
    Verdict.require ((types.get argument).is parameter)
        (.argument position name parameter (types.get argument)) (f.spanOf argument)
      ++ argumentProblems f types name (position + 1) arguments parameters
  | _, _, _ => []

/-- A call names a function of the outermost scope. -/
def checkCall (f : Forest) (types : Types) (id : NodeId) (kind : Kind) (span : Span) (name : String)
    (arguments : List NodeId) : Verdict :=
  match f.nearestTable id with
  | none => .malformed (.noTable kind.name span)
  | some table =>
    match f.tables.outermost table >>= f.tables.get with
    | .error e => .fault e
    | .ok globals =>
      match globals.find? name with
      | none => .unresolved (.undeclaredFunction name) span
      | some symbol =>
        if symbol.isFunction then
          { log :=
              Verdict.require (symbol.parameters.length == arguments.length)
                  (.arity name symbol.parameters.length arguments.length) span
                ++ f.argumentProblems types name 1 arguments symbol.parameters
            type := some (.known symbol.type) }
        else
          .unresolved (.notFunction name) span

def checkTest (f : Forest) (types : Types) (place : Test) (id : NodeId) : Verdict :=
  { log := Verdict.require ((types.get id).is .bool) (.test place (types.get id)) (f.spanOf id) }

def checkAssignment (types : Types) (target value : NodeId) (span : Span) : Verdict :=
  { log := Verdict.require ((types.get target).agrees (types.get value))
      (.assignment (types.get target) (types.get value)) span }

/-- Whether a node is a direct statement of the body of a loop. -/
def inLoopBody (f : Forest) (id : NodeId) : Bool :=
  match f.parentOf? id with
  | none => false
  | some block =>
    match f.kindOf? block, (f.parentOf? block).bind f.kindOf? with
    | some (.block _ _), some (.whileLoop _ _) => true
    | _, _ => false

/-- A return among the direct statements of a function's body. -/
def checkReturn (types : Types) (name : String) (returns : DataType) (value : Option NodeId)
    (span : Span) :
    List Diagnostic :=
  match returns, value with
  | .void, some _ => [(Problem.voidReturn name).on span]
  | .void, none => []
  | _, _ =>
    let found := (value.map types.get).getD (.known .void)
    Verdict.require (found.is returns) (.returnType name returns found) span

/-- The value and the span of a return statement. -/
def return? (f : Forest) (id : NodeId) : Option (Option NodeId × Span) :=
  match f.node? id with
  | some { kind := .ret value, span, .. } => some (value, span)
  | _ => none

/-- Every return is checked, and all but the first are reported as such. The count of returns is
taken as unbounded, where a signed 32-bit counter would overflow at 2^31 of them. -/
def checkReturns (types : Types) (name : String) (returns : DataType) :
    List (Option NodeId × Span) → List Diagnostic
  | [] => []
  | (value, span) :: rest =>
    checkReturn types name returns value span
      ++ rest.flatMap fun (value, span) =>
        (Problem.multipleReturns name).on span :: checkReturn types name returns value span

/-- The table around a function's own, where the function's symbol is. -/
def tableAround? (f : Forest) (id : NodeId) : Option TableId := do
  let own ← (← f.node? id).table
  (← (f.tables.get own).toOption).parent

def checkFunction (f : Forest) (types : Types) (id : NodeId) (span : Span) (name : String)
    (returns : DataType) (body : NodeId) : Verdict :=
  match f.tableAround? id with
  | none => .malformed (.looseFunction name)
  | some table =>
    let conflict := Verdict.require ((f.tables.lookup table name).toOption.any Symbol.isFunction)
      (.functionConflict name) span
    match f.kindOf? body with
    | some (.block _ statements) =>
      { log := conflict ++ checkReturns types name returns (statements.filterMap f.return?) }
    | _ => { log := conflict, stop := some (.malformed (.bodyNotBlock name)) }

/-- What is wrong with a main function. -/
def checkMain (returns : DataType) (parameters : List Parameter) (span : Span) : List Diagnostic :=
  Verdict.require (returns == .int) (.mainReturns returns) span
    ++ Verdict.require parameters.isEmpty .mainParameters span

/-- The problems of a function if it is a main function. -/
def main? (f : Forest) (id : NodeId) : Option (List Diagnostic) :=
  match f.node? id with
  | some { kind := .function name returns parameters _, span, .. } =>
    if name = "main" then some (checkMain returns parameters span) else none
  | _ => none

def checkProgram (f : Forest) (functions : List NodeId) (span : Span) : Verdict :=
  let mains := functions.filterMap f.main?
  { log := mains.flatten ++ Verdict.require (!mains.isEmpty) .missingMain span }

/-- Judges a node, given the types of the nodes below it. -/
def verdict (f : Forest) (types : Types) (id : NodeId) (span : Span) (kind : Kind) : Verdict :=
  match kind with
  | .program _ functions => f.checkProgram functions span
  | .function name returns _ body => f.checkFunction types id span name returns body
  | .block _ _ => .ok
  | .variable _ _ _ => .ok
  | .ret _ => .ok
  | .assignment target value => checkAssignment types target value span
  | .conditional condition _ _ => f.checkTest types .condition condition
  | .whileLoop guard _ => f.checkTest types .guard guard
  | .jump j => { log := Verdict.require (f.inLoopBody id) (.jumpOutsideLoop j) span }
  | .callStatement name arguments =>
    { f.checkCall types id kind span name arguments with type := none }
  | .binary op left right => .ofBinary op (types.get left) (types.get right) span
  | .unary op operand => .ofUnary op (types.get operand) span
  | .call name arguments => f.checkCall types id kind span name arguments
  | .location name index => f.checkLocation types id span name index
  | .literal value => { type := some (.known value.type) }

end Forest

end DecafCheck
