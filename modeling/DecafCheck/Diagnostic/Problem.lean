import DecafCheck.Diagnostic.Basic
import DecafCheck.Typing.Inferred

namespace DecafCheck

/-- Where a truth value is asked for. -/
inductive Test
  | condition | guard
deriving DecidableEq, Repr

def Test.name : Test → String
  | condition => "if condition"
  | guard => "while guard"

/-- What the checks can find. -/
inductive Problem
  | declaredTwice (name : String)
  | functionConflict (name : String)
  | voidVariable (name : String)
  | emptyArray (name : String)
  | localArray (name : String)
  | undeclared (name : String)
  | notFunction (name : String)
  | undeclaredFunction (name : String)
  | assignment (target value : InferredType)
  | test (place : Test) (found : InferredType)
  | operandsDiffer (op : BinaryOp) (left right : InferredType)
  | operandsNotInt (op : BinaryOp) (found : InferredType)
  | operand (op : UnaryOp) (found : InferredType)
  | index (found : InferredType)
  | notIndexable (name : String)
  | arity (name : String) (expected supplied : Nat)
  | argument (position : Nat) (name : String) (expected : DataType) (found : InferredType)
  | returnType (name : String) (expected : DataType) (found : InferredType)
  | missingMain
  | mainReturns (found : DataType)
  | mainParameters
  | multipleReturns (name : String)
  | voidReturn (name : String)
  | jumpOutsideLoop (j : Jump)
deriving DecidableEq, Repr

namespace Problem

def code : Problem → Code
  | .declaredTwice _ => .duplicateDeclaration
  | .functionConflict _ => .duplicateDeclaration
  | .voidVariable _ => .invalidDeclaration
  | .emptyArray _ => .invalidDeclaration
  | .localArray _ => .invalidDeclaration
  | .undeclared _ => .unresolvedSymbol
  | .notFunction _ => .unresolvedSymbol
  | .undeclaredFunction _ => .unresolvedSymbol
  | .assignment _ _ => .typeMismatch
  | .test _ _ => .typeMismatch
  | .operandsDiffer _ _ _ => .typeMismatch
  | .operandsNotInt _ _ => .typeMismatch
  | .operand _ _ => .typeMismatch
  | .index _ => .typeMismatch
  | .notIndexable _ => .typeMismatch
  | .arity _ _ _ => .typeMismatch
  | .argument _ _ _ _ => .typeMismatch
  | .returnType _ _ _ => .typeMismatch
  | .missingMain => .missingMain
  | .mainReturns _ => .malformedMain
  | .mainParameters => .malformedMain
  | .multipleReturns _ => .multipleReturns
  | .voidReturn _ => .invalidReturn
  | .jumpOutsideLoop _ => .invalidJump

def quoted (name : String) : String :=
  "'" ++ name ++ "'"

def message : Problem → String
  | .declaredTwice name => quoted name ++ " is already declared in this scope"
  | .functionConflict name =>
    "function " ++ quoted name ++ " conflicts with another declaration of the same name"
  | .voidVariable name => "variable " ++ quoted name ++ " cannot have type void"
  | .emptyArray name => "array " ++ quoted name ++ " must have non-zero length"
  | .localArray name => "array " ++ quoted name ++ " may only be declared in global scope"
  | .undeclared name => quoted name ++ " is not declared"
  | .notFunction name => quoted name ++ " is not a function"
  | .undeclaredFunction name => "call to undeclared function " ++ quoted name
  | .assignment target value =>
    "cannot assign a value of type " ++ value.name ++ " to a location of type " ++ target.name
  | .test place found => place.name ++ " must be bool, found " ++ found.name
  | .operandsDiffer op left right =>
    "operands of " ++ quoted op.symbol ++ " must have the same type, found " ++ left.name ++ " and "
      ++ right.name
  | .operandsNotInt op found =>
    "operator " ++ quoted op.symbol ++ " requires int operands, found " ++ found.name
  | .operand .neg found => "cannot negate a value of type " ++ found.name
  | .operand .not found => "cannot apply '!' to a value of type " ++ found.name
  | .index found => "array index must be int, found " ++ found.name
  | .notIndexable name => quoted name ++ " cannot be indexed"
  | .arity name expected supplied =>
    "function " ++ quoted name ++ " takes " ++ toString expected ++ " argument(s) but "
      ++ toString supplied ++ " were supplied"
  | .argument position name expected found =>
    "argument " ++ toString position ++ " of " ++ quoted name ++ " must be "
      ++ expected.name ++ ", found " ++ found.name
  | .returnType name expected found =>
    "function " ++ quoted name ++ " must return " ++ expected.name ++ ", found " ++ found.name
  | .missingMain => "program must define a 'main' function"
  | .mainReturns found => "'main' must return int, found " ++ found.name
  | .mainParameters => "'main' must not take parameters"
  | .multipleReturns name =>
    "function " ++ quoted name ++ " has more than one top-level return statement"
  | .voidReturn name => "void function " ++ quoted name ++ " cannot return a value"
  | .jumpOutsideLoop j => quoted j.word ++ " must appear directly inside a while loop body"

/-- The diagnostic of a problem at a place. -/
def on (p : Problem) (span : Span) : Diagnostic :=
  ⟨p.code, p.message, span⟩

end Problem

end DecafCheck
