import DecafCheck.Source.Span

namespace DecafCheck

inductive Code
  | duplicateDeclaration
  | invalidDeclaration
  | unresolvedSymbol
  | typeMismatch
  | missingMain
  | malformedMain
  | multipleReturns
  | invalidReturn
  | invalidJump
deriving DecidableEq, Repr

namespace Code

def id : Code → String
  | duplicateDeclaration => "E0001"
  | invalidDeclaration => "E0002"
  | unresolvedSymbol => "E0003"
  | typeMismatch => "E0004"
  | missingMain => "E0005"
  | malformedMain => "E0006"
  | multipleReturns => "E0007"
  | invalidReturn => "E0008"
  | invalidJump => "E0009"

def description : Code → String
  | duplicateDeclaration => "duplicate declaration"
  | invalidDeclaration => "invalid declaration"
  | unresolvedSymbol => "unresolved symbol"
  | typeMismatch => "type mismatch"
  | missingMain => "missing main function"
  | malformedMain => "malformed main function"
  | multipleReturns => "multiple return statements"
  | invalidReturn => "invalid return"
  | invalidJump => "loop control outside of loop"

end Code

/-- What is wrong with a program that can be read, and where. -/
structure Diagnostic where
  code : Code
  message : String
  span : Span
deriving DecidableEq, Repr

def Diagnostic.text (d : Diagnostic) : String :=
  d.code.description ++ " [" ++ d.code.id ++ "] at " ++ d.span.text ++ ": " ++ d.message

/-- Diagnostics in the order they were reported. -/
abbrev Log := List Diagnostic

namespace Log

def report (log : Log) (d : Diagnostic) : Log :=
  log ++ [d]

def count (log : Log) (code : Code) : Nat :=
  log.countP fun d => d.code == code

def has (log : Log) (code : Code) : Bool :=
  0 < log.count code

def codes (log : Log) : List Code :=
  log.map Diagnostic.code

end Log

end DecafCheck
