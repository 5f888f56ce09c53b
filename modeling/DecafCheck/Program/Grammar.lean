import DecafCheck.Program.Basic
import DecafCheck.Token.Basic

namespace DecafCheck

def DataType.ofToken? : Token → Option DataType
  | .keyword .int => some .int
  | .keyword .bool => some .bool
  | .keyword .void => some .void
  | _ => none

def UnaryOp.ofToken? : Token → Option UnaryOp
  | .mark .minus => some .neg
  | .mark .not => some .not
  | _ => none

namespace BinaryOp

def token : BinaryOp → Token
  | or => .mark .or
  | and => .mark .and
  | eq => .mark .equal
  | ne => .mark .notEqual
  | lt => .mark .less
  | le => .mark .lessEqual
  | gt => .mark .greater
  | ge => .mark .greaterEqual
  | add => .mark .plus
  | sub => .mark .minus
  | mul => .mark .star
  | div => .mark .slash
  | mod => .mark .percent

/-- The operators in strata, loosest first. Each stratum associates to the left. -/
def strata : List (List BinaryOp) :=
  [[or], [and], [eq, ne], [lt, le, gt, ge], [add, sub], [mul, div, mod]]

/-- The operator of a stratum that a token writes. -/
def ofToken? (stratum : List BinaryOp) (t : Token) : Option BinaryOp :=
  stratum.find? fun op => op.token == t

end BinaryOp

/-- What the grammar asks for at a place. -/
inductive Expectation
  | token (t : Token)
  | declaration
  | statement
  | type
  | identifier
  | arrayLength
deriving DecidableEq, Repr

def Expectation.describe : Expectation → String
  | token t => t.describe
  | declaration => "declaration"
  | statement => "statement"
  | type => "type"
  | identifier => "identifier"
  | arrayLength => "array length"

/-- What can be wrong with a sequence of tokens. -/
inductive GrammarFault
  | expected (what : Expectation) (found : Option Token)
  | noExpression (found : Option Token)
  | integerTooLarge (spelling : String)
  | arrayTooLong (length : Nat)
deriving DecidableEq, Repr

def GrammarFault.message : GrammarFault → String
  | expected what found => "expected " ++ what.describe ++ ", found " ++ Token.describe? found
  | noExpression found => "unexpected token in expression: " ++ Token.describe? found
  | integerTooLarge spelling => "invalid integer literal: " ++ spelling
  | arrayTooLong length => "array length " ++ toString length ++ " is too large"

structure GrammarError where
  fault : GrammarFault
  span : Span
deriving DecidableEq, Repr

/-- Why a text is no program. -/
inductive ParseError
  | lexical (e : LexicalError)
  | grammar (e : GrammarError)
deriving DecidableEq, Repr

/-- Integer literals lie below two to the power of 63. -/
def integerBound : Nat := 0x8000000000000000

/-- Array lengths lie below two to the power of 32. -/
def arrayBound : Nat := 0x100000000

end DecafCheck
