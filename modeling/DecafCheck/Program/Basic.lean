import DecafCheck.Source.Span

namespace DecafCheck

inductive DataType
  | int | bool | void
deriving DecidableEq, Repr, Inhabited

def DataType.name : DataType → String
  | int => "int"
  | bool => "bool"
  | void => "void"

inductive UnaryOp
  | neg | not
deriving DecidableEq, Repr

def UnaryOp.symbol : UnaryOp → String
  | neg => "-"
  | not => "!"

inductive BinaryOp
  | or | and | eq | ne | lt | le | gt | ge | add | sub | mul | div | mod
deriving DecidableEq, Repr

def BinaryOp.symbol : BinaryOp → String
  | or => "||"
  | and => "&&"
  | eq => "=="
  | ne => "!="
  | lt => "<"
  | le => "<="
  | gt => ">"
  | ge => ">="
  | add => "+"
  | sub => "-"
  | mul => "*"
  | div => "/"
  | mod => "%"

inductive Literal
  | int (value : Int)
  | bool (value : Bool)
deriving DecidableEq, Repr

namespace Literal

def type : Literal → DataType
  | int _ => .int
  | bool _ => .bool

def text : Literal → String
  | int value => toString value
  | bool true => "true"
  | bool false => "false"

end Literal

/-- The two ways to leave an iteration of a loop. -/
inductive Jump
  | exit | next
deriving DecidableEq, Repr

def Jump.word : Jump → String
  | exit => "break"
  | next => "continue"

structure Parameter where
  name : String
  type : DataType
  span : Span
deriving DecidableEq, Repr

/-- A declared variable; one that is no array has length one. -/
structure Variable where
  name : String
  type : DataType
  length : Nat
  span : Span
deriving DecidableEq, Repr

/-- Every construct keeps the span of its text; parentheses leave no trace. -/
inductive Expr
  | literal (value : Literal) (span : Span)
  | location (name : String) (index : Option Expr) (span : Span)
  | call (name : String) (arguments : List Expr) (span : Span)
  | unary (op : UnaryOp) (operand : Expr) (span : Span)
  | binary (op : BinaryOp) (left right : Expr) (span : Span)

def Expr.span : Expr → Span
  | literal _ s => s
  | location _ _ s => s
  | call _ _ s => s
  | unary _ _ s => s
  | binary _ _ _ s => s

mutual

inductive Stmt
  | assign (name : String) (index : Option Expr) (target : Span) (value : Expr) (span : Span)
  | call (name : String) (arguments : List Expr) (span : Span)
  | branch (condition : Expr) (yes : Block) (no : Option Block) (span : Span)
  | loop (guard : Expr) (body : Block) (span : Span)
  | ret (value : Option Expr) (span : Span)
  | jump (j : Jump) (span : Span)

inductive Block
  | mk (vars : List Variable) (statements : List Stmt) (span : Span)

end

structure Function where
  name : String
  returns : DataType
  parameters : List Parameter
  body : Block
  span : Span

inductive Declaration
  | variable (v : Variable)
  | function (f : Function)

/-- The declarations of a program in the order of its text. -/
structure Program where
  declarations : List Declaration
  span : Span

end DecafCheck
