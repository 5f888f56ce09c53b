import DecafCheck.Program.Grammar

namespace DecafCheck

def DataType.token : DataType → Token
  | int => .keyword .int
  | bool => .keyword .bool
  | void => .keyword .void

def UnaryOp.token : UnaryOp → Token
  | neg => .mark .minus
  | not => .mark .not

/-- How tight an operator binds; the loosest stratum is zero. -/
def BinaryOp.stratum (op : BinaryOp) : Nat :=
  strata.findIdx fun ops => ops.contains op

/-- The stratum of unary operators, above those of the binary ones. -/
def UnaryOp.stratum : Nat :=
  BinaryOp.strata.length

def Literal.token : Literal → Token
  | int value => .integer (toString value.toNat)
  | bool true => .keyword .true_
  | bool false => .keyword .false_

/-- Tokens in parentheses if the condition holds. -/
def enclosedIf (condition : Bool) (ts : List Token) : List Token :=
  if condition then .mark .leftParen :: ts ++ [.mark .rightParen] else ts

namespace Expr

mutual

/-- An expression where operators of lower strata than `least` need parentheses. -/
def tokens (least : Nat) : Expr → List Token
  | .literal value _ => [value.token]
  | .location name none _ => [.identifier name]
  | .location name (some index) _ =>
    .identifier name :: .mark .leftBracket :: tokens 0 index ++ [.mark .rightBracket]
  | .call name arguments _ =>
    .identifier name :: .mark .leftParen :: argumentTokens arguments ++ [.mark .rightParen]
  | .unary op operand _ => op.token :: tokens UnaryOp.stratum operand
  | .binary op left right _ =>
    enclosedIf (op.stratum < least)
      (tokens op.stratum left ++ op.token :: tokens (op.stratum + 1) right)

/-- Expressions with commas between them. -/
def argumentTokens : List Expr → List Token
  | [] => []
  | [e] => tokens 0 e
  | e :: rest => tokens 0 e ++ .mark .comma :: argumentTokens rest

end

end Expr

def Variable.tokens (v : Variable) : List Token :=
  let length := if v.length = 1 then []
    else [.mark .leftBracket, .integer (toString v.length), .mark .rightBracket]
  v.type.token :: .identifier v.name :: length ++ [.mark .semicolon]

/-- A location with the index in brackets, if it has one. -/
def locationTokens (name : String) : Option Expr → List Token
  | none => [.identifier name]
  | some index => .identifier name :: .mark .leftBracket :: index.tokens 0 ++ [.mark .rightBracket]

mutual

def Stmt.tokens : Stmt → List Token
  | .assign name index _ value _ =>
    locationTokens name index ++ .mark .assign :: value.tokens 0 ++ [.mark .semicolon]
  | .call name arguments _ =>
    .identifier name :: .mark .leftParen :: Expr.argumentTokens arguments
      ++ [.mark .rightParen, .mark .semicolon]
  | .branch condition yes none _ =>
    .keyword .if_ :: .mark .leftParen :: condition.tokens 0 ++ .mark .rightParen :: Block.tokens yes
  | .branch condition yes (some no) _ =>
    .keyword .if_ :: .mark .leftParen :: condition.tokens 0 ++ .mark .rightParen :: Block.tokens yes
      ++ .keyword .else_ :: Block.tokens no
  | .loop guard body _ =>
    .keyword .while_ :: .mark .leftParen :: guard.tokens 0 ++ .mark .rightParen :: Block.tokens body
  | .ret none _ => [.keyword .return_, .mark .semicolon]
  | .ret (some value) _ => .keyword .return_ :: value.tokens 0 ++ [.mark .semicolon]
  | .jump .exit _ => [.keyword .break_, .mark .semicolon]
  | .jump .next _ => [.keyword .continue_, .mark .semicolon]

def Stmt.tokensAll : List Stmt → List Token
  | [] => []
  | s :: rest => Stmt.tokens s ++ Stmt.tokensAll rest

def Block.tokens : Block → List Token
  | .mk vars statements _ =>
    .mark .leftBrace :: vars.flatMap Variable.tokens ++ Stmt.tokensAll statements ++
      [.mark .rightBrace]

end

def Parameter.tokens (p : Parameter) : List Token :=
  [p.type.token, .identifier p.name]

def Function.tokens (f : Function) : List Token :=
  .keyword .def_ :: f.returns.token :: .identifier f.name :: .mark .leftParen
    :: [Token.mark .comma].intercalate (f.parameters.map Parameter.tokens)
    ++ .mark .rightParen :: f.body.tokens

def Declaration.tokens : Declaration → List Token
  | .variable v => v.tokens
  | .function f => f.tokens

/-- The tokens of a program, with parentheses only where the strata of the operators or association
to the left ask for them. -/
def Program.tokens (p : Program) : List Token :=
  p.declarations.flatMap Declaration.tokens

/-- Tokens with single blanks between them. -/
def Token.text (ts : List Token) : String :=
  " ".intercalate (ts.map Token.spelling)

def Program.print (p : Program) : String :=
  Token.text p.tokens

end DecafCheck
