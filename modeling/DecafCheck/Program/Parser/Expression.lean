import DecafCheck.Program.Parser.Basic

namespace DecafCheck.Parser

/-- An index in brackets, if one follows. -/
def index? (expression : Parser Expr) : Parser (Option Expr) := do
  if ← accept .leftBracket then
    let index ← expression
    expect .rightBracket
    return some index
  else
    return none

/-- A call or a location. -/
def reference (expression : Parser Expr) : Parser Expr := do
  let (name, start) ← identifier
  if ← sees .leftParen then
    let arguments ← parenthesized expression
    return .call name arguments (← spanFrom start)
  else
    let index ← index? expression
    return .location name index (← spanFrom start)

def primary (expression : Parser Expr) : Parser Expr := do
  let span ← currentSpan
  let found ← current
  match found with
  | some (.integer spelling) =>
    let value ← integer spelling span
    skip
    return .literal (.int value) span
  | some (.keyword .true_) =>
    skip
    return .literal (.bool true) span
  | some (.keyword .false_) =>
    skip
    return .literal (.bool false) span
  | some (.identifier _) => reference expression
  | some (.mark .leftParen) =>
    skip
    let inner ← expression
    expect .rightParen
    return inner
  | _ => fail (.noExpression found)

/-- A unary operator and its span. The caller has seen that one is there. -/
def sign : Parser (UnaryOp × Span) := do
  let (found, span) ← take
  match found.bind UnaryOp.ofToken? with
  | some op => return (op, span)
  | none => failAt span (.noExpression found)

/-- A primary expression behind any number of unary operators. -/
def unary (expression : Parser Expr) : Parser Expr := do
  let signs ← many (fun t => (t.bind UnaryOp.ofToken?).isSome) sign
  let operand ← primary expression
  return signs.foldr (fun s e => .unary s.1 e (s.2.merge e.span)) operand

/-- An operator of the stratum and what stands to its right. -/
def rightSide (stratum : List BinaryOp) (operand : Parser Expr) : Parser (BinaryOp × Expr) := do
  let (found, span) ← take
  match found.bind (BinaryOp.ofToken? stratum) with
  | some op => return (op, ← operand)
  | none => failAt span (.noExpression found)

/-- Operands joined by operators of the given strata, the loosest outermost. -/
def binary (operand : Parser Expr) : List (List BinaryOp) → Parser Expr
  | [] => operand
  | stratum :: tighter => do
    let first ← binary operand tighter
    let rest ← many (fun t => (t.bind (BinaryOp.ofToken? stratum)).isSome)
      (rightSide stratum (binary operand tighter))
    return rest.foldl (fun left r => .binary r.1 left r.2 (left.span.merge r.2.span)) first

/-- An expression that nests fewer than `depth` expressions in brackets. -/
def nested : Nat → Parser Expr
  | 0 => do fail (.noExpression (← current))
  | depth + 1 => binary (unary (nested depth)) BinaryOp.strata

/-- An expression. Each bracket takes a token, so the tokens ahead bound the nesting. -/
def expression : Parser Expr := do
  nested ((← remaining) + 1)

end DecafCheck.Parser
