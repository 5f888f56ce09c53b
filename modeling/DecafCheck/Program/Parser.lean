import DecafCheck.Program.Parser.Expression

namespace DecafCheck

namespace Parser

/-- The length in brackets behind a variable's name, if one follows. -/
def arrayLength : Parser Nat := do
  if ← accept .leftBracket then
    let (found, span) ← take
    match found with
    | some (.integer spelling) =>
      let length ← integer spelling span
      if length < arrayBound then
        expect .rightBracket
        return length
      else
        failAt span (.arrayTooLong length)
    | _ => failAt span (.expected .arrayLength found)
  else
    return 1

def variableDeclaration : Parser Variable := do
  let start ← currentSpan
  let type ← dataType
  let (name, _) ← identifier
  let length ← arrayLength
  expect .semicolon
  return ⟨name, type, length, ← spanFrom start⟩

def assignmentOrCall : Parser Stmt := do
  let (name, start) ← identifier
  if ← sees .leftParen then
    let arguments ← parenthesized expression
    expect .semicolon
    return .call name arguments (← spanFrom start)
  else
    let index ← index? expression
    let target ← spanFrom start
    expect .assign
    let value ← expression
    expect .semicolon
    return .assign name index target value (← spanFrom start)

/-- The value that a return statement gives back, if it has one. -/
def returned? : Parser (Option Expr) := do
  if ← sees .semicolon then
    return none
  else
    return some (← expression)

def condition : Parser Expr := do
  expect .leftParen
  let e ← expression
  expect .rightParen
  return e

/-- The block behind `else`, if there is one. -/
def otherwise? (block : Parser Block) : Parser (Option Block) := do
  if (← current) == some (.keyword .else_) then
    skip
    return some (← block)
  else
    return none

def statement (block : Parser Block) : Parser Stmt := do
  let start ← currentSpan
  let found ← current
  match found with
  | some (.identifier _) => assignmentOrCall
  | some (.keyword .if_) =>
    skip
    let test ← condition
    let yes ← block
    let no ← otherwise? block
    return .branch test yes no (← spanFrom start)
  | some (.keyword .while_) =>
    skip
    let guard ← condition
    let body ← block
    return .loop guard body (← spanFrom start)
  | some (.keyword .return_) =>
    skip
    let value ← returned?
    expect .semicolon
    return .ret value (← spanFrom start)
  | some (.keyword .break_) =>
    skip
    expect .semicolon
    return .jump .exit (← spanFrom start)
  | some (.keyword .continue_) =>
    skip
    expect .semicolon
    return .jump .next (← spanFrom start)
  | _ => fail (.expected .statement found)

/-- A block that nests fewer than `depth` blocks. -/
def nestedBlock : Nat → Parser Block
  | 0 => do fail (.expected (.token (.mark .leftBrace)) (← current))
  | depth + 1 => do
    let start ← currentSpan
    expect .leftBrace
    let vars ← many (fun t => t.any Token.isType) variableDeclaration
    let statements ← many (fun t => t.isSome && t != some (.mark .rightBrace))
      (statement (nestedBlock depth))
    expect .rightBrace
    return .mk vars statements (← spanFrom start)

/-- A block. Each brace takes a token, so the tokens ahead bound the nesting. -/
def block : Parser Block := do
  nestedBlock ((← remaining) + 1)

def parameter : Parser Parameter := do
  let start ← currentSpan
  let type ← dataType
  let (name, span) ← identifier
  return ⟨name, type, start.merge span⟩

def function : Parser Function := do
  let start ← currentSpan
  expectToken (.keyword .def_)
  let returns ← dataType
  let (name, _) ← identifier
  let parameters ← parenthesized parameter
  let body ← block
  return ⟨name, returns, parameters, body, ← spanFrom start⟩

def declaration : Parser Declaration := do
  let found ← current
  if found == some (.keyword .def_) then
    return .function (← function)
  else if found.any Token.isType then
    return .variable (← variableDeclaration)
  else
    fail (.expected .declaration found)

def program : Parser Program := do
  let start ← currentSpan
  let declarations ← many Option.isSome declaration
  return ⟨declarations, ← spanFrom start⟩

end Parser

def Program.ofScan (s : Scan) : Except ParseError Program := do
  let start ← Cursor.ofScan s
  Parser.program.run' start

/-- The program that a text holds. -/
def Program.parse (source : String) : Except ParseError Program :=
  ofScan (Scan.ofString source)

end DecafCheck
