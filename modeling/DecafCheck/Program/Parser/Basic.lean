import DecafCheck.Program.Cursor

namespace DecafCheck

/-- Parsers with one token of lookahead. A type, a name or an array length is taken before it is
judged; every other token is judged before it is taken. -/
abbrev Parser := StateT Cursor (Except ParseError)

namespace Parser

def current : Parser (Option Token) :=
  return (← get).current

def currentSpan : Parser Span :=
  return (← get).span

/-- The span of the token taken last. -/
def previousSpan : Parser Span :=
  return (← get).previous

def remaining : Parser Nat :=
  return (← get).ahead.length

def failAt {α : Type} (span : Span) (fault : GrammarFault) : Parser α :=
  throw (.grammar ⟨fault, span⟩)

def fail {α : Type} (fault : GrammarFault) : Parser α := do
  failAt (← currentSpan) fault

/-- Takes the current token, or stays at the end of the text. -/
def take : Parser (Option Token × Span) := do
  let c ← get
  set (← c.advance)
  return (c.current, c.span)

def skip : Parser Unit := do
  discard take

/-- Whether the current token is `m`. -/
def sees (m : Mark) : Parser Bool :=
  return (← current) == some (.mark m)

def expectToken (t : Token) : Parser Unit := do
  let found ← current
  if found == some t then skip else fail (.expected (.token t) found)

def expect (m : Mark) : Parser Unit :=
  expectToken (.mark m)

/-- Takes the current token if it is `m`. -/
def accept (m : Mark) : Parser Bool := do
  if ← sees m then
    skip
    return true
  else
    return false

def identifier : Parser (String × Span) := do
  let (found, span) ← take
  match found with
  | some (.identifier name) => return (name, span)
  | _ => failAt span (.expected .identifier found)

def dataType : Parser DataType := do
  let (found, span) ← take
  match found.bind DataType.ofToken? with
  | some type => return type
  | none => failAt span (.expected .type found)

/-- The value of an integer literal at `span`. -/
def integer (spelling : String) (span : Span) : Parser Nat :=
  if Integer.value spelling < integerBound then
    return Integer.value spelling
  else
    failAt span (.integerTooLarge spelling)

/-- Repeats `item` while `continues` holds of the current token, at most `bound` times. -/
def manyUpTo {α : Type} (continues : Option Token → Bool) (item : Parser α) : Nat → Parser (List α)
  | 0 => return []
  | bound + 1 => do
    if continues (← current) then
      let first ← item
      let rest ← manyUpTo continues item bound
      return first :: rest
    else
      return []

/-- Repeats `item` while `continues` holds of the current token. Items take at least one token each,
so the tokens ahead bound their number. -/
def many {α : Type} (continues : Option Token → Bool) (item : Parser α) : Parser (List α) := do
  manyUpTo continues item (← remaining)

/-- One item or more with commas between them. -/
def separated {α : Type} (item : Parser α) : Parser (List α) := do
  let first ← item
  let rest ← many (· == some (.mark .comma)) do
    skip
    item
  return first :: rest

/-- Items with commas between them, in parentheses. -/
def parenthesized {α : Type} (item : Parser α) : Parser (List α) := do
  expect .leftParen
  let items ← if ← sees .rightParen then pure [] else separated item
  expect .rightParen
  return items

/-- From `start` to the end of the token taken last. -/
def spanFrom (start : Span) : Parser Span :=
  return start.merge (← previousSpan)

end Parser

end DecafCheck
