import DecafCheck.Program.Grammar
import DecafCheck.Token.Lexer

namespace DecafCheck

/-- A place among the tokens of a text. The tokens `ahead` reach up to the end of the text, or up to
the character that starts none if there is an `invalid` one. Going past a token fetches the one
behind it, so an invalid character is noticed as soon as the token before it is passed. -/
structure Cursor where
  ahead : List Lexeme
  invalid : Option LexicalError
  length : Nat
  previous : Span

namespace Cursor

def current (c : Cursor) : Option Token :=
  c.ahead.head?.map Lexeme.token

def span (c : Cursor) : Span :=
  match c.ahead with
  | l :: _ => l.span
  | [] => ⟨c.length, c.length⟩

/-- Behind the first token. -/
def advance (c : Cursor) : Except ParseError Cursor :=
  match c.ahead, c.invalid with
  | [_], some e => .error (.lexical e)
  | [], _ => .ok { c with previous := c.span }
  | l :: rest, _ => .ok { c with ahead := rest, previous := l.span }

/-- The tokens before the first error, and that error. -/
def split : List (Except LexicalError Lexeme) → List Lexeme × Option LexicalError
  | [] => ([], none)
  | .error e :: _ => ([], some e)
  | .ok l :: rest =>
    let (ahead, invalid) := split rest
    (l :: ahead, invalid)

/-- The start of a text. -/
def ofScan (s : Scan) : Except ParseError Cursor :=
  match split s.lexemes with
  | ([], some e) => .error (.lexical e)
  | (ahead, invalid) => .ok ⟨ahead, invalid, s.length, ⟨0, 0⟩⟩

end Cursor

end DecafCheck
