import DecafCheck.Token.Basic
import DecafCheck.Token.Integer

namespace DecafCheck

namespace Lexer

def isBlank (c : Char) : Bool :=
  c == ' ' || c == '\t' || c == '\n' || c == '\r' || c == '\x0c'

def isLetter (c : Char) : Bool :=
  ('a' ≤ c && c ≤ 'z') || ('A' ≤ c && c ≤ 'Z') || c == '_'

def isWordChar (c : Char) : Bool :=
  isLetter c || Integer.isDigit c

/-- A keyword, or else an identifier. -/
def word (cs : List Char) : Token :=
  match Keyword.ofSpelling? (String.ofList cs) with
  | some k => .keyword k
  | none => .identifier (String.ofList cs)

/-- The characters after `0` that make a hexadecimal literal of it. -/
def hexTail : List Char → List Char
  | 'x' :: cs =>
    if (cs.takeWhile Integer.isHexDigit).isEmpty then [] else 'x' :: cs.takeWhile Integer.isHexDigit
  | 'X' :: cs =>
    if (cs.takeWhile Integer.isHexDigit).isEmpty then [] else 'X' :: cs.takeWhile Integer.isHexDigit
  | _ => []

/-- The characters that follow a first digit in the longest integer literal. -/
def integerTail (c : Char) (cs : List Char) : List Char :=
  if c == '0' && !(hexTail cs).isEmpty then hexTail cs else cs.takeWhile Integer.isDigit

inductive Piece
  | token (t : Token)
  | blank
  | invalid
deriving DecidableEq, Repr

/-- The piece that begins with `c`, and how many characters of `cs` belong to it. It is the longest
one: a token, a stretch of blanks or a comment, or a single character that starts neither. -/
def piece (c : Char) (cs : List Char) : Piece × Nat :=
  if isBlank c then
    (.blank, (cs.takeWhile isBlank).length)
  else if c == '/' && cs.head? == some '/' then
    (.blank, (cs.takeWhile (· != '\n')).length)
  else if isLetter c then
    (.token (word (c :: cs.takeWhile isWordChar)), (cs.takeWhile isWordChar).length)
  else if Integer.isDigit c then
    (.token (.integer (String.ofList (c :: integerTail c cs))), (integerTail c cs).length)
  else
    match cs.head?.bind (Mark.ofPair? c) with
    | some m => (.token (.mark m), 1)
    | none =>
      match Mark.ofChar? c with
      | some m => (.token (.mark m), 0)
      | none => (.invalid, 0)

/-- Everything found in `cs`, which begins at byte `start`. The first `inside` characters belong to
a piece that has been found already. -/
def lexemes (start inside : Nat) : List Char → List (Except LexicalError Lexeme)
  | [] => []
  | c :: cs =>
    match inside with
    | n + 1 => lexemes (start + c.utf8Size) n cs
    | 0 =>
      let (found, more) := piece c cs
      let span : Span := ⟨start, start + bytes (c :: cs.take more)⟩
      let rest := lexemes (start + c.utf8Size) more cs
      match found with
      | .token t => .ok ⟨t, span⟩ :: rest
      | .blank => rest
      | .invalid => .error ⟨c, span⟩ :: rest

/-- Inside a piece, scanning goes on behind it. -/
theorem lexemes_inside (start inside : Nat) (cs : List Char) :
    lexemes start inside cs = lexemes (start + bytes (cs.take inside)) 0 (cs.drop inside) := by
  induction cs generalizing start inside with
  | nil => simp [lexemes]
  | cons c cs ih =>
    cases inside with
    | zero => rfl
    | succ n => rw [lexemes, ih]; simp [bytes, Nat.add_assoc]

end Lexer

/-- What a text splits into, and its length in bytes, where the file ends. -/
structure Scan where
  lexemes : List (Except LexicalError Lexeme)
  length : Nat

namespace Scan

def ofChars (cs : List Char) : Scan :=
  ⟨Lexer.lexemes 0 0 cs, bytes cs⟩

def ofString (source : String) : Scan :=
  ofChars source.toList

/-- The empty span at the end of the file. -/
def fileEnd (s : Scan) : Span :=
  ⟨s.length, s.length⟩

/-- Every token, or the first character that starts none. -/
def tokens (s : Scan) : Except LexicalError (List Lexeme) :=
  s.lexemes.mapM id

end Scan

end DecafCheck
