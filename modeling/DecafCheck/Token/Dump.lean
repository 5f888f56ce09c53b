import DecafCheck.Text.Quoted
import DecafCheck.Token.Lexer

namespace DecafCheck

namespace Token

def label : Token → String
  | .keyword k => k.label
  | .identifier _ => "Identifier"
  | .integer digits => if Integer.isHex digits then "HexLiteral" else "IntLiteral"
  | .mark m => m.label

def label? : Option Token → String
  | some t => t.label
  | none => "Eof"

/-- The spelling, for the tokens whose label does not tell it. -/
def payload? : Token → Option String
  | .identifier name => some name
  | .integer digits => some digits
  | _ => none

def outline (t : Token) : Outline :=
  match t.payload? with
  | some text => .wrap t.label (.atom (Text.quote text))
  | none => .atom t.label

def outline? : Option Token → Outline
  | some t => t.outline
  | none => .atom (label? none)

/-- One line of the dump. -/
def dumpLine (token : Option Token) (span : Span) : String :=
  (Outline.record "Token" [.field "kind" (outline? token), .field "span" span.outline]).inline ++
    "\n"

end Token

def Scan.dump (s : Scan) : Except LexicalError String := do
  let tokens ← s.tokens
  return String.join (tokens.map fun l => Token.dumpLine (some l.token) l.span)
    ++ Token.dumpLine none s.fileEnd

end DecafCheck
