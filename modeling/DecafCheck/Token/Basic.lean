import DecafCheck.Source.Span

namespace DecafCheck

inductive Keyword
  | def_ | int | bool | void | if_ | else_ | while_ | return_ | break_ | continue_ | true_ | false_
deriving DecidableEq, Repr

namespace Keyword

def all : List Keyword :=
  [def_, int, bool, void, if_, else_, while_, return_, break_, continue_, true_, false_]

def spelling : Keyword → String
  | def_ => "def"
  | int => "int"
  | bool => "bool"
  | void => "void"
  | if_ => "if"
  | else_ => "else"
  | while_ => "while"
  | return_ => "return"
  | break_ => "break"
  | continue_ => "continue"
  | true_ => "true"
  | false_ => "false"

/-- The keyword's name in a token dump. -/
def label : Keyword → String
  | def_ => "Def"
  | int => "Int"
  | bool => "Bool"
  | void => "Void"
  | if_ => "If"
  | else_ => "Else"
  | while_ => "While"
  | return_ => "Return"
  | break_ => "Break"
  | continue_ => "Continue"
  | true_ => "True"
  | false_ => "False"

def ofSpelling? (word : String) : Option Keyword :=
  all.find? fun k => k.spelling == word

end Keyword

/-- Operators and delimiters. -/
inductive Mark
  | plus | minus | star | slash | percent
  | equal | notEqual | less | greater | lessEqual | greaterEqual
  | and | or | not | assign
  | leftParen | rightParen | leftBracket | rightBracket | leftBrace | rightBrace
  | semicolon | comma
deriving DecidableEq, Repr

namespace Mark

def spelling : Mark → String
  | plus => "+"
  | minus => "-"
  | star => "*"
  | slash => "/"
  | percent => "%"
  | equal => "=="
  | notEqual => "!="
  | less => "<"
  | greater => ">"
  | lessEqual => "<="
  | greaterEqual => ">="
  | and => "&&"
  | or => "||"
  | not => "!"
  | assign => "="
  | leftParen => "("
  | rightParen => ")"
  | leftBracket => "["
  | rightBracket => "]"
  | leftBrace => "\x7b"
  | rightBrace => "\x7d"
  | semicolon => ";"
  | comma => ","

/-- The mark's name in a token dump. -/
def label : Mark → String
  | plus => "Plus"
  | minus => "Minus"
  | star => "Star"
  | slash => "Slash"
  | percent => "Percent"
  | equal => "EqEq"
  | notEqual => "NotEq"
  | less => "Lt"
  | greater => "Gt"
  | lessEqual => "LtEq"
  | greaterEqual => "GtEq"
  | and => "AmpAmp"
  | or => "PipePipe"
  | not => "Bang"
  | assign => "Eq"
  | leftParen => "LParen"
  | rightParen => "RParen"
  | leftBracket => "LBracket"
  | rightBracket => "RBracket"
  | leftBrace => "LBrace"
  | rightBrace => "RBrace"
  | semicolon => "Semi"
  | comma => "Comma"

def ofPair? : Char → Char → Option Mark
  | '=', '=' => some equal
  | '!', '=' => some notEqual
  | '<', '=' => some lessEqual
  | '>', '=' => some greaterEqual
  | '&', '&' => some and
  | '|', '|' => some or
  | _, _ => none

def ofChar? : Char → Option Mark
  | '+' => some plus
  | '-' => some minus
  | '*' => some star
  | '/' => some slash
  | '%' => some percent
  | '<' => some less
  | '>' => some greater
  | '!' => some not
  | '=' => some assign
  | '(' => some leftParen
  | ')' => some rightParen
  | '[' => some leftBracket
  | ']' => some rightBracket
  | '{' => some leftBrace
  | '}' => some rightBrace
  | ';' => some semicolon
  | ',' => some comma
  | _ => none

end Mark

inductive Token
  | keyword (k : Keyword)
  | identifier (name : String)
  | integer (spelling : String)
  | mark (m : Mark)
deriving DecidableEq, Repr

/-- A token and the text it stands on. -/
structure Lexeme where
  token : Token
  span : Span
deriving DecidableEq, Repr

/-- A character that starts no token. -/
structure LexicalError where
  char : Char
  span : Span
deriving DecidableEq, Repr

def LexicalError.message (e : LexicalError) : String :=
  "unexpected character '" ++ e.char.toString ++ "'"

namespace Token

def spelling : Token → String
  | .keyword k => k.spelling
  | .identifier name => name
  | .integer digits => digits
  | .mark m => m.spelling

/-- A token as error messages name it. -/
def describe : Token → String
  | .keyword k => "'" ++ k.spelling ++ "'"
  | .identifier name => "identifier '" ++ name ++ "'"
  | .integer digits => "integer '" ++ digits ++ "'"
  | .mark m => "'" ++ m.spelling ++ "'"

/-- What stands at a place of the text: a token, or nothing at its end. -/
def describe? : Option Token → String
  | some t => t.describe
  | none => "end of file"

def isType : Token → Bool
  | .keyword .int => true
  | .keyword .bool => true
  | .keyword .void => true
  | _ => false

end Token

end DecafCheck
