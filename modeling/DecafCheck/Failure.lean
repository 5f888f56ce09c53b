import DecafCheck.Diagnostic.Basic
import DecafCheck.Program.Grammar

namespace DecafCheck

/-- Uses of the library that no program text leads to. -/
inductive Fault
  /-- Nothing has the number `index`; the numbers in use lie below `size`. -/
  | missing (size index : Nat)
  /-- A variable without a value type or without elements. -/
  | unstorable
  /-- A way through nodes or tables that comes back to itself. -/
  | circular
  /-- An offset behind the last one. -/
  | beyondOffsets
deriving DecidableEq, Repr

def Fault.message : Fault → String
  | missing size index =>
    "index out of bounds: the len is " ++ toString size ++ " but the index is " ++ toString index
  | unstorable => "assertion failed: ty != DataType::Void && array_length > 0"
  | circular => "circular reference"
  | beyondOffsets => "attempt to add with overflow"

/-- What keeps a hand-made forest from being analysed. -/
inductive Malformed
  | noRoot
  | outsideScope (declaration : Span)
  | noTable (node : String) (span : Span)
  | looseFunction (name : String)
  | bodyNotBlock (name : String)
deriving DecidableEq, Repr

def Malformed.message : Malformed → String
  | noRoot => "AST has no root node"
  | outsideScope span => "declaration at " ++ span.text ++ " is outside of any scope"
  | noTable node span => "no symbol table reachable from " ++ node ++ " at " ++ span.text
  | looseFunction name => "function '" ++ name ++ "' has no enclosing scope"
  | bodyNotBlock name => "body of function '" ++ name ++ "' is not a block"

/-- Why work on a text or a forest ends early. -/
inductive Stop
  | lexical (e : LexicalError)
  | grammar (e : GrammarError)
  | malformed (m : Malformed)
  | fault (f : Fault)
deriving DecidableEq, Repr

/-- A failure in words: of the lexer, of the parser, of the tree or of reading the input. -/
inductive Failure
  | lexical (message : String) (span : Span)
  | grammar (message : String) (span : Span)
  | malformed (message : String)
  | input (message : String)
deriving DecidableEq, Repr

def Failure.text : Failure → String
  | lexical message span => "Lexer error at " ++ span.outline.inline ++ ": " ++ message
  | grammar message span => "Parser error at " ++ span.outline.inline ++ ": " ++ message
  | malformed message => "Malformed AST: " ++ message
  | input message => "IO error: " ++ message

namespace Stop

/-- The words for a stop; a fault is none of the user's making and has its own. -/
def failure : Stop → Failure
  | lexical e => .lexical e.message e.span
  | grammar e => .grammar e.fault.message e.span
  | malformed m => .malformed m.message
  | fault f => .malformed f.message

def ofParseError : ParseError → Stop
  | .lexical e => lexical e
  | .grammar e => grammar e

end Stop

/-- What a pass leaves: its result so far, what it reported, and why it ended early if it did. -/
structure Outcome (α : Type) where
  value : α
  log : List Diagnostic
  stop : Option Stop

end DecafCheck
