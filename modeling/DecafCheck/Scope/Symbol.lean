import DecafCheck.Failure
import DecafCheck.Program.Basic

namespace DecafCheck

inductive Storage
  | global | frame
deriving DecidableEq, Repr

def Storage.name : Storage → String
  | global => "global"
  | frame => "local"

inductive SymbolKind
  | variable (length : Nat) (storage : Storage)
  | parameter
  | function (parameters : List DataType)
deriving DecidableEq, Repr

/-- The type of a function is the one it returns. -/
structure Symbol where
  name : String
  kind : SymbolKind
  type : DataType
  span : Span
deriving DecidableEq, Repr

namespace Symbol

/-- A variable has a value type and at least one element. -/
def ofVariable (name : String) (type : DataType) (length : Nat) (storage : Storage) (span : Span) :
    Except Fault Symbol :=
  if type ≠ .void ∧ 0 < length then
    .ok ⟨name, .variable length storage, type, span⟩
  else
    .error .unstorable

def ofParameter (p : Parameter) : Symbol :=
  ⟨p.name, .parameter, p.type, p.span⟩

def ofFunction (name : String) (returns : DataType) (parameters : List DataType) (span : Span) :
    Symbol :=
  ⟨name, .function parameters, returns, span⟩

def isFunction (s : Symbol) : Bool :=
  match s.kind with
  | .function _ => true
  | _ => false

/-- How many elements can be addressed; a function has none. -/
def length (s : Symbol) : Nat :=
  match s.kind with
  | .variable length _ => length
  | .parameter => 1
  | .function _ => 0

def isArray (s : Symbol) : Bool :=
  1 < s.length

def storage? (s : Symbol) : Option Storage :=
  match s.kind with
  | .variable _ storage => some storage
  | .parameter => some .frame
  | .function _ => none

def returns? (s : Symbol) : Option DataType :=
  if s.isFunction then some s.type else none

def parameters (s : Symbol) : List DataType :=
  match s.kind with
  | .function parameters => parameters
  | _ => []

def text (s : Symbol) : String :=
  match s.kind with
  | .variable length storage =>
    let head := storage.name ++ " " ++ s.type.name ++ " " ++ s.name
    if 1 < length then head ++ "[" ++ toString length ++ "]" else head
  | .parameter => "param " ++ s.type.name ++ " " ++ s.name
  | .function parameters =>
    "def " ++ s.type.name ++ " " ++ s.name ++ "(" ++
      ", ".intercalate (parameters.map DataType.name) ++ ")"

end Symbol

end DecafCheck
