import DecafCheck.Diagnostic.Problem
import DecafCheck.Forest.Tour

namespace DecafCheck

/-- Whether arrays may be declared inside functions. -/
structure Policy where
  globalArraysOnly : Bool := false
deriving DecidableEq, Repr

/-- What is wrong with a variable by itself. -/
def Policy.objection? (p : Policy) (storage : Storage) (name : String) (type : DataType)
    (length : Nat) :
    Option Problem :=
  if type = .void then some (.voidVariable name)
  else if length = 0 then some (.emptyArray name)
  else if p.globalArraysOnly ∧ storage = .frame ∧ 1 < length then some (.localArray name)
  else none

/-- A walk in progress; the table of the innermost open scope comes first. -/
structure Scoping where
  forest : Forest
  enclosing : List TableId := []
  log : List Diagnostic := []

namespace Scoping

def report (s : Scoping) (p : Problem) (span : Span) : Scoping :=
  { s with log := s.log ++ [p.on span] }

def openScope (s : Scoping) (id : NodeId) : Scoping :=
  let (tables, table) := s.forest.tables.openScope s.enclosing.head?
  { s with
    forest := { s.forest with tables }.attach id table
    enclosing := table :: s.enclosing }

def closeScope (s : Scoping) : Scoping :=
  { s with enclosing := s.enclosing.tail }

def innermost (s : Scoping) (span : Span) : Except Stop TableId :=
  match s.enclosing with
  | table :: _ => .ok table
  | [] => .error (.malformed (.outsideScope span))

/-- Where a variable declared here is stored. -/
def storage (s : Scoping) : Storage :=
  if s.enclosing.length = 1 then .global else .frame

/-- Adds a symbol to the innermost scope. A name that is taken there is reported and stays as it
is. -/
def declare (s : Scoping) (symbol : Symbol) : Except Stop Scoping := do
  match s.forest.tables.insert (← s.innermost symbol.span) symbol with
  | .ok tables => return { s with forest := { s.forest with tables } }
  | .error (.fault f) => throw (.fault f)
  | .error _ => return s.report (.declaredTwice symbol.name) symbol.span

def declareVariable (policy : Policy) (s : Scoping) (name : String) (type : DataType) (length : Nat)
    (span : Span) : Except Stop Scoping := do
  let _ ← s.innermost span
  match policy.objection? s.storage name type length with
  | some p => return s.report p span
  | none =>
    match Symbol.ofVariable name type length s.storage span with
    | .ok symbol => s.declare symbol
    | .error f => throw (.fault f)

def enter (policy : Policy) (s : Scoping) (id : NodeId) (span : Span) : Kind → Except Stop Scoping
  | .program _ _ => .ok (s.openScope id)
  | .block _ _ => .ok (s.openScope id)
  | .function name returns parameters _ => do
    let s ← s.declare (.ofFunction name returns (parameters.map Parameter.type) span)
    parameters.foldlM (fun s p => s.declare (.ofParameter p)) (s.openScope id)
  | .variable name type length => s.declareVariable policy name type length span
  | _ => .ok s

def visit (policy : Policy) (s : Scoping) : Step → Scoping × Option Stop
  | .enter id kind span =>
    match s.enter policy id span kind with
    | .ok s => (s, none)
    | .error stop => (s, some stop)
  | .leave _ kind _ => (if kind.opensScope then s.closeScope else s, none)
  | .broken f => (s, some (.fault f))

end Scoping

/-- Gives every scope of the tree below the root a new table and fills it. A table is attached
before the children are walked, so a name is visible in the whole of its scope. -/
def Forest.buildScopes (policy : Policy) (f : Forest) : Outcome Forest :=
  match f.root with
  | none => ⟨f, [], some (.malformed .noRoot)⟩
  | some root =>
    let (s, stop) := follow (Scoping.visit policy) { forest := f } (f.tour root)
    ⟨s.forest, s.log, stop⟩

end DecafCheck
