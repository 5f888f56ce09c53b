import DecafCheck.Forest.Tour
import DecafCheck.Typing.Verdict

namespace DecafCheck

/-- A walk in progress. -/
structure Typing where
  types : Types := []
  log : List Diagnostic := []

namespace Typing

def add (t : Typing) (id : NodeId) (v : Verdict) : Typing where
  types :=
    match v.type with
    | some type => (id, type) :: t.types
    | none => t.types
  log := t.log ++ v.log

def visit (f : Forest) (t : Typing) : Step → Typing × Option Stop
  | .enter _ _ _ => (t, none)
  | .leave id kind span =>
    let v := f.verdict t.types id span kind
    (t.add id v, v.stop)
  | .broken e => (t, some (.fault e))

end Typing

/-- Checks the tree below the root. Types known from before are forgotten, unless there is no root.
Nodes are judged when the walk leaves them, so the types of the operands are known when an
expression has its turn. -/
def Forest.checkTypes (f : Forest) (before : Types) : Outcome Types :=
  match f.root with
  | none => ⟨before, [], some (.malformed .noRoot)⟩
  | some root =>
    let (t, stop) := follow (Typing.visit f) {} (f.tour root)
    ⟨t.types, t.log, stop⟩

end DecafCheck
