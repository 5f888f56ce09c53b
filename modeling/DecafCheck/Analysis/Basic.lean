import DecafCheck.Forest.Planting
import DecafCheck.Program.Parser
import DecafCheck.Scope.Build
import DecafCheck.Typing.Check

namespace DecafCheck

/-- Builds scopes, then checks types if that went through. -/
def Forest.analyze (policy : Policy) (f : Forest) : Outcome (Forest × Types) :=
  let scopes := f.buildScopes policy
  match scopes.stop with
  | some stop => ⟨(scopes.value, []), scopes.log, some stop⟩
  | none =>
    let types := scopes.value.checkTypes []
    ⟨(scopes.value, types.value), scopes.log ++ types.log, types.stop⟩

/-- The forest of a program with its parents filled in. -/
def Program.forest (p : Program) : Except Fault Forest :=
  p.plant.link

/-- The forest that a text holds. -/
def Forest.parse (source : String) : Except Stop Forest := do
  let p ← (Program.parse source).mapError Stop.ofParseError
  p.forest.mapError Stop.fault

structure Analysis where
  forest : Forest
  types : Types
  log : List Diagnostic

def Analysis.isOk (a : Analysis) : Bool :=
  a.log.isEmpty

/-- Checks a text from start to end. -/
def check (policy : Policy) (source : String) : Except Stop Analysis := do
  let f ← Forest.parse source
  let outcome := f.analyze policy
  match outcome.stop with
  | some stop => throw stop
  | none => return ⟨outcome.value.1, outcome.value.2, outcome.log⟩

end DecafCheck
