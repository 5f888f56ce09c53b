import DecafCheck.Analysis.Basic

namespace DecafCheck

/-- A builder of scopes. The tables of scopes that were still open when a walk ended stay with it
until the next one. -/
structure Builder where
  policy : Policy
  enclosing : List TableId := []

namespace Builder

/-- Builds the scopes of a forest. What was left open is closed first, unless there is no root. -/
def build (b : Builder) (f : Forest) (log : Log) : Outcome (Builder × Forest) :=
  match f.root with
  | none => ⟨(b, f), log, some (.malformed .noRoot)⟩
  | some root =>
    let (s, stop) := follow (Scoping.visit b.policy) { forest := f, enclosing := [], log }
      (f.tour root)
    ⟨({ b with enclosing := s.enclosing }, s.forest), s.log, stop⟩

/-- The builder after its use for forests, each with the log it is to report into. -/
def after (b : Builder) (uses : List (Forest × Log)) : Builder :=
  uses.foldl (fun b use => (b.build use.1 use.2).value.1) b

end Builder

/-- A checker with the types that it inferred last. -/
structure Checker where
  types : Types := []

namespace Checker

/-- Checks the tree of a forest. Types known from before are forgotten, unless there is no root. -/
def check (c : Checker) (f : Forest) (log : Log) : Outcome Checker :=
  match f.root with
  | none => ⟨c, log, some (.malformed .noRoot)⟩
  | some root =>
    let (t, stop) := follow (Typing.visit f) { types := [], log } (f.tour root)
    ⟨{ types := t.types }, t.log, stop⟩

/-- The type that the last check found for a node. -/
def typeOf? (c : Checker) (id : NodeId) : Option InferredType :=
  c.types.lookup id

/-- The checker after its use for forests, each with the log it is to report into. -/
def after (c : Checker) (uses : List (Forest × Log)) : Checker :=
  uses.foldl (fun c use => (c.check use.1 use.2).value) c

end Checker

/-- Builds scopes with a new builder, then checks types with a new checker if that went through. -/
def Forest.analyzeInto (policy : Policy) (f : Forest) (log : Log) : Outcome Forest :=
  let scopes := Builder.build { policy } f log
  match scopes.stop with
  | some stop => ⟨scopes.value.2, scopes.log, some stop⟩
  | none =>
    let types := Checker.check {} scopes.value.2 scopes.log
    ⟨scopes.value.2, types.log, types.stop⟩

end DecafCheck
