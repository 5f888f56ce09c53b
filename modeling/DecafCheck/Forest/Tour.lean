import DecafCheck.Failure
import DecafCheck.Forest.Basic

namespace DecafCheck

/-- The steps of a walk that enters a node, walks its children in order, and leaves it. A node
listed more than once is walked once for each mention. -/
inductive Step
  | enter (id : NodeId) (kind : Kind) (span : Span)
  | leave (id : NodeId) (kind : Kind) (span : Span)
  | broken (f : Fault)
deriving DecidableEq, Repr

namespace Forest

/-- The tour from `id`, through ways of at most `depth` nodes. -/
def tourWithin (f : Forest) : Nat → NodeId → List Step
  | 0, _ => [.broken .circular]
  | depth + 1, id =>
    match f.node? id with
    | none => [.broken (.missing f.size id)]
    | some n =>
      .enter id n.kind n.span ::
        (n.kind.children.flatMap (f.tourWithin depth) ++ [.leave id n.kind n.span])

/-- The tour from `id`. A way down that does not run in a circle meets each node at most once. -/
def tour (f : Forest) (id : NodeId) : List Step :=
  f.tourWithin (f.size + 1) id

end Forest

/-- Follows steps until one of them stops the walk. -/
def follow {σ : Type} (visit : σ → Step → σ × Option Stop) : σ → List Step → σ × Option Stop
  | s, [] => (s, none)
  | s, step :: rest =>
    match visit s step with
    | (s, none) => follow visit s rest
    | (s, some stop) => (s, some stop)

theorem follow_append {σ : Type} (visit : σ → Step → σ × Option Stop) (s : σ)
    (steps more : List Step) :
    follow visit s (steps ++ more) =
      match follow visit s steps with
      | (s, none) => follow visit s more
      | (s, some stop) => (s, some stop) := by
  induction steps generalizing s with
  | nil => rfl
  | cons step rest ih =>
    simp only [List.cons_append, follow]
    rcases visit s step with ⟨s, _ | stop⟩
    · exact ih s
    · rfl

/-- If every step can be taken in a changed state, the walk can be followed in it to its end. -/
theorem follow_map {σ : Type} {visit visit' : σ → Step → σ × Option Stop} {change : σ → σ}
    {step' : Step → Step} {stop' : Stop → Stop}
    (h : ∀ s step, visit' (change s) (step' step) = Prod.map change (Option.map stop')
      (visit s step)) (s : σ)
    (steps : List Step) :
    follow visit' (change s) (steps.map step') =
      Prod.map change (Option.map stop') (follow visit s steps) := by
  induction steps generalizing s with
  | nil => rfl
  | cons step rest ih =>
    rw [List.map_cons, follow, follow, h]
    obtain ⟨next, _ | stop⟩ := visit s step
    · exact ih next
    · rfl

end DecafCheck
