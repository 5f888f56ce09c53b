import DecafCheck.Proofs.Typing.Local
import Mathlib.Data.List.Forall2

namespace DecafCheck

section Rows

variable {α β γ : Type} {as : List α} {bs : List β} {R S : α → β → Prop}

theorem forall₂_of_mem (h : List.Forall₂ R as bs) (hS : ∀ a ∈ as, ∀ b ∈ bs, R a b → S a b) :
    List.Forall₂ S as bs := by
  induction h with
  | nil => exact .nil
  | @cons a b as bs hab _ ih =>
    refine .cons (hS a List.mem_cons_self b List.mem_cons_self hab) (ih fun c hc d hd => ?_)
    exact hS c (List.mem_cons_of_mem a hc) d (List.mem_cons_of_mem b hd)

theorem map_eq_of_forall₂ (h : List.Forall₂ R as bs) {g : α → γ} {g' : β → γ}
    (hR : ∀ a b, R a b → g a = g' b) :
    as.map g = bs.map g' := by
  induction h with
  | nil => rfl
  | @cons a b _ _ hab _ ih => rw [List.map_cons, List.map_cons, hR a b hab, ih]

theorem flatMap_eq_of_forall₂ (h : List.Forall₂ R as bs) {g : α → List γ} {g' : β → List γ}
    (hR : ∀ a b, R a b → g a = g' b) : as.flatMap g = bs.flatMap g' := by
  rw [List.flatMap_def, List.flatMap_def, map_eq_of_forall₂ h hR]

theorem getElem?_of_forall₂ (h : List.Forall₂ R as bs) (i : Nat) :
    (as[i]? = none ∧ bs[i]? = none) ∨ ∃ a b, as[i]? = some a ∧ bs[i]? = some b ∧ R a b := by
  induction h generalizing i with
  | nil => exact .inl ⟨rfl, rfl⟩
  | @cons a b _ _ hab _ ih =>
    cases i with
    | zero => exact .inr ⟨a, b, rfl, rfl, hab⟩
    | succ i => exact ih i

end Rows

def Kind.isReturn : Kind → Bool
  | .ret _ => true
  | _ => false

theorem Forest.Carries.return?_of_seen {f : Forest} {t : Tree} (h : f.Carries t) {x : Tree}
    (hx : x ∈ t.subtrees) (types : Types) :
    x.return? types =
      if x.kind.isReturn then some ((x.children.map (Tree.seen types)).head?.map Prod.fst, x.span)
        else none := by
  have hlisted := h.listed x hx
  unfold Tree.return?
  cases hk : x.kind with
  | ret value =>
    rw [hk] at hlisted
    have hvalue : value = (x.children.map Tree.id).head? := by
      rw [← hlisted]
      cases value <;> rfl
    rw [hvalue, List.head?_map, List.head?_map, Option.map_map]
    show some (Option.map types.get (Option.map Tree.id _), x.span) = some _
    rw [Option.map_map]
    rfl
  | _ => rfl

/-- Verdicts that give the same type, and the same problems as far as these are looked at. -/
def Verdict.Alike {α : Type} (δ δ' : Diagnostic → α) (v w : Verdict) : Prop :=
  v.type = w.type ∧ v.log.map δ = w.log.map δ'

section Alongside

variable {α : Type} (policy : Policy) (φ φ' : Span → Span) (δ δ' : Diagnostic → α)

/-- A relation between the places of two trees that the checks respect. Spans are seen by `φ` and
`φ'`, problems by `δ` and `δ'`. -/
structure Alongside (R : List Tree → Tree → List Tree → Tree → Prop) : Prop where
  span {above above' : List Tree} {x x' : Tree} : R above x above' x' → φ x.span = φ' x'.span
  isReturn {above above' : List Tree} {x x' : Tree} : R above x above' x' →
  x.kind.isReturn = x'.kind.isReturn
  children {above above' : List Tree} {x x' : Tree} : R above x above' x' →
    List.Forall₂ (fun c c' => R (x :: above) c (x' :: above') c') x.children x'.children
  verdict {y y' : Tree} {above above' : List Tree} {x x' : Tree} :
  R (y :: above) x (y' :: above') x' →
    ∀ {parts parts' : List (InferredType × Span)}
      {returned returned' : List (Option InferredType × Span)},
      parts.map (Prod.map id φ) = parts'.map (Prod.map id φ') →
      returned.map (Prod.map id φ) = returned'.map (Prod.map id φ') →
      Verdict.Alike δ δ'
        (x.kind.verdict (Tree.around policy (y :: above))
          (Tree.inBody (y :: above)) parts returned x.span)
        (x'.kind.verdict (Tree.around policy (y' :: above')) (Tree.inBody (y' :: above')) parts'
          returned' x'.span)

/-- The same is found in two trees. -/
structure Forest.Agree (f f' : Forest) (types types' : Types) (x x' : Tree) : Prop where
  type : types.lookup x.id = types'.lookup x'.id
  span : φ x.span = φ' x'.span
  ret : (x.return? types).map (Prod.map id φ) = (x'.return? types').map (Prod.map id φ')
  returns : (x.children.filterMap (Tree.return? types)).map (Prod.map id φ) =
    (x'.children.filterMap (Tree.return? types')).map (Prod.map id φ')
  logs : (f.logs types x).map δ = (f'.logs types' x').map δ'

end Alongside

namespace Forest

variable {α : Type} {policy : Policy} {φ φ' : Span → Span} {δ δ' : Diagnostic →
  α} {f f' : Forest} {t t' : Tree} {types types' : Types}

theorem Agree.seen {x x' : Tree} (h : Agree φ φ' δ δ' f f' types types' x x') :
    (x.seen types).map id φ = (x'.seen types').map id φ' := by
  rw [Tree.seen, Tree.seen, Types.get, Types.get, h.type]
  exact Prod.ext rfl h.span

/-- What the checks respect, they find on both sides. -/
theorem Checked.agree (h : f.Checked policy t types) (h' : f'.Checked policy t' types')
    (hfit : ∀ x ∈ t.subtrees, x.Fitting) (hfit' : ∀ x ∈ t'.subtrees, x.Fitting)
    {R : List Tree → Tree → List Tree → Tree → Prop} (w : Alongside policy φ φ' δ δ' R)
    {y y' x x' : Tree} {above above' : List Tree} (hp : t.Path (y :: above) x)
    (hp' : t'.Path (y' :: above') x') (hR : R (y :: above) x (y' :: above') x') :
    Agree φ φ' δ δ' f f' types types' x x' := by
  induction x generalizing x' y y' above above' with
  | node n kind span cs ih =>
    have hcs : List.Forall₂ (Agree φ φ' δ δ' f f' types types') cs x'.children :=
      forall₂_of_mem (w.children hR) fun c hc c' hc' => ih c hc (hp.child hc) (hp'.child hc')
    have hparts : (cs.map (Tree.seen types)).map (Prod.map id φ) =
        (x'.children.map (Tree.seen types')).map (Prod.map id φ') := by
      rw [List.map_map, List.map_map]
      exact map_eq_of_forall₂ hcs fun c c' hc => hc.seen
    have hreturned : (Tree.returned types (.node n kind span cs)).map (Prod.map id φ) =
        (x'.returned types').map (Prod.map id φ') := by
      rw [Tree.returned, Tree.returned, List.map_flatMap, List.map_flatMap]
      exact flatMap_eq_of_forall₂ hcs fun c c' hc => hc.returns
    have hverdict := w.verdict hR hparts hreturned
    rw [← h'.judge_eq hfit' hp' types'] at hverdict
    have hjudge := h.judge_eq hfit hp types
    simp only [Tree.kind_node, Tree.children_node, Tree.span_node] at hjudge hverdict
    rw [← hjudge] at hverdict
    refine ⟨?_, w.span hR, ?_, ?_, ?_⟩
    · rw [h.typed.fits _ hp.mem, h'.typed.fits _ hp'.mem, hverdict.1]
    · have hvalue : (cs.map (Tree.seen types)).head?.map Prod.fst =
          (x'.children.map (Tree.seen types')).head?.map Prod.fst := by
        have hhead := congrArg (fun parts => parts.head?.map Prod.fst) hparts
        simp only [List.head?_map, Option.map_map] at hhead ⊢
        exact hhead
      rw [h.carries.return?_of_seen hp.mem, h'.carries.return?_of_seen hp'.mem, ← w.isReturn hR]
      split
      · exact congrArg some (Prod.ext hvalue (w.span hR))
      · rfl
    · rw [List.map_filterMap, List.map_filterMap, List.filterMap_eq_flatMap_toList,
        List.filterMap_eq_flatMap_toList]
      exact flatMap_eq_of_forall₂ hcs fun c c' hc => congrArg Option.toList hc.ret
    · rw [logs_eq, logs_eq, List.map_append, List.map_append, hverdict.2, List.map_flatMap,
        List.map_flatMap]
      exact congrArg (· ++ _) (flatMap_eq_of_forall₂ hcs fun c c' hc => hc.logs)

end Forest

end DecafCheck
