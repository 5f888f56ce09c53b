import DecafCheck.Proofs.Scope.Renaming
import DecafCheck.Proofs.Typing.Alongside

namespace DecafCheck

namespace Tree

/-- The node of the innermost scope that declares a name. -/
def holder? (policy : Policy) (n : String) : List Tree → Option NodeId
  | [] => none
  | x :: above =>
    if x.kind.opensScope ∧ (declared? (x.symbols policy (storageIn (around policy above)))
      n).isSome then some x.id
    else holder? policy n above

variable {policy : Policy} {n : String} {x : Tree} {above : List Tree}

theorem holder?_plain (hk : x.kind.opensScope = false) :
    holder? policy n (x :: above) = holder? policy n above := by
  simp [holder?, hk]

theorem holder?_of_declared (hk : x.kind.opensScope = true) {s : Symbol}
    (hs : declared? (x.symbols policy (storageIn (around policy above))) n = some s) :
    holder? policy n (x :: above) = some x.id := by
  simp [holder?, hk, hs]

theorem holder?_of_undeclared (hs : declared?
      (x.symbols policy (storageIn (around policy above))) n = none) :
    holder? policy n (x :: above) = holder? policy n above := by
  simp [holder?, hs]

/-- A name means what its holder declares. -/
theorem holder?_cases {t : Tree} (hp : t.Path above x) (policy : Policy) (n : String) :
    holder? policy n above = none ∧ (around policy above).find? n = none ∨
      ∃ outer z s, t.Path outer z ∧ z.kind.opensScope = true ∧ holder? policy n above = some z.id ∧
        (around policy above).find? n = some s ∧
        declared? (z.symbols policy (storageIn (around policy outer))) n = some s := by
  induction hp with
  | root => exact .inl ⟨rfl, rfl⟩
  | @child above y x hp _ ih =>
    cases hopens : y.kind.opensScope with
    | false =>
      rw [holder?_plain hopens, around_plain hopens]
      exact ih
    | true =>
      rw [around_scope hopens, Scopes.find?_cons]
      cases hs : declared? (y.symbols policy (storageIn (around policy above))) n with
      | some s => exact .inr ⟨above, y, s, hp, hopens, holder?_of_declared hopens hs, rfl, hs⟩
      | none =>
        rw [holder?_of_undeclared hs]
        exact ih

end Tree

namespace Renaming

/-- The scopes around a place, renamed. -/
def scopes (r : Renaming) (policy : Policy) : List Tree → Scopes
  | [] => []
  | x :: above =>
    if x.kind.opensScope then
      r.on (x :: above) (x.symbols policy (Tree.storageIn (Tree.around policy above))) ::
        r.scopes policy above
    else r.scopes policy above

variable {policy : Policy} {r : Renaming}

theorem scopes_plain {x : Tree} {above : List Tree} (hk : x.kind.opensScope = false) :
    r.scopes policy (x :: above) = r.scopes policy above := by
  simp [scopes, hk]

theorem scopes_scope {x : Tree} {above : List Tree} (hk : x.kind.opensScope = true) :
    r.scopes policy (x :: above) =
      r.on (x :: above) (x.symbols policy (Tree.storageIn (Tree.around policy above))) ::
        r.scopes policy above := by
  simp [scopes, hk]

theorem scopes_eq_nil (above : List Tree) :
    r.scopes policy above = [] ↔ Tree.around policy above = [] := by
  induction above with
  | nil => rfl
  | cons x above ih =>
    cases hx : x.kind.opensScope with
    | true =>
      rw [scopes_scope hx, Tree.around_scope hx]
      exact iff_of_false (List.cons_ne_nil _ _) (List.cons_ne_nil _ _)
    | false => rw [scopes_plain hx, Tree.around_plain hx, ih]

theorem storageIn_scopes (above : List Tree) :
    Tree.storageIn (r.scopes policy above) = Tree.storageIn (Tree.around policy above) := by
  simp only [Tree.storageIn, scopes_eq_nil]

section Lookup

variable {above : List Tree} (havoids : ∀ x ∈ above, x.Avoids r.new)

include havoids

/-- Names that do not mean a renamed symbol mean the same. -/
theorem find?_scopes {n : String} (hn : n ≠ r.new)
    (hold : n = r.old → Tree.holder? policy n above ≠ some r.scope) :
    (r.scopes policy above).find? n = (Tree.around policy above).find? n := by
  induction above with
  | nil => rfl
  | cons x above ih =>
    obtain ⟨hx, habove⟩ := List.forall_mem_cons.mp havoids
    cases hopens : x.kind.opensScope with
    | false =>
      rw [Tree.holder?_plain hopens] at hold
      rw [scopes_plain hopens, Tree.around_plain hopens, ih habove hold]
    | true =>
      have hsymbols := Tree.symbols_avoid policy (Tree.storageIn (Tree.around policy above)) hx
      rw [scopes_scope hopens, Tree.around_scope hopens, Scopes.find?_cons, Scopes.find?_cons,
        r.on_scope hopens]
      cases hs : declared? (x.symbols policy (Tree.storageIn (Tree.around policy above))) n with
      | some s =>
        rw [Tree.holder?_of_declared hopens hs] at hold
        split
        · next hid =>
          have hne : n ≠ r.old := fun heq => hold heq (congrArg some hid)
          rw [declared?_map_of_ne hsymbols hn hne, hs]
          rfl
        · rw [hs]
          rfl
      | none =>
        rw [Tree.holder?_of_undeclared hs] at hold
        rw [ih habove hold]
        -- The renamed scope does not declare the old name any more, and did not declare it here
        -- before.
        split
        · by_cases hne : n = r.old
          · rw [hne, declared?_map_old hsymbols]
          · rw [declared?_map_of_ne hsymbols hn hne, hs]
        · rw [hs]

/-- A renamed symbol is found by its new name. -/
theorem find?_scopes_new (hne : r.old ≠ r.new)
    (hholder : Tree.holder? policy r.old above = some r.scope) :
    (r.scopes policy above).find? r.new =
      ((Tree.around policy above).find? r.old).map r.symbol := by
  induction above with
  | nil => cases hholder
  | cons x above ih =>
    obtain ⟨hx, habove⟩ := List.forall_mem_cons.mp havoids
    cases hopens : x.kind.opensScope with
    | false =>
      rw [Tree.holder?_plain hopens] at hholder
      rw [scopes_plain hopens, Tree.around_plain hopens, ih habove hholder]
    | true =>
      have hsymbols := Tree.symbols_avoid policy (Tree.storageIn (Tree.around policy above)) hx
      rw [scopes_scope hopens, Tree.around_scope hopens, Scopes.find?_cons, Scopes.find?_cons,
        r.on_scope hopens]
      cases hs : declared? (x.symbols policy (Tree.storageIn (Tree.around policy above))) r.old with
      | some s =>
        rw [Tree.holder?_of_declared hopens hs] at hholder
        rw [if_pos (Option.some.inj hholder), declared?_map_new hsymbols hne, hs]
        rfl
      | none =>
        rw [Tree.holder?_of_undeclared hs] at hholder
        rw [ih habove hholder]
        split
        · rw [declared?_map_new hsymbols hne, hs]
          rfl
        · rw [declared?_new hsymbols]
          rfl

end Lookup

end Renaming

namespace Tree

variable {policy : Policy} {r : Renaming} {f : Forest}

theorem inLoop_relabel (above : List Tree) :
    inLoop (above.map (relabel (r.kind f))) = inLoop above := by
  cases above with
  | nil => rfl
  | cons x above =>
    rw [List.map_cons, inLoop, inLoop, kind_relabel]
    cases x.kind with
    | location name index =>
      obtain ⟨name', hk⟩ := r.kind_location f x.id name index
      rw [hk]
    | _ => rfl

theorem inBody_relabel (above : List Tree) :
    inBody (above.map (relabel (r.kind f))) = inBody above := by
  cases above with
  | nil => rfl
  | cons x above =>
    rw [List.map_cons, inBody, inBody, kind_relabel, inLoop_relabel]
    cases x.kind with
    | location name index =>
      obtain ⟨name', hk⟩ := r.kind_location f x.id name index
      rw [hk]
    | _ => rfl

theorem isReturn_relabel (x : Tree) : (x.relabel (r.kind f)).kind.isReturn = x.kind.isReturn := by
  rw [kind_relabel]
  cases x.kind with
  | location name index =>
    obtain ⟨name', hk⟩ := r.kind_location f x.id name index
    rw [hk]
    rfl
  | _ => rfl

end Tree

/-- A symbol is used in the same way under another name. -/
theorem Renaming.indexLog_symbol (r : Renaming) (s : Symbol) (span : Span)
    (part : InferredType × Span) :
    (Expr.indexLog (r.symbol s) span part).map Diagnostic.place =
      (Expr.indexLog s span part).map Diagnostic.place := by
  rw [Expr.indexLog, Expr.indexLog]
  split
  · rfl
  · have hlength : (r.symbol s).length = s.length := rfl
    rw [hlength]
    cases s.length != 0 <;> rfl

theorem Verdict.ofLocation_renamed (r : Renaming) {scopes scopes' : Scopes} {name name' : String}
    (h : scopes'.find? name' = (scopes.find? name).map r.symbol)
    (parts : List (InferredType × Span)) (span : Span) :
    Verdict.Alike Diagnostic.place Diagnostic.place (ofLocation scopes name parts span)
      (ofLocation scopes' name' parts span) := by
  rw [ofLocation, ofLocation, h]
  cases scopes.find? name with
  | none => exact ⟨rfl, rfl⟩
  | some s =>
    refine ⟨rfl, ?_⟩
    simp only [Option.map_some, List.map_flatMap, r.indexLog_symbol]

namespace Renaming

variable {policy : Policy} {f : Forest} {t : Tree} {r : Renaming}

/-- The locations that are renamed are those whose name the scope declares innermost. -/
def Exact (r : Renaming) (policy : Policy) (f : Forest) (t : Tree) : Prop :=
  ∀ y above x index, t.Path (y :: above) x → x.kind = .location r.old index →
    ((f.held? r.scope r.old).isSome ∧ f.resolve x.id r.old = f.held? r.scope r.old ↔
      Tree.holder? policy r.old (y :: above) = some r.scope)

/-- The program declares what it declared. -/
theorem Proper.globals_scopes (hr : r.Proper t) (ht : t.kind.opensScope = true)
    {above : List Tree} {x : Tree} (hp : t.Path above x) :
    (r.scopes policy (x :: above)).globals = (Tree.around policy (x :: above)).globals := by
  induction hp with
  | root =>
    rw [scopes_scope ht, Tree.around_scope ht, hr.on_root]
    rfl
  | @child above x c hp hc ih =>
    have hne : Tree.around policy (x :: above) ≠ [] := Tree.around_ne_nil ht hp
    cases hopens : c.kind.opensScope with
    | true =>
      rw [scopes_scope hopens, Tree.around_scope hopens, Scopes.globals_cons hne,
        Scopes.globals_cons (mt (scopes_eq_nil _).mp hne), ih]
    | false => rw [scopes_plain hopens, Tree.around_plain hopens, ih]

theorem Proper.holder?_root (hr : r.Proper t) (policy : Policy) (n : String) :
    Tree.holder? policy n [t] ≠ some r.scope := by
  intro hholder
  unfold Tree.holder? at hholder
  split at hholder
  · exact hr.inside (Option.some.inj hholder)
  · cases hholder

variable (h : f.Carries t) (hfit : ∀ x ∈ t.subtrees, x.Fitting) (hr : r.Proper t)

include h hfit hr

theorem around_relabel {above : List Tree} {x : Tree} (hp : t.Path above x) :
    Tree.around policy ((x :: above).map (Tree.relabel (r.kind f))) =
      r.scopes policy (x :: above) := by
  have hstep {above : List Tree} {x : Tree} (hp : t.Path above x)
      (hrest : Tree.around policy (above.map (Tree.relabel (r.kind f))) = r.scopes policy above) :
      Tree.around policy ((x :: above).map (Tree.relabel (r.kind f))) =
      r.scopes policy (x :: above) := by
    have hopens : (x.relabel (r.kind f)).kind.opensScope = x.kind.opensScope := by
      rw [Tree.kind_relabel]
      exact Kind.opensScope_of_nameless (r.nameless_kind f x.id x.kind)
    rw [List.map_cons, Tree.around, scopes, hrest, hopens, storageIn_scopes]
    split
    · next hx => rw [symbols_relabel h hfit hr hp hx]
    · rfl
  induction hp with
  | root => exact hstep .root rfl
  | child hp hc ih => exact hstep (hp.child hc) ih

/-- A verdict on a renamed node is the verdict on the node, in other words. -/
theorem verdict_relabel (ht : t.kind.opensScope = true) (hexact : r.Exact policy f t) {y : Tree}
    {above : List Tree} {x : Tree} (hp : t.Path (y :: above) x) (parts : List (InferredType × Span))
    (returned : List (Option InferredType × Span)) :
    Verdict.Alike Diagnostic.place Diagnostic.place
      (x.kind.verdict (Tree.around policy (y :: above))
        (Tree.inBody (y :: above)) parts returned x.span)
      ((r.kind f x.id x.kind).verdict
        (Tree.around policy ((y :: above).map (Tree.relabel (r.kind f))))
        (Tree.inBody ((y :: above).map (Tree.relabel (r.kind f)))) parts returned x.span) := by
  have hpy : t.Path above y := by
    cases hp with
    | child hpy _ => exact hpy
  have havoids := hr.avoids_above hp
  have hfresh {name : String} (hname : name ∈ x.kind.names) : name ≠ r.new := by
    rintro rfl
    exact hr.fresh x hp.mem hname
  rw [around_relabel h hfit hr hpy, Tree.inBody_relabel]
  have hcall (name : String) : Verdict.ofCall (r.scopes policy (y :: above)) name parts x.span =
      Verdict.ofCall (Tree.around policy (y :: above)) name parts x.span := by
    rw [Verdict.ofCall, Verdict.ofCall, hr.globals_scopes ht hpy]
  cases hk : x.kind with
  | function name returns parameters body =>
    -- The name of a function is looked up in the program, which is not renamed.
    obtain ⟨rfl, rfl⟩ := h.function_of_path hfit hp hk
    have hname : name ≠ r.new := hfresh (hk ▸ List.mem_cons_self)
    rw [kind, Kind.verdict, Kind.verdict,
      find?_scopes havoids hname fun _ => hr.holder?_root policy name]
    exact ⟨rfl, rfl⟩
  | location name index =>
    have hname : name ≠ r.new := hfresh (hk ▸ List.mem_cons_self)
    rw [kind]
    split
    · next hcond =>
      obtain ⟨rfl, hcond⟩ := hcond
      have hholder := (hexact y above x index hp hk).mp hcond
      exact Verdict.ofLocation_renamed r (find?_scopes_new havoids hname hholder) parts x.span
    · next hcond =>
      have hfind : (r.scopes policy (y :: above)).find? name =
          (Tree.around policy (y :: above)).find? name := by
        refine find?_scopes havoids hname fun hold hholder => hcond ⟨hold, ?_⟩
        subst hold
        exact (hexact y above x index hp hk).mpr hholder
      rw [Kind.verdict, Kind.verdict, Verdict.ofLocation, Verdict.ofLocation, hfind]
      exact ⟨rfl, rfl⟩
  | call name arguments =>
    show Verdict.Alike _ _ (.ofCall _ name parts x.span) (.ofCall _ name parts x.span)
    rw [hcall]
    exact ⟨rfl, rfl⟩
  | callStatement name arguments =>
    show Verdict.Alike _ _ { Verdict.ofCall _ name parts x.span with type := none }
      { Verdict.ofCall _ name parts x.span with type := none }
    rw [hcall]
    exact ⟨rfl, rfl⟩
  | _ => exact ⟨rfl, rfl⟩

/-- A tree and its renamed copy go alongside each other. -/
theorem alongside (ht : t.kind.opensScope = true) (hexact : r.Exact policy f t) :
    Alongside policy id id Diagnostic.place Diagnostic.place fun above x above' x' =>
      t.Path above x ∧ above' = above.map (Tree.relabel (r.kind f)) ∧
      x' = x.relabel (r.kind f) where
  span := by
    rintro above _ x _ ⟨-, -, rfl⟩
    rw [Tree.span_relabel]
  isReturn := by
    rintro above _ x _ ⟨-, -, rfl⟩
    rw [Tree.isReturn_relabel]
  children := by
    rintro above _ x _ ⟨hp, rfl, rfl⟩
    rw [Tree.children_relabel, List.forall₂_map_right_iff]
    exact List.forall₂_same.mpr fun c hc => ⟨hp.child hc, rfl, rfl⟩
  verdict := by
    rintro y y' above above' x _ ⟨hp, habove, rfl⟩ parts parts' returned returned' hparts hreturned
    rw [Prod.map_id, List.map_id, List.map_id] at hparts hreturned
    rw [hparts, hreturned, habove, Tree.kind_relabel, Tree.span_relabel]
    exact verdict_relabel h hfit hr ht hexact hp parts' returned'

end Renaming

end DecafCheck
