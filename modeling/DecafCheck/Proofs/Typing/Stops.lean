import DecafCheck.Proofs.Scope.Loose
import DecafCheck.Proofs.Typing.Walk

namespace DecafCheck

/-- Whether a node has to be inside a scope, because it declares a name there or looks one up. -/
def Kind.needsScope : Kind → Bool
  | .variable _ _ _ => true
  | .function _ _ _ _ => true
  | .location _ _ => true
  | .call _ _ => true
  | .callStatement _ _ => true
  | _ => false

theorem Kind.needsScope_of_declares {kind : Kind} (h : kind.declares = true) :
    kind.needsScope = true := by
  cases kind with
  | function | «variable» => rfl
  | _ => cases h

/-- A walk on which some step stops whatever came before it is stopped by that step or an earlier
one. -/
theorem follow_stops {σ : Type} {visit : σ → Step → σ × Option Stop} {steps : List Step}
    {P : Stop → Prop} (hall : ∀ step ∈ steps, ∀ s stop, (visit s step).2 = some stop → P stop)
    (hsome : ∃ step ∈ steps, ∀ s, (visit s step).2 ≠ none) (s : σ) :
    ∃ stop, (follow visit s steps).2 = some stop ∧ P stop := by
  induction steps generalizing s with
  | nil => simp at hsome
  | cons first rest ih =>
    rw [follow]
    rcases hv : visit s first with ⟨next, stop⟩
    cases stop with
    | some stop => exact ⟨stop, rfl, hall first List.mem_cons_self s stop (by rw [hv])⟩
    | none =>
      refine ih (fun step hstep => hall step (List.mem_cons_of_mem first hstep)) ?_ next
      obtain ⟨step, hstep, hne⟩ := hsome
      rcases List.mem_cons.mp hstep with rfl | hstep
      · exact absurd (by rw [hv]) (hne s)
      · exact ⟨step, hstep, hne⟩

/-- Where no declaration is loose, every declaration is inside a scope. -/
theorem Tree.Path.exists_scope {t x : Tree} {above : List Tree} (hp : t.Path above x)
    (hfree : ∀ x, t.Loose x → x.kind.declares = false) (hk : x.kind.declares = true) :
    ∃ y ∈ above, y.kind.opensScope = true := by
  by_contra hn
  have hloose := hp.loose fun y hy => Bool.eq_false_iff.mpr fun hyk => hn ⟨y, hy, hyk⟩
  rw [hfree x hloose] at hk
  exact Bool.noConfusion hk

/-- A walk enters and leaves the nodes of the tree. -/
theorem Tree.mem_steps {t : Tree} {step : Step} :
    step ∈ t.steps ↔ ∃ x ∈ t.subtrees, step = .enter x.id x.kind x.span ∨
      step = .leave x.id x.kind x.span := by
  induction t with
  | node id kind span cs ih =>
    have hcs : step ∈ Tree.stepsAll cs ↔
        ∃ x ∈ cs.flatMap subtrees, step = .enter x.id x.kind x.span ∨
        step = .leave x.id x.kind x.span := by
      rw [Tree.stepsAll_eq, List.mem_flatMap]
      constructor
      · rintro ⟨c, hc, hstep⟩
        obtain ⟨x, hx, h⟩ := (ih c hc).mp hstep
        exact ⟨x, List.mem_flatMap.mpr ⟨c, hc, hx⟩, h⟩
      · rintro ⟨x, hx, h⟩
        obtain ⟨c, hc, hx⟩ := List.mem_flatMap.mp hx
        exact ⟨c, hc, (ih c hc).mpr ⟨x, hx, h⟩⟩
    rw [Tree.steps, List.mem_cons, List.mem_append, hcs, List.mem_singleton, subtrees_node]
    simp only [List.mem_append, List.mem_singleton, or_and_right, exists_or, exists_eq_left,
      id_node, kind_node, span_node]
    exact or_left_comm

namespace Forest

/-- The check stops if a verdict always does, and then at a verdict that stops. -/
theorem Carries.checkTypes_malformed {f : Forest} {t : Tree} (h : f.Carries t)
    (hall : ∀ x ∈ t.subtrees, ∀ types stop, (f.judge types x).stop = some stop →
      ∃ m, stop = .malformed m)
    (hsome : ∃ x ∈ t.subtrees, ∀ types, (f.judge types x).stop ≠ none) (before : Types) :
    ∃ m, (f.checkTypes before).stop = some (.malformed m) := by
  have hmalformed : ∀ step ∈ t.steps, ∀ s stop, (Typing.visit f s step).2 = some stop →
      ∃ m, stop = .malformed m := by
    intro step hstep s stop hs
    obtain ⟨x, hx, rfl | rfl⟩ := Tree.mem_steps.mp hstep
    · cases hs
    · exact hall x hx s.types stop hs
  have hstops : ∃ step ∈ t.steps, ∀ s, (Typing.visit f s step).2 ≠ none := by
    obtain ⟨x, hx, hne⟩ := hsome
    exact ⟨_, Tree.mem_steps.mpr ⟨x, hx, .inr rfl⟩, fun s => hne s.types⟩
  obtain ⟨stop, hstop, m, rfl⟩ := follow_stops hmalformed hstops {}
  exact ⟨m, by simp only [checkTypes, h.root, h.tour_eq, hstop]⟩

def IsBlock (f : Forest) (id : NodeId) : Prop :=
  ∃ vars statements, f.kindOf? id = some (.block vars statements)

/-- The node is inside a scope if it has to be, and if it is a function, its body is a block. -/
def Placed (f : Forest) (above : List Tree) (x : Tree) : Prop :=
  (x.kind.needsScope = true → ∃ y ∈ above, y.kind.opensScope = true) ∧
    ∀ name returns parameters body, x.kind = .function name returns parameters body → f.IsBlock body

theorem Alike.placed_iff {f g : Forest} (a : f.Alike g) {above : List Tree} {x : Tree} :
    f.Placed above x ↔ g.Placed above x := by
  simp only [Placed, IsBlock, a.kind]

/-- All nodes of the tree are in their places. -/
def Orderly (f : Forest) (t : Tree) : Prop :=
  ∀ {above : List Tree} {x : Tree}, t.Path above x → f.Placed above x

theorem Alike.orderly_iff {f g : Forest} (a : f.Alike g) {t : Tree} :
    f.Orderly t ↔ g.Orderly t := by
  simp only [Orderly, a.placed_iff]

/-- A node that needs no scope is in its place anywhere. -/
theorem placed_of_not_needsScope {f : Forest} {above : List Tree} {x : Tree}
    (hk : x.kind.needsScope = false) :
    f.Placed above x := by
  constructor
  · intro hn
    rw [hk] at hn
    exact Bool.noConfusion hn
  · intro name returns parameters body hf
    rw [hf] at hk
    exact Bool.noConfusion hk

theorem stop_checkLocation {f : Forest} {id : NodeId} {k : TableId} {scopes : Scopes}
    (hn : f.nearestTable id = some k) (hc : f.tables.Chain k scopes) (types : Types) (span : Span)
    (name : String) (index : Option NodeId) :
    (f.checkLocation types id span name index).stop = none := by
  simp only [checkLocation, hn, hc.lookup_eq]
  cases scopes.find? name <;> rfl

theorem stop_checkCall {f : Forest} {id : NodeId} {k : TableId} {scopes : Scopes}
    (hn : f.nearestTable id = some k) (hc : f.tables.Chain k scopes) (types : Types)
    (kind : Kind) (span : Span) (name : String) (arguments : List NodeId) :
    (f.checkCall types id kind span name arguments).stop = none := by
  obtain ⟨parent, hg⟩ := hc.outermost_eq
  simp only [checkCall, hn, hg]
  split
  · rfl
  · split <;> rfl

/-- A scope inside another has a table around its own. -/
theorem Unscoped.exists_tableAround? {policy : Policy} {f : Forest} {t : Tree}
    (u : f.Unscoped policy t) {above : List Tree} {x y : Tree} (hp : t.Path above x)
    (hk : x.kind.opensScope = true) (hy : y ∈ above) (hyk : y.kind.opensScope = true) :
    ∃ j, f.tableAround? x.id = some j := by
  obtain ⟨k, hs⟩ := u.seated hp List.mem_cons_self hk
  cases hp with
  | root => exact absurd hy List.not_mem_nil
  | child hz hc =>
    obtain ⟨j, hj⟩ := u.seated hz hy hyk
    exact ⟨j, (hs.tableAround?_eq hk).trans hj.nearest⟩

/-- Whether a verdict stops the check does not depend on the types so far: it never does at a node
in its place, and always does at any other. -/
def Decided (f : Forest) (above : List Tree) (x : Tree) : Prop :=
  (f.Placed above x ∧ ∀ types, (f.judge types x).stop = none) ∨
    (¬ f.Placed above x ∧ ∀ types, ∃ m, (f.judge types x).stop = some (.malformed m))

theorem Unscoped.decided_function {policy : Policy} {f : Forest} {t : Tree}
    (u : f.Unscoped policy t) {above : List Tree} {x y : Tree} (hp : t.Path above x) {name : String}
    {returns : DataType} {parameters : List Parameter} {body : NodeId}
    (hk : x.kind = .function name returns parameters body) (hy : y ∈ above)
    (hyk : y.kind.opensScope = true) : f.Decided above x := by
  obtain ⟨j, hj⟩ := u.exists_tableAround? hp (by rw [hk]; rfl) hy hyk
  by_cases hb : f.IsBlock body
  · refine .inl ⟨⟨fun _ => ⟨y, hy, hyk⟩, ?_⟩, fun types => ?_⟩
    · intro name' returns' parameters' body' hk'
      rw [hk] at hk'
      cases hk'
      exact hb
    · obtain ⟨vars, statements, hb⟩ := hb
      simp only [judge, hk, verdict, checkFunction, hj, hb]
  · refine .inr ⟨fun hpl => hb (hpl.2 _ _ _ _ hk), fun types => ⟨.bodyNotBlock name, ?_⟩⟩
    simp only [judge, hk, verdict, checkFunction, hj]
    split
    · next vars statements hblock => exact absurd ⟨vars, statements, hblock⟩ hb
    · rfl

section Decided

variable {policy : Policy} {f : Forest} {t : Tree} (h : f.Carries t) (l : f.Linked t)
  (u : f.Unscoped policy t)

include h l u

/-- A node that looks a name up. -/
theorem decided_use {above : List Tree} {x : Tree} (hp : t.Path above x)
    (hs : x.kind.opensScope = false) (hk : x.kind.needsScope = true)
    (hfound : ∀ k scopes, f.nearestTable x.id = some k → f.tables.Chain k scopes →
      ∀ types, (f.judge types x).stop = none)
    (hnone : f.nearestTable x.id = none →
      ∀ types, ∃ m, (f.judge types x).stop = some (.malformed m)) :
    f.Decided above x := by
  have hnearest := nearestTable_eq h l hp
  have hbody : ∀ name returns parameters body, x.kind = .function name returns parameters body →
      f.IsBlock body := by
    intro name returns parameters body hf
    rw [hf] at hs
    exact Bool.noConfusion hs
  by_cases hy : ∃ y ∈ above, y.kind.opensScope = true
  · obtain ⟨y, hy, hyk⟩ := hy
    obtain ⟨k, hseat⟩ := u.seated hp (List.mem_cons_of_mem x hy) hyk
    exact .inl ⟨⟨fun _ => ⟨y, hy, hyk⟩, hbody⟩,
      hfound k _ (hnearest.trans hseat.nearest) hseat.chain⟩
  · have hplain : ∀ y ∈ x :: above, y.kind.opensScope = false := by
      refine List.forall_mem_cons.mpr ⟨hs, fun y hya => ?_⟩
      exact Bool.eq_false_iff.mpr fun hyk => hy ⟨y, hya, hyk⟩
    exact .inr ⟨fun hpl => hy (hpl.1 hk), hnone (hnearest.trans (u.unseated hp hplain).nearest)⟩

/-- Once the scopes have been built, only names that are used outside of all scopes and functions
without a block stop the check. -/
theorem decided (hfree : ∀ x, t.Loose x → x.kind.declares = false) {above : List Tree} {x : Tree}
    (hp : t.Path above x) : f.Decided above x := by
  cases hk : x.kind with
  | function name returns parameters body =>
    obtain ⟨y, hy, hyk⟩ := hp.exists_scope hfree (by rw [hk]; rfl)
    exact u.decided_function hp hk hy hyk
  | «variable» name type length =>
    refine .inl ⟨⟨fun _ => hp.exists_scope hfree (by rw [hk]; rfl), ?_⟩, fun types => ?_⟩
    · intro name' returns parameters body hf
      rw [hk] at hf
      cases hf
    · rw [judge, hk]
      rfl
  | location name index =>
    refine decided_use h l u hp (by rw [hk]; rfl) (by rw [hk]; rfl) ?_ ?_
    · intro k scopes hn hc types
      simp only [judge, hk, verdict, stop_checkLocation hn hc]
    · intro hn types
      exact ⟨_, by simp only [judge, hk, verdict, checkLocation, hn, Verdict.malformed]; rfl⟩
  | call name arguments | callStatement name arguments =>
    refine decided_use h l u hp (by rw [hk]; rfl) (by rw [hk]; rfl) ?_ ?_
    · intro k scopes hn hc types
      simp only [judge, hk, verdict, stop_checkCall hn hc]
    · intro hn types
      exact ⟨_, by simp only [judge, hk, verdict, checkCall, hn, Verdict.malformed]; rfl⟩
  | binary op left right =>
    refine .inl ⟨placed_of_not_needsScope (by rw [hk]; rfl), fun types => ?_⟩
    simp only [judge, hk, verdict, Verdict.ofBinary]
    split <;> rfl
  | _ =>
    refine .inl ⟨placed_of_not_needsScope (by rw [hk]; rfl), fun types => ?_⟩
    rw [judge, hk]
    rfl

end Decided

end Forest

end DecafCheck
