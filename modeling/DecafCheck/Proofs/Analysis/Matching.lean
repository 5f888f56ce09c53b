import DecafCheck.Proofs.Analysis.Spans
import DecafCheck.Proofs.Typing.Findings

namespace DecafCheck

namespace Forest

/-- The reports stand for the nodes with the property: each of these is reported once, at its span,
and nothing else is reported. No two of these nodes have the same span. -/
def Matches (f : Forest) (reports : List Diagnostic) (P : NodeId → Prop) : Prop :=
  ∃ ids : List NodeId, (∀ id, id ∈ ids ↔ P id) ∧ (ids.map f.spanOf).Nodup ∧
    reports.map Diagnostic.span = ids.map f.spanOf

end Forest

theorem Problem.code_of_isOfDeclaration {q : Problem} (hq : q.isOfDeclaration = true) :
    q.code = .duplicateDeclaration ∨ q.code = .invalidDeclaration := by
  cases q
  case declaredTwice => exact .inl rfl
  case voidVariable => exact .inr rfl
  case emptyArray => exact .inr rfl
  case localArray => exact .inr rfl
  all_goals cases hq

theorem Problem.select_of_isOfDeclaration {q : Problem}
    (hq : q.isOfDeclaration = true) (span : Span) {select : Diagnostic → Bool} {code : Code}
    (hselect : ∀ d, select d = true → d.code = code)
    (hcode : code ≠ .duplicateDeclaration ∧ code ≠ .invalidDeclaration) :
    select (q.on span) = false := by
  by_contra hs
  have hc : q.code = code := hselect _ (Bool.of_not_eq_false hs)
  rcases code_of_isOfDeclaration hq with hd | hd
  · exact hcode.1 (hc ▸ hd)
  · exact hcode.2 (hc ▸ hd)

theorem Kind.eq_program_of_finds {k : Kind} {q : Problem} (hf : k.finds q = true)
    (hq : q.code = .missingMain ∨ q.code = .malformedMain) :
    ∃ vars functions, k = .program vars functions := by
  cases q
  case missingMain =>
    cases k
    case program => exact ⟨_, _, rfl⟩
    all_goals cases hf
  case mainReturns =>
    cases k
    case program => exact ⟨_, _, rfl⟩
    all_goals cases hf
  case mainParameters =>
    cases k
    case program => exact ⟨_, _, rfl⟩
    all_goals cases hf
  all_goals rcases hq with hq | hq <;> cases hq

/-- The node at which a problem of a node is reported. -/
def Tree.Shows (x : Tree) : Site → Tree → Prop
  | .own, z => z = x
  | .part, z => z ∈ x.children
  | .ret, z => ∃ b ∈ x.children, z ∈ b.children ∧ ∃ value, z.kind = .ret value
  | .function, z => z ∈ x.children

theorem Tree.return?_eq_some {types : Types} {z : Tree} {r : Option InferredType × Span}
    (hr : z.return? types = some r) : (∃ value, z.kind = .ret value) ∧ z.span = r.2 := by
  unfold return? at hr
  split at hr
  · next value hk =>
    cases hr
    exact ⟨⟨value, hk⟩, rfl⟩
  · cases hr

theorem Tree.exists_of_returned {types : Types} {x : Tree} {s : Span}
    (hs : s ∈ (x.returned types).map Prod.snd) :
    ∃ z, x.Shows .ret z ∧ z.span = s := by
  obtain ⟨r, hr, rfl⟩ := List.mem_map.mp hs
  obtain ⟨b, hb, hr⟩ := List.mem_flatMap.mp hr
  obtain ⟨z, hz, hr⟩ := List.mem_filterMap.mp hr
  obtain ⟨hk, hspan⟩ := return?_eq_some hr
  exact ⟨z, ⟨b, hb, hz, hk⟩, hspan⟩

namespace Forest

/-- A list of nodes for each node. No node is in two of these lists or twice in one, and the root is
in none. -/
structure Parted (f : Forest) (part : NodeId → List NodeId) : Prop where
  nodup : ∀ id, (part id).Nodup
  unique : ∀ {a b c}, c ∈ part a → c ∈ part b → a = b
  node : ∀ {a c}, c ∈ part a → a < f.size ∧ c < f.size ∧ f.root ≠ some c

theorem Parted.sublist {f : Forest} {part part' : NodeId → List NodeId} (h : f.Parted part)
    (hs : ∀ id, (part' id).Sublist (part id)) : f.Parted part' where
  nodup id := (h.nodup id).sublist (hs id)
  unique ha hb := h.unique ((hs _).subset ha) ((hs _).subset hb)
  node ha := h.node ((hs _).subset ha)

section Parted

variable {f : Forest} {t : Tree} (h : f.Carries t)

include h

theorem Carries.ids_perm : t.ids.Perm (List.range f.size) := by
  refine (List.perm_ext_iff_of_nodup h.distinct List.nodup_range).mpr fun id => ?_
  rw [List.mem_range]
  refine ⟨fun hid => ?_, h.all id⟩
  obtain ⟨x, hx, rfl⟩ := List.mem_map.mp hid
  exact h.lt_size hx

theorem Carries.nodup_children {id : NodeId} {kind : Kind} (hk : f.kindOf? id = some kind) :
    kind.children.Nodup := by
  obtain ⟨x, hx, -, rfl⟩ := h.of_kindOf? hk
  rw [h.listed x hx]
  exact (List.nodup_flatMap.mp (List.nodup_cons.mp (Tree.listed_nodup h.distinct)).2).1 x hx

theorem Carries.node_of_lists {a c : NodeId} (hl : f.Lists a c) :
    a < f.size ∧ c < f.size ∧ f.root ≠ some c := by
  refine ⟨?_, ?_, fun hr => root_not_listed h hr hl⟩
  all_goals
    obtain ⟨x, hx, rfl, d, hd, rfl⟩ := h.mem_links_iff.mp (mem_links.mpr hl)
  · exact h.lt_size hx
  · exact h.lt_size (Tree.subtrees_trans hx (Tree.child_mem_subtrees hd))

end Parted

section Reports

variable {policy : Policy} {p : Program} {g : Forest} {types : Types}
  (c : g.Checked policy p.tree types)

include c

/-- The verdict on a node of a program, itself apart. -/
theorem Checked.judge_eq_verdict {x : Tree} (hx : x ∈ p.tree.subtrees) (hne : x ≠ p.tree) :
    ∃ above, p.tree.Path above x ∧ g.judge types x = x.kind.verdict (Tree.around policy above)
      (Tree.inBody above) (x.children.map (Tree.seen types)) (x.returned types) x.span := by
  obtain ⟨above, hp⟩ := Tree.exists_path hx
  cases hp with
  | root => exact absurd rfl hne
  | child hy hc =>
    exact ⟨_, hy.child hc, c.judge_eq (fun x => Program.fitting_of_mem) (hy.child hc) types⟩

omit c in
theorem judge_program (g : Forest) (types : Types) (p : Program) :
    g.judge types p.tree = g.checkProgram
      ((Declaration.functionTrees 0 p.declarations).map Tree.id) p.span :=
  rfl

theorem Checked.child_below {x z : Tree} (hx : x ∈ p.tree.subtrees) (hz : z ∈ x.children) :
    z ∈ p.tree.subtrees ∧ z ≠ p.tree := by
  refine ⟨Tree.subtrees_trans hx (Tree.child_mem_subtrees hz), ?_⟩
  rintro rfl
  exact Tree.child_id_ne_root c.carries.distinct hx hz rfl

/-- Every report of a verdict is about a problem of the node, at the node that shows it. -/
theorem Checked.judge_sites {x : Tree} (hx : x ∈ p.tree.subtrees) :
    Findings (fun q s => x.kind.finds q = true ∧ ∃ z, x.Shows q.site z ∧ z.span = s)
      (g.judge types x).log := by
  by_cases hne : x = p.tree
  · subst hne
    intro d hd
    rw [judge_program] at hd
    obtain ⟨q, s, rfl, hq⟩ := g.checkProgram_findings _ _ d hd
    refine ⟨q, s, rfl, ?_⟩
    rcases hq with ⟨rfl, rfl⟩ | ⟨hq, hsite, id, hid, rfl⟩
    · exact ⟨rfl, p.tree, rfl, rfl⟩
    · obtain ⟨z, hz, rfl⟩ := List.mem_map.mp hid
      have hchild : z ∈ p.tree.children := List.mem_append_right _ hz
      refine ⟨?_, z, hsite ▸ hchild, (c.carries.span z (c.child_below hx hchild).1).symm⟩
      cases q <;> cases hsite <;> rfl
  · obtain ⟨above, -, hjudge⟩ := c.judge_eq_verdict hx hne
    rw [hjudge]
    intro d hd
    obtain ⟨q, s, rfl, hq, hs⟩ := Kind.findings _ _ _ _ _ _ d hd
    refine ⟨q, s, rfl, hq, ?_⟩
    cases hsite : q.site <;> rw [hsite] at hs
    case own => exact ⟨x, rfl, hs.symm⟩
    case part =>
      obtain ⟨a, ha, rfl⟩ := List.mem_map.mp hs
      obtain ⟨z, hz, rfl⟩ := List.mem_map.mp ha
      exact ⟨z, hz, rfl⟩
    case ret => exact Tree.exists_of_returned hs
    case function => exact hs.elim

theorem Checked.judge_findings {x : Tree} (hx : x ∈ p.tree.subtrees) :
    Findings (fun q _ => x.kind.finds q = true) (g.judge types x).log := by
  intro d hd
  obtain ⟨q, s, rfl, hq, -⟩ := c.judge_sites hx d hd
  exact ⟨q, s, rfl, hq⟩

/-- Reports that are about no declaration come from the verdicts on the nodes. -/
theorem Checked.filter_log {select : Diagnostic → Bool}
    (hs : ∀ q span, Problem.isOfDeclaration q = true → select (q.on span) = false) :
    (p.log policy).filter select = p.tree.subtrees.flatMap fun x =>
      (g.judge types x).log.filter select := by
  rw [Program.log, List.filter_append, (p.scopeLog_findings policy).filter_eq_nil hs,
    List.nil_append, ← c.program, logs, List.filter_flatMap]

variable {f : Forest} {length : Nat} {ls : List Lexeme} (h : f.Carries p.tree)
  (placed : p.Placed length ls)

/-- The reports stand for the nodes of a list for each node, if those of each verdict do. -/
theorem Checked.map_span_filter_log (code : Code) {select : Diagnostic → Bool}
    (hselect : ∀ d, select d = true → d.code = code)
    (hcode : code ≠ .duplicateDeclaration ∧ code ≠ .invalidDeclaration)
    {part : NodeId → List NodeId} (hlog : ∀ x ∈ p.tree.subtrees,
      ((g.judge types x).log.filter select).map Diagnostic.span = (part x.id).map f.spanOf) :
    ((p.log policy).filter select).map Diagnostic.span =
      (p.tree.ids.flatMap part).map f.spanOf := by
  have hdeclaration (q : Problem) (span : Span) (hq : q.isOfDeclaration = true) :
      select (q.on span) = false :=
    q.select_of_isOfDeclaration hq span hselect hcode
  rw [c.filter_log hdeclaration, List.map_flatMap, List.flatMap_congr hlog,
    List.map_flatMap, Tree.ids, List.flatMap_map]

omit c in
include h placed in
theorem Parted.nodup_spans {part : NodeId → List NodeId} (hpart : f.Parted part) :
    ((p.tree.ids.flatMap part).map f.spanOf).Nodup := by
  have hnode {id : NodeId} (hid : id ∈ p.tree.ids.flatMap part) :
      ∃ x ∈ p.tree.subtrees, x ≠ p.tree ∧ x.id = id := by
    obtain ⟨a, -, hid⟩ := List.mem_flatMap.mp hid
    obtain ⟨-, hlt, hroot⟩ := hpart.node hid
    obtain ⟨x, hx, rfl⟩ := h.tree_of_lt hlt
    refine ⟨x, hx, ?_, rfl⟩
    rintro rfl
    exact hroot h.root
  refine List.Nodup.map_on (fun a ha b hb hab => ?_)
    (List.nodup_flatMap.mpr ⟨fun id _ => hpart.nodup id, ?_⟩)
  · obtain ⟨x, hx, hxp, rfl⟩ := hnode ha
    obtain ⟨y, hy, hyp, rfl⟩ := hnode hb
    rw [h.span x hx, h.span y hy] at hab
    rw [placed.eq_of_span_eq hx hy hxp hyp hab]
  · exact h.distinct.pairwise_of_forall_ne fun a _ b _ hne id ha hb => hne (hpart.unique ha hb)

include h placed in
theorem Checked.matches_of_parted (code : Code) {select : Diagnostic → Bool}
    (hselect : ∀ d, select d = true → d.code = code)
    (hcode : code ≠ .duplicateDeclaration ∧ code ≠ .invalidDeclaration)
    {part : NodeId → List NodeId} (hpart : f.Parted part) (hlog : ∀ x ∈ p.tree.subtrees,
      ((g.judge types x).log.filter select).map Diagnostic.span = (part x.id).map f.spanOf)
    {P : NodeId → Prop} (hP : ∀ id, (∃ a, id ∈ part a) ↔ P id) :
    f.Matches ((p.log policy).filter select) P := by
  refine ⟨p.tree.ids.flatMap part, fun id => ?_, hpart.nodup_spans h placed,
    c.map_span_filter_log code hselect hcode hlog⟩
  rw [← hP id, List.mem_flatMap]
  constructor
  · rintro ⟨a, -, ha⟩
    exact ⟨a, ha⟩
  · rintro ⟨a, ha⟩
    exact ⟨a, h.all a (hpart.node ha).1, ha⟩

omit c in
include h in
theorem Carries.kindOf?_ne_root {id : NodeId} {kind : Kind} (hk : f.kindOf? id = some kind)
    (hne : ∀ vars functions, kind ≠ .program vars functions) : id < f.size ∧ f.root ≠ some id := by
  obtain ⟨x, hx, rfl, rfl⟩ := h.of_kindOf? hk
  refine ⟨h.lt_size hx, fun hr => ?_⟩
  obtain rfl := Tree.eq_of_id_eq h.distinct hx p.tree.self_mem_subtrees
    (Option.some.inj (hr.symm.trans h.root))
  exact hne _ _ rfl

end Reports

end Forest

end DecafCheck
