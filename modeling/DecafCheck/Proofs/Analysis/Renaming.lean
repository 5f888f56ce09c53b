import DecafCheck.Proofs.Analysis.Inside
import DecafCheck.Proofs.Typing.Renaming

namespace DecafCheck

/-- Functions and blocks. -/
def Kind.opensLocal : Kind → Bool
  | .function _ _ _ _ | .block _ _ => true
  | _ => false

theorem Kind.opensScope_of_opensLocal {k : Kind} (h : k.opensLocal = true) :
    k.opensScope = true := by
  cases k with
  | function | block => rfl
  | _ => cases h

theorem Kind.parameter_of_mem {k : Kind} {s : Symbol} (hs : s ∈ k.parameterSymbols) :
    s.kind = .parameter := by
  cases k with
  | function name returns parameters body =>
    obtain ⟨p, -, rfl⟩ := List.mem_map.mp hs
    rfl
  | _ => exact absurd hs List.not_mem_nil

namespace Forest

/-- The names that occur in a forest. -/
def names (f : Forest) : List String :=
  f.nodes.toList.flatMap fun n => n.kind.names

/-- The forest after a renaming. The names mean what they mean under the policy. -/
def renamed (policy : Policy) (r : Renaming) (f : Forest) : Forest :=
  f.relabel (r.kind (f.buildScopes policy).value)

variable {policy : Policy} {f : Forest} {t : Tree}

theorem Carries.avoids (h : f.Carries t) {n : String} (hn : n ∉ f.names) : t.Avoids n := by
  intro x hx hmem
  obtain ⟨node, hnode, hk, -⟩ := h.node hx
  refine hn (List.mem_flatMap.mpr ⟨node, Array.mem_toList_iff.mpr (Array.mem_of_getElem? hnode),
    ?_⟩)
  rwa [hk]

theorem Built.held?_eq (b : f.Built policy t) {above : List Tree} {x : Tree} (hp : t.Path above x)
    (hx : x.kind.opensScope = true) (name : String) :
    f.held? x.id name = declared?
      (x.symbols policy (Tree.storageIn (Tree.around policy above))) name := by
  obtain ⟨k, hs⟩ := b.seated hp
  obtain ⟨htable, hget⟩ := hs.own hx
  rw [held?, htable, Option.bind_some, hget]
  exact declared?_firsts _ name

/-- What a scope declares apart from parameters are its variables and functions themselves. -/
theorem Carries.declared_by (h : f.Carries t) (hfit : ∀ x ∈ t.subtrees, x.Fitting)
    (ht : t.kind.opensScope = true) {y x : Tree} {above : List Tree} (hp : t.Path (y :: above) x)
    {storage : Storage} {s : Symbol} (hs : s ∈ x.declares policy storage) :
    y.kind.opensScope = true ∧ s.span = x.span ∧ s.kind ≠ .parameter := by
  induction x generalizing y above with
  | node id kind span cs ih =>
    -- What declares something stands right below a scope, so a node that opens none has nothing to
    -- pass on.
    have hcs (hplain : kind.opensScope = false) : s ∉ Tree.declaresAll policy storage cs := by
      rw [Tree.declaresAll_eq]
      intro hs
      obtain ⟨c, hc, hs⟩ := List.mem_flatMap.mp hs
      exact Bool.false_ne_true (hplain.symm.trans (ih c hc (hp.child hc) hs).1)
    cases kind with
    | «variable» name type length =>
      obtain ⟨-, rfl⟩ := Policy.symbol?_eq_some_iff.mp (Option.mem_toList.mp hs)
      exact ⟨h.opensScope_of_variable hfit hp rfl, rfl, SymbolKind.noConfusion⟩
    | function name returns parameters body =>
      obtain ⟨-, rfl⟩ := h.function_of_path hfit hp rfl
      obtain rfl := List.mem_singleton.mp hs
      exact ⟨ht, rfl, SymbolKind.noConfusion⟩
    | program | block => exact absurd hs List.not_mem_nil
    | _ => exact absurd hs (hcs rfl)

/-- Parameters belong to functions of the program. -/
theorem Carries.child_of_parameter (h : f.Carries t) (hfit : ∀ x ∈ t.subtrees, x.Fitting)
    {vars functions : List NodeId} (hk : t.kind = .program vars functions) {above : List Tree}
    {x : Tree} (hp : t.Path above x) {s : Symbol} (hs : s ∈ x.kind.parameterSymbols) :
    x ∈ t.children := by
  cases hp with
  | root =>
    rw [hk] at hs
    exact absurd hs List.not_mem_nil
  | @child above y x hp hx =>
    cases hfunction : x.kind with
    | function name returns parameters body =>
      obtain ⟨-, rfl⟩ := h.function_of_path hfit (hp.child hx) hfunction
      exact hx
    | _ =>
      rw [hfunction] at hs
      exact absurd hs List.not_mem_nil

end Forest

namespace Program.Placed

variable {length : Nat} {ls : List Lexeme} {p : Program} (h : p.Placed length ls) {policy : Policy}
  {above outer : List Tree} {x y : Tree} (hx : p.tree.Path above x)
  (hy : p.tree.Path outer y) {s : Symbol}

include h hx hy

theorem eq_of_parameter (hsx : s ∈ x.kind.parameterSymbols) (hsy : s ∈ y.kind.parameterSymbols) :
    x = y := by
  have hcarries := p.grown_carries
  have hxc := hcarries.child_of_parameter (fun z => fitting_of_mem) rfl hx hsx
  have hyc := hcarries.child_of_parameter (fun z => fitting_of_mem) rfl hy hsy
  by_contra hne
  have hid : x.id ≠ y.id := fun hid => hne (Tree.eq_of_id_eq hcarries.distinct hx.mem hy.mem hid)
  have hinside := (Tree.inside_of_place h.ordered (h.spread_declaration hyc)
    (Tree.parameter_mem_places hsy)).1
  have hplace : s.span ∈ [x].flatMap Tree.places := by
    rw [List.flatMap_singleton]
    exact Tree.parameter_mem_places hsx
  exact h.outside (List.forall_mem_singleton.mpr ⟨hxc, hid⟩) hyc s.span hplace hinside

theorem eq_of_child_span {c d : Tree} (hc : c ∈ x.children) (hd : d ∈ y.children)
    (heq : c.span = d.span) : x = y := by
  -- The program itself is below no node.
  have hbelow {above : List Tree} {x c : Tree} (hx : p.tree.Path above x) (hc : c ∈ x.children) :
      c ≠ p.tree := by
    rintro rfl
    have hlength := (hx.child hc).length
    rw [List.length_cons] at hlength
    omega
  have hcd := h.eq_of_span_eq (hx.child hc).mem (hy.child hd).mem (hbelow hx hc) (hbelow hy hd) heq
  exact Tree.parent_unique p.grown_carries.distinct hx.mem hy.mem hc hd (congrArg Tree.id hcd)

/-- No symbol is declared in two scopes. -/
theorem eq_of_symbol {storage storage' : Storage} (hsx : s ∈ x.symbols policy storage)
    (hsy : s ∈ y.symbols policy storage') : x = y := by
  have hcarries := p.grown_carries
  have hchild {above : List Tree} {x : Tree} (hx : p.tree.Path above x) {storage : Storage}
      (hs : s ∈ Tree.declaresAll policy storage x.children) :
      ∃ c ∈ x.children, s.span = c.span ∧ s.kind ≠ .parameter := by
    rw [Tree.declaresAll_eq] at hs
    obtain ⟨c, hc, hs⟩ := List.mem_flatMap.mp hs
    exact ⟨c, hc, (hcarries.declared_by (fun z => fitting_of_mem) rfl (hx.child hc) hs).2⟩
  -- Parameters are told from the rest by their kind, and within each sort the span tells where a
  -- symbol comes from.
  rcases List.mem_append.mp hsx with hsx | hsx
  · rcases List.mem_append.mp hsy with hsy | hsy
    · exact h.eq_of_parameter hx hy hsx hsy
    · obtain ⟨d, -, -, hkind⟩ := hchild hy hsy
      exact absurd (Kind.parameter_of_mem hsx) hkind
  · obtain ⟨c, hc, hspan, hkind⟩ := hchild hx hsx
    rcases List.mem_append.mp hsy with hsy | hsy
    · exact absurd (Kind.parameter_of_mem hsy) hkind
    · obtain ⟨d, hd, hspan', -⟩ := hchild hy hsy
      exact h.eq_of_child_span hx hy hc hd (hspan.symm.trans hspan')

end Program.Placed

/-- A location means the symbol of a scope's table just when that scope is the innermost one to
declare its name. -/
theorem Program.Placed.exact_renaming {length : Nat} {ls : List Lexeme} {p : Program}
    (h : p.Placed length ls) (policy : Policy) (r : Renaming) {outer : List Tree} {z : Tree}
    (hz : p.tree.Path outer z) (hid : z.id = r.scope) (hopens : z.kind.opensScope = true) :
    r.Exact policy (p.annotated policy) p.tree := by
  intro y above x index hp hk
  have b := p.annotated_built policy
  have hplain : x.kind.opensScope = false := by
    rw [hk]
    rfl
  rw [b.resolve_eq hp, Tree.around_plain hplain]
  rcases Tree.holder?_cases hp policy r.old with ⟨hholder, hfind⟩ |
    ⟨outer', w, s, hw, hwopens, hholder, hfind, hs⟩
  · rw [hholder, hfind]
    refine iff_of_false ?_ (fun hnone => nomatch hnone)
    rintro ⟨hsome, hnone⟩
    rw [← hnone] at hsome
    cases hsome
  · rw [hholder, hfind]
    constructor
    · rintro ⟨-, hheld⟩
      rw [← hid, b.held?_eq hz hopens] at hheld
      rw [h.eq_of_symbol hw hz (List.mem_of_find?_eq_some hs)
        (List.mem_of_find?_eq_some hheld.symm), hid]
    · intro hwid
      rw [← Option.some.inj hwid, b.held?_eq hw hwopens, hs]
      exact ⟨rfl, rfl⟩

namespace Renaming

variable {policy : Policy} {r : Renaming} {f f' g g' : Forest} {t : Tree}

/-- What counts of a main function is not the names of its parameters. -/
theorem main?_relabel (h : g.Carries t) (h' : g'.Carries (t.relabel (r.kind f))) {x : Tree}
    (hx : x ∈ t.subtrees) :
    g'.main? x.id = g.main? x.id := by
  have hx' : x.relabel (r.kind f) ∈ (t.relabel (r.kind f)).subtrees := by
    rw [Tree.subtrees_relabel]
    exact List.mem_map_of_mem hx
  obtain ⟨⟨kind, span, parent, table⟩, hn, hk, hs⟩ := h.node hx
  obtain ⟨⟨kind', span', parent', table'⟩, hn', hk', hs'⟩ := h'.node hx'
  rw [Tree.id_relabel] at hn'
  rw [Tree.kind_relabel] at hk'
  rw [Tree.span_relabel] at hs'
  obtain rfl : kind = x.kind := hk
  obtain rfl : span = x.span := hs
  obtain rfl : kind' = r.kind f x.id x.kind := hk'
  obtain rfl : span' = x.span := hs'
  rw [Forest.main?, Forest.main?, hn, hn']
  cases x.kind with
  | function name returns parameters body =>
    have hempty : (if x.id = r.scope then parameters.map r.parameter else parameters).isEmpty =
        parameters.isEmpty := by
      split
      · exact List.isEmpty_map
      · rfl
    simp only [kind, Forest.checkMain, hempty]
  | location name index =>
    obtain ⟨name', hk⟩ := r.kind_location f x.id name index
    rw [hk]
  | _ => rfl

/-- The verdict on the program. -/
theorem judge_root (h : g.Carries t) (h' : g'.Carries (t.relabel (r.kind f)))
    {vars functions : List NodeId} (hk : t.kind = .program vars functions) (types types' : Types) :
    g'.judge types' (t.relabel (r.kind f)) = g.judge types t := by
  have hmains : functions.filterMap g'.main? = functions.filterMap g.main? := by
    refine List.filterMap_congr fun id hid => ?_
    have hlisted : id ∈ t.children.map Tree.id := by
      rw [← h.listed t t.self_mem_subtrees, hk]
      exact List.mem_append_right _ hid
    obtain ⟨c, hc, rfl⟩ := List.mem_map.mp hlisted
    exact main?_relabel h h' (Tree.child_mem_subtrees hc)
  rw [Forest.judge, Forest.judge, Tree.kind_relabel, Tree.span_relabel, hk]
  show g'.checkProgram functions t.span = g.checkProgram functions t.span
  rw [Forest.checkProgram, Forest.checkProgram, hmains]

section Findings

variable (hfit : ∀ x ∈ t.subtrees, x.Fitting)

include hfit

theorem fitting_relabel : ∀ x ∈ (t.relabel (r.kind f)).subtrees, x.Fitting := by
  intro x' hx'
  obtain ⟨x, hx, rfl⟩ := Tree.exists_of_mem_relabel _ hx'
  exact (hfit x hx).relabel (r.nameless_kind f)

variable (hr : r.Proper t)

include hr

/-- The problems with declarations. -/
theorem scopeLogAll_root (h : f.Carries t) :
    (Tree.scopeLogAll policy .global [] (t.relabel (r.kind f)).children).map Diagnostic.place =
      (Tree.scopeLogAll policy .global [] t.children).map Diagnostic.place := by
  have hpath {c : Tree} (hc : c ∈ t.children) : t.Path [t] c := Tree.Path.root.child hc
  have hall : (Tree.scopeLogAll policy .global (r.on [t] [])
      (t.children.map (Tree.relabel (r.kind f)))).map
        Diagnostic.place = (Tree.scopeLogAll policy .global [] t.children).map Diagnostic.place :=
    scopeLogAll_relabel .global (fun c hc => declares_relabel h hfit hr (hpath hc) .global)
      (fun c hc => Tree.declares_avoids policy .global (hr.avoids (hpath hc)))
      (fun c hc before hbefore => scopeLog_relabel h hfit hr (hpath hc) .global hbefore)
      (List.forall_mem_nil _)
  rw [r.on_nil] at hall
  rw [Tree.children_relabel, hall]

variable {types types' : Types} (h : f.Checked policy t types)
  (h' : f'.Checked policy (t.relabel (r.kind f)) types') (hexact : r.Exact policy f t)

include h h' hexact

/-- What is found below the program. -/
theorem agree {y x : Tree} {above : List Tree} (hp : t.Path (y :: above) x) :
    Forest.Agree id id Diagnostic.place Diagnostic.place f f' types types' x
      (x.relabel (r.kind f)) :=
  h.agree h' hfit (fitting_relabel hfit) (alongside h.carries hfit hr h.scope hexact) hp hp.relabel
    ⟨hp, rfl, rfl⟩

variable {vars functions : List NodeId} (hk : t.kind = .program vars functions)

include hk

/-- The problems with constructs. -/
theorem logs_relabel :
    (f'.logs types' (t.relabel (r.kind f))).map Diagnostic.place =
      (f.logs types t).map Diagnostic.place := by
  have hcs : (t.children.flatMap fun c =>
      (f'.logs types' (c.relabel (r.kind f))).map Diagnostic.place) =
      t.children.flatMap fun c => (f.logs types c).map Diagnostic.place :=
    List.flatMap_congr fun c hc => (agree hfit hr h h' hexact (Tree.Path.root.child hc)).logs.symm
  rw [Forest.logs_eq, Forest.logs_eq, judge_root h.carries h'.carries hk types types',
    Tree.children_relabel, List.flatMap_map, List.map_append, List.map_append, List.map_flatMap,
    List.map_flatMap, hcs]

theorem lookup_relabel (id : NodeId) : types'.lookup id = types.lookup id := by
  by_cases hid : id ∈ t.ids
  · obtain ⟨x, hx, rfl⟩ := List.mem_map.mp hid
    obtain ⟨above, hp⟩ := Tree.exists_path hx
    cases hp with
    | root =>
      have hroot := h'.typed.fits _ (Tree.self_mem_subtrees _)
      rw [Tree.id_relabel, judge_root h.carries h'.carries hk types types'] at hroot
      rw [hroot, h.typed.fits t hx]
    | child hp hx =>
      have htype := (agree hfit hr h h' hexact (hp.child hx)).type
      rw [Tree.id_relabel] at htype
      exact htype.symm
  · rw [h.typed.inside id hid, h'.typed.inside id (by rwa [Tree.ids_relabel])]

end Findings

end Renaming

namespace Program

theorem Placed.proper {length : Nat} {ls : List Lexeme} {p : Program} (h : p.Placed length ls)
    (policy : Policy) {r : Renaming} (hscope : (p.grown.kindOf? r.scope).any Kind.opensLocal = true)
    (hnew : r.new ∉ p.grown.names) :
    r.Proper p.tree ∧ r.Exact policy (p.annotated policy) p.tree := by
  have hcarries := p.grown_carries
  obtain ⟨kind, hkind, hlocal⟩ := (Option.any_eq_true _ _).mp hscope
  obtain ⟨z, hz, hid, rfl⟩ := hcarries.of_kindOf? hkind
  obtain ⟨outer, hzp⟩ := Tree.exists_path hz
  refine ⟨⟨fun hroot => ?_, hcarries.avoids hnew⟩, ?_⟩
  · rw [Tree.eq_of_id_eq hcarries.distinct hz p.tree.self_mem_subtrees
      (hid.trans hroot.symm)] at hlocal
    cases hlocal
  · exact h.exact_renaming policy r hzp hid (Kind.opensScope_of_opensLocal hlocal)

theorem renamed_built (policy : Policy) (p : Program) (r : Renaming) :
    (p.grown.renamed policy r).buildScopes policy =
        ⟨(p.grown.renamed policy r).withTables
          ((p.tree.relabel (r.kind (p.annotated policy))).tables policy),
          Tree.scopeLogAll policy .global []
            (p.tree.relabel (r.kind (p.annotated policy))).children, none⟩ ∧
      ((p.grown.renamed policy r).withTables
        ((p.tree.relabel (r.kind (p.annotated policy))).tables policy)).Built
        policy (p.tree.relabel (r.kind (p.annotated policy))) := by
  have hrenamed : p.grown.renamed policy r = p.grown.relabel (r.kind (p.annotated policy)) := by
    rw [Forest.renamed, p.buildScopes_eq]
  have hcarries := p.grown_carries.relabel (r.nameless_kind (p.annotated policy))
  have hplain (id : NodeId) : (p.grown.relabel (r.kind (p.annotated policy))).tableOf? id = none :=
    (Forest.tableOf?_relabel _ _ id).trans (p.tableOf?_grown id)
  rw [hrenamed]
  refine ⟨hcarries.buildScopes_eq p.grown_tables policy rfl, ?_⟩
  exact hcarries.built (Forest.Linked.relabel p.grown_linked) hplain policy rfl

end Program

/-- Under a renaming of what a function or a block declares, the same is reported at the same places
and every node keeps its type. -/
theorem analyze_renamed {source : String} {f : Forest} (hf : Forest.parse source = .ok f)
    (policy : Policy) (r : Renaming) (hscope : (f.kindOf? r.scope).any Kind.opensLocal = true)
    (hnew : r.new ∉ f.names) :
    ∃ g g' scopeLog scopeLog' types types' typeLog typeLog',
      f.buildScopes policy = ⟨g, scopeLog, none⟩ ∧ g.checkTypes [] = ⟨types, typeLog, none⟩ ∧
      (f.renamed policy r).buildScopes policy = ⟨g', scopeLog', none⟩ ∧
      g'.checkTypes [] = ⟨types', typeLog', none⟩ ∧
      scopeLog'.map Diagnostic.place = scopeLog.map Diagnostic.place ∧
      typeLog'.map Diagnostic.place = typeLog.map Diagnostic.place ∧
      ∀ id, types'.lookup id = types.lookup id := by
  obtain ⟨p, hp, rfl⟩ := Forest.parse_eq_ok_iff.mp hf
  obtain ⟨ls, -, hplaced⟩ := Program.placed_of_parse hp
  obtain ⟨hr, hexact⟩ := hplaced.proper policy hscope hnew
  have hfit : ∀ x ∈ p.tree.subtrees, x.Fitting := fun x => Program.fitting_of_mem
  have b := p.annotated_built policy
  obtain ⟨types, h, hcheck⟩ := b.checkTypes_eq hfit rfl []
  obtain ⟨hscopes', b'⟩ := p.renamed_built policy r
  obtain ⟨types', h', hcheck'⟩ := b'.checkTypes_eq (r.fitting_relabel hfit) rfl []
  have hscopes := p.grown_carries.buildScopes_eq p.grown_tables policy rfl
  refine ⟨_, _, _, _, types, types', _, _, hscopes, hcheck, hscopes', hcheck', ?_, ?_, ?_⟩
  · exact Renaming.scopeLogAll_root hfit hr b.carries
  · exact Renaming.logs_relabel hfit hr h h' hexact rfl
  · exact Renaming.lookup_relabel hfit hr h h' hexact rfl

theorem analyze_renamed_parameter :
    ∃ f, Forest.parse "def int f(int a)\x7bif(a)\x7bint a;a=1;\x7d\x7d" = .ok f ∧
      (f.kindOf? 8).any Kind.opensLocal = true ∧ "b" ∉ f.names ∧
      (f.renamed {} ⟨8, "a", "b"⟩).kindOf? 0 = some (.location "b" none) ∧
      (f.renamed {} ⟨8, "a", "b"⟩).kindOf? 2 = some (.location "a" none) ∧
      ∃ g g' scopeLog scopeLog' types types' typeLog typeLog',
        f.buildScopes {} = ⟨g, scopeLog, none⟩ ∧ g.checkTypes [] = ⟨types, typeLog, none⟩ ∧
        (f.renamed {} ⟨8, "a", "b"⟩).buildScopes {} = ⟨g', scopeLog', none⟩ ∧
        g'.checkTypes [] = ⟨types', typeLog', none⟩ ∧
        scopeLog'.map Diagnostic.place = scopeLog.map Diagnostic.place ∧
        typeLog'.map Diagnostic.place = typeLog.map Diagnostic.place ∧
        ∀ id, types'.lookup id = types.lookup id := by
  have hparts : (Forest.parse "def int f(int a)\x7bif(a)\x7bint a;a=1;\x7d\x7d").toOption.map
      (fun f =>
      ((f.kindOf? 8).any Kind.opensLocal, decide ("b" ∉ f.names),
        (f.renamed {} ⟨8, "a", "b"⟩).kindOf? 0, (f.renamed {} ⟨8, "a", "b"⟩).kindOf? 2)) =
      some (true, true, some (.location "b" none), some (.location "a" none)) := by
    decide +kernel
  apply exists_ok_of_isSome (by rw [← Option.isSome_map, hparts]; rfl)
  intro f hf
  rw [hf] at hparts
  simp only [Except.toOption, Option.map_some, Option.some.injEq, Prod.mk.injEq,
    decide_eq_true_eq] at hparts
  obtain ⟨hscope, hnew, hguard, htarget⟩ := hparts
  exact ⟨hscope, hnew, hguard, htarget, analyze_renamed hf {} ⟨8, "a", "b"⟩ hscope hnew⟩

end DecafCheck
