import DecafCheck.Proofs.Scope.Program

namespace DecafCheck

/-- The symbol of a declaration, if the declaration is valid. -/
def Kind.declaration? (policy : Policy) (storage : Storage) (span : Span) : Kind → Option Symbol
  | .variable name type length =>
    if type ≠ .void ∧ length ≠ 0 ∧
      ¬ (policy.globalArraysOnly = true ∧ storage = .frame ∧ 1 < length) then
      some ⟨name, .variable length storage, type, span⟩
    else none
  | .function name returns parameters _ =>
    some (.ofFunction name returns (parameters.map Parameter.type) span)
  | _ => none

theorem Policy.symbol?_eq_declaration? (policy : Policy) (storage : Storage) (name : String)
    (type : DataType) (length : Nat) (span : Span) :
    policy.symbol? storage name type length span =
      Kind.declaration? policy storage span (.variable name type length) := by
  rw [symbol?, Kind.declaration?]
  cases ho : policy.objection? storage name type length with
  | none =>
    obtain ⟨hv, hl, ha⟩ := (policy.objection?_eq_none_iff storage name type length).mp ho
    have hvalid : ¬ (policy.globalArraysOnly = true ∧ storage = .frame ∧ 1 < length) :=
      fun hn => absurd (ha hn.1 hn.2.1) (Nat.not_le.mpr hn.2.2)
    rw [if_pos ⟨hv, Nat.ne_of_gt hl, hvalid⟩]
  | some problem =>
    rw [if_neg]
    rintro ⟨hv, hl, ha⟩
    have hn : policy.objection? storage name type length = none :=
      (policy.objection?_eq_none_iff storage name type length).mpr
        ⟨hv, Nat.pos_of_ne_zero hl, fun hp hs => Nat.le_of_not_lt fun h1 => ha ⟨hp, hs, h1⟩⟩
    rw [ho] at hn
    cases hn

namespace Forest

def declaration? (policy : Policy) (storage : Storage) (f : Forest) (id : NodeId) : Option Symbol :=
  (f.kindOf? id).bind (Kind.declaration? policy storage (f.spanOf id))

/-- The symbols of a scope: variables before functions in a program, the parameters of a function,
the variables of a block. Any other node declares nothing for what is inside it. -/
def declarations (policy : Policy) (f : Forest) (id : NodeId) : List Symbol :=
  match f.kindOf? id with
  | some (.program vars functions) => (vars ++ functions).filterMap (f.declaration? policy .global)
  | some (.function _ _ parameters _) => parameters.map .ofParameter
  | some (.block vars _) => vars.filterMap (f.declaration? policy .frame)
  | _ => []

def Lists (f : Forest) (parent child : NodeId) : Prop :=
  ∃ kind, f.kindOf? parent = some kind ∧ child ∈ kind.children

def IsScope (f : Forest) (id : NodeId) : Prop :=
  ∃ kind, f.kindOf? id = some kind ∧ kind.opensScope = true

/-- What a name means at a node, by walking from there to the root. -/
inductive Means (policy : Policy) (f : Forest) (name : String) : NodeId → Option Symbol → Prop
  | here {id : NodeId} {s : Symbol} : declared? (f.declarations policy id) name = some s →
      Means policy f name id (some s)
  | outside {id parent : NodeId} {found : Option Symbol} :
      declared? (f.declarations policy id) name = none →
      f.Lists parent id → Means policy f name parent found → Means policy f name id found
  | nowhere {id : NodeId} : declared? (f.declarations policy id) name = none → f.root = some id →
      Means policy f name id none

/-- The closest scope around a node, itself apart. -/
inductive ScopeAround (f : Forest) : NodeId → Option NodeId → Prop
  | parent {id parent : NodeId} : f.Lists parent id → f.IsScope parent →
      ScopeAround f id (some parent)
  | further {id parent : NodeId} {scope : Option NodeId} : f.Lists parent id → ¬ f.IsScope parent →
      ScopeAround f parent scope → ScopeAround f id scope
  | none {id : NodeId} : f.root = some id → ScopeAround f id none

/-- The forest `g` is `f` with scopes that are resolved lexically: every scope has a table of its
own, no other node has one, and every table was made for one scope. -/
structure LexicallyScoped (policy : Policy) (f g : Forest) : Prop where
  resolve : ∀ id < f.size, ∀ name found, g.resolve id name = found ↔ f.Means policy name id found
  fresh : f.tables.size = 0 ∧ ∀ id, f.tableOf? id = none
  scopes : ∀ id, (g.tableOf? id).isSome ↔ f.IsScope id
  owners : ∀ k < g.tables.size, ∃! id, g.tableOf? id = some k
  tables : ∀ id k, g.tableOf? id = some k → ∃ outer, f.ScopeAround id outer ∧
    g.tables.tables[k]? = some ⟨firsts (f.declarations policy id), outer.bind g.tableOf?⟩

theorem isScope_iff {f : Forest} {t x : Tree} (h : f.Carries t) (hx : x ∈ t.subtrees) :
    f.IsScope x.id ↔ x.kind.opensScope = true := by
  simp [IsScope, h.kind x hx]

theorem lists_of_child {f : Forest} {t x c : Tree} (h : f.Carries t) (hx : x ∈ t.subtrees)
    (hc : c ∈ x.children) :
    f.Lists x.id c.id := by
  refine ⟨x.kind, h.kind x hx, ?_⟩
  rw [h.listed x hx]
  exact List.mem_map_of_mem hc

/-- A node is listed by one node at most, and the root by none. -/
theorem lists_unique {f : Forest} {t : Tree} (h : f.Carries t) {p q c : NodeId} (hp : f.Lists p c)
    (hq : f.Lists q c) : p = q := by
  obtain ⟨x, hx, rfl, d, hd, rfl⟩ := h.mem_links_iff.mp (mem_links.mpr hp)
  obtain ⟨y, hy, rfl, e, he, hde⟩ := h.mem_links_iff.mp (mem_links.mpr hq)
  rw [Tree.parent_unique h.distinct hx hy hd he hde.symm]

theorem root_not_listed {f : Forest} {t : Tree} (h : f.Carries t) {p c : NodeId}
    (hr : f.root = some c) :
    ¬ f.Lists p c := by
  intro hp
  obtain ⟨x, hx, rfl, d, hd, rfl⟩ := h.mem_links_iff.mp (mem_links.mpr hp)
  exact Tree.child_id_ne_root h.distinct hx hd (Option.some.inj (hr.symm.trans h.root))

/-- A name means one thing at a node. -/
theorem Means.unique {policy : Policy} {f : Forest} {t : Tree} (h : f.Carries t)
    {name : String} {id : NodeId} {r r' : Option Symbol} (hr : f.Means policy name id r)
    (hr' : f.Means policy name id r') : r = r' := by
  induction hr with
  | here hd =>
    cases hr' with
    | here hd' => exact hd.symm.trans hd'
    | outside hd' _ _ => rw [hd] at hd'; cases hd'
    | nowhere hd' _ => rw [hd] at hd'; cases hd'
  | outside hd hl _ ih =>
    cases hr' with
    | here hd' => rw [hd] at hd'; cases hd'
    | outside _ hl' hm' =>
      obtain rfl := lists_unique h hl hl'
      exact ih hm'
    | nowhere _ hroot => exact absurd hl (root_not_listed h hroot)
  | nowhere hd hroot =>
    cases hr' with
    | here hd' => rw [hd] at hd'; cases hd'
    | outside _ hl' _ => exact absurd hl' (root_not_listed h hroot)
    | nowhere _ _ => rfl

section Program

variable {f : Forest} {p : Program} (h : f.Carries p.tree) (policy : Policy)

include h

/-- Variables and functions declare their symbols where they are listed. -/
theorem declaration?_eq (storage : Storage) {ts : List Tree} (hts : ∀ t ∈ ts, t ∈ p.tree.subtrees)
    (hd : ∀ t ∈ ts, (∃ v m, t = Variable.tree m v) ∨ ∃ g m, t = Function.tree m g) :
    (ts.map Tree.id).filterMap (f.declaration? policy storage) =
      Tree.declaresAll policy storage ts := by
  rw [Tree.declaresAll_eq, List.filterMap_map, List.filterMap_eq_flatMap_toList]
  apply List.flatMap_congr
  intro t ht
  simp only [Function.comp_apply, declaration?, h.kind t (hts t ht), h.span t (hts t ht),
    Option.bind_some]
  rcases hd t ht with ⟨v, m, rfl⟩ | ⟨g, m, rfl⟩
  · rw [Variable.declares_tree, Variable.symbol?, Policy.symbol?_eq_declaration?]
    rfl
  · rfl

theorem declarations_program : f.declarations policy p.tree.id = p.tree.symbols policy .global := by
  have hsub : ∀ c ∈ p.tree.children, c ∈ p.tree.subtrees := fun c hc => Tree.child_mem_subtrees hc
  have hd := declaration?_eq h policy .global hsub fun c hc => Program.mem_children hc
  rw [declarations, h.kind p.tree p.tree.self_mem_subtrees]
  refine Eq.trans ?_ hd
  simp [Program.tree]

theorem declarations_part {q : Part} {m : Nat} (hx : q.tree m ∈ p.tree.subtrees) :
    f.declarations policy (q.tree m).id =
      if (q.tree m).kind.opensScope then (q.tree m).symbols policy .frame else [] := by
  rw [declarations, h.kind _ hx]
  rcases q with g | b | v | s | e
  · exact (g.symbols_tree policy .frame m).symm
  · obtain ⟨vars, statements, span⟩ := b
    have hsub : ∀ c ∈ Tree.row Variable.tree m vars, c ∈ p.tree.subtrees := by
      intro c hc
      refine Tree.subtrees_trans hx (Tree.child_mem_subtrees ?_)
      rw [Part.tree, Block.tree_mk]
      exact List.mem_append_left _ hc
    have hd := declaration?_eq h policy .frame hsub fun c hc => by
      obtain ⟨v, -, k, rfl⟩ := Tree.mem_row hc
      exact .inl ⟨v, k, rfl⟩
    rw [Variable.declaresAll_each policy .frame (Tree.each_row Variable.tree m vars)] at hd
    exact hd.trans ((Block.mk vars statements span).symbols_tree policy .frame m).symm
  · rfl
  · rcases s with _ | _ | ⟨_, _, _ | _, _⟩ | _ | _ | _ <;> rfl
  · rcases e with _ | ⟨_, _ | _, _⟩ | _ | _ | _ <;> rfl

/-- The declarations of a scope's node are the symbols of the scope. -/
theorem declarations_eq {above : List Tree} {x : Tree} (hp : p.tree.Path above x) :
    f.declarations policy x.id =
      if x.kind.opensScope then x.symbols policy (Tree.storageIn (Tree.around policy above)) else
        [] := by
  cases hp with
  | root => exact declarations_program h policy
  | @child above y _ hy hc =>
    have hx := Tree.subtrees_trans hy.mem (Tree.child_mem_subtrees hc)
    obtain ⟨q, m, rfl⟩ : ∃ q m, x = Part.tree m q := by
      rcases Program.path_part (hy.child hc) with ⟨hn, -⟩ | ⟨-, hq⟩
      · exact absurd hn (List.cons_ne_nil y above)
      · exact hq
    rw [declarations_part h policy hx, Tree.storageIn, if_neg (Tree.around_ne_nil rfl hy)]

/-- The walk to the root meets the scopes around a place from the inside out. -/
theorem means_around {above : List Tree} {x : Tree} (hp : p.tree.Path above x) (name : String) :
    f.Means policy name x.id ((Tree.around policy (x :: above)).find? name) := by
  have hfind : ∀ {above : List Tree} {x : Tree}, p.tree.Path above x →
      (Tree.around policy (x :: above)).find? name =
        (declared? (f.declarations policy x.id) name).or
        ((Tree.around policy above).find? name) := by
    intro above x hp
    rw [declarations_eq h policy hp, Tree.around]
    by_cases hk : x.kind.opensScope = true
    · rw [if_pos hk, if_pos hk, Scopes.find?, List.findSome?_cons]
      cases declared? (x.symbols policy (Tree.storageIn (Tree.around policy above))) name <;> rfl
    · rw [if_neg hk, if_neg hk]
      rfl
  induction hp with
  | root =>
    rw [hfind .root]
    cases hd : declared? (f.declarations policy p.tree.id) name with
    | some s => exact .here hd
    | none => exact .nowhere hd h.root
  | @child above y c hy hc ih =>
    rw [hfind (hy.child hc)]
    cases hd : declared? (f.declarations policy c.id) name with
    | some s => exact .here hd
    | none => exact .outside hd (lists_of_child h hy.mem hc) ih

end Program

section Tables

variable {policy : Policy} {g : Forest} {t : Tree} (b : g.Built policy t)

include b

theorem Built.tree_of_tableOf? {id k : Nat} (hk : g.tableOf? id = some k) :
    ∃ x ∈ t.subtrees, x.id = id ∧ x.kind.opensScope = true := by
  have hid : id < g.size := by
    obtain ⟨n, hn, -⟩ := Option.bind_eq_some_iff.mp hk
    exact (Array.getElem?_eq_some_iff.mp hn).1
  obtain ⟨x, hx, rfl⟩ := b.carries.tree_of_lt hid
  refine ⟨x, hx, rfl, ?_⟩
  by_contra hs
  rw [b.plain x hx (eq_false_of_ne_true hs)] at hk
  cases hk

theorem Built.isSome_tableOf?_iff {x : Tree} (hx : x ∈ t.subtrees) :
    (g.tableOf? x.id).isSome ↔ x.kind.opensScope = true := by
  constructor
  · intro hs
    obtain ⟨k, hk⟩ := Option.isSome_iff_exists.mp hs
    obtain ⟨y, hy, hid, hyk⟩ := b.tree_of_tableOf? hk
    rwa [Tree.eq_of_id_eq b.carries.distinct hx hy hid.symm]
  · intro hs
    obtain ⟨above, hp⟩ := Tree.exists_path hx
    obtain ⟨k, hseat⟩ := b.seated hp
    rw [(hseat.own hs).1]
    rfl

theorem Built.owner {k : Nat} (hk : k < g.tables.size) : ∃! id, g.tableOf? id = some k := by
  rw [b.size] at hk
  have hget : (t.tables policy)[k]? = some (t.tables policy)[k] := List.getElem?_eq_getElem hk
  have hown := (b.holds k _ hget).1
  rw [Nat.zero_add] at hown
  refine ⟨(t.tables policy)[k].1, hown, ?_⟩
  intro id hid
  obtain ⟨x, hx, rfl, hs⟩ := b.tree_of_tableOf? hid
  have hmem : x.id ∈ (t.tables policy).map Prod.fst :=
    (Tree.mem_tables b.scope).mpr ⟨x, hx, hs, rfl⟩
  obtain ⟨⟨j, table⟩, hj, hjx⟩ := List.mem_map.mp hmem
  obtain ⟨i, hi⟩ := List.mem_iff_getElem?.mp hj
  have hx' := (b.holds i _ hi).1
  rw [Nat.zero_add, hjx, hid] at hx'
  obtain rfl := Option.some.inj hx'
  rw [hget] at hi
  rw [Option.some.inj hi]
  exact hjx.symm

theorem Built.scopeAround {f : Forest} (h : f.Carries t) {above : List Tree} {x : Tree}
    (hp : t.Path above x) :
    ∃ outer, f.ScopeAround x.id outer ∧ outer.bind g.tableOf? = above.findSome? fun y =>
      g.tableOf? y.id := by
  induction hp with
  | root => exact ⟨none, .none h.root, rfl⟩
  | @child above y c hy hc ih =>
    have hl := lists_of_child h hy.mem hc
    by_cases hs : y.kind.opensScope = true
    · refine ⟨some y.id, .parent hl ((isScope_iff h hy.mem).mpr hs), ?_⟩
      obtain ⟨k, hk⟩ := Option.isSome_iff_exists.mp ((b.isSome_tableOf?_iff hy.mem).mpr hs)
      rw [List.findSome?_cons, Option.bind_some, hk]
    · obtain ⟨outer, ho, he⟩ := ih
      refine ⟨outer, .further hl (fun hn => hs ((isScope_iff h hy.mem).mp hn)) ho, ?_⟩
      rw [List.findSome?_cons, b.plain y hy.mem (eq_false_of_ne_true hs), he]

end Tables

/-- Building the scopes of a text goes through, and then every name means what lexical scoping
says. -/
theorem resolves_lexically {source : String} {f : Forest} (hf : Forest.parse source = .ok f)
    (policy : Policy) :
    ∃ g log, f.buildScopes policy = ⟨g, log, none⟩ ∧ LexicallyScoped policy f g := by
  obtain ⟨p, -, rfl⟩ := parse_eq_ok_iff.mp hf
  have h := p.grown_carries
  have b := p.annotated_built policy
  have hsize : (p.annotated policy).size = p.grown.size := (p.grown.alike_withTables _).size
  refine ⟨p.annotated policy, p.scopeLog policy, p.buildScopes_eq policy, ?_, ?_, ?_, ?_, ?_⟩
  · intro id hid name found
    obtain ⟨x, hx, rfl⟩ := h.tree_of_lt hid
    obtain ⟨above, hp⟩ := Tree.exists_path hx
    have hm := means_around h policy hp name
    rw [b.resolve_eq hp]
    exact ⟨fun he => he ▸ hm, fun hm' => hm.unique h hm'⟩
  · exact ⟨by rw [p.grown_tables]; rfl, p.tableOf?_grown⟩
  · intro id
    by_cases hid : id < p.grown.size
    · obtain ⟨x, hx, rfl⟩ := h.tree_of_lt hid
      rw [b.isSome_tableOf?_iff hx, isScope_iff h hx]
    · have hf : p.grown.node? id = none := Array.getElem?_eq_none (Nat.le_of_not_lt hid)
      have hid' : ¬ id < (p.annotated policy).size := hsize ▸ hid
      have hg : (p.annotated policy).node? id = none :=
        Array.getElem?_eq_none (Nat.le_of_not_lt hid')
      simp [tableOf?, IsScope, kindOf?, hf, hg]
  · intro k hk
    exact b.owner hk
  · intro id k hk
    obtain ⟨x, hx, rfl, hs⟩ := b.tree_of_tableOf? hk
    obtain ⟨above, hp⟩ := Tree.exists_path hx
    obtain ⟨j, hseat⟩ := b.seated hp
    obtain ⟨hj, htable⟩ := hseat.own hs
    obtain rfl := Option.some.inj (hj.symm.trans hk)
    obtain ⟨outer, ho, he⟩ := b.scopeAround h hp
    refine ⟨outer, ho, ?_⟩
    rw [declarations_eq h policy hp, if_pos hs, he]
    exact htable

/-- A body whose `a` hides the parameter and whose use of `b` means a global that comes later. -/
theorem resolves_lexically_nested :
    ∃ f, Forest.parse
      "def int f(int a) \x7b bool a; a = b; while (a) \x7b int b; \x7d \x7d int b;" = .ok f ∧
      ∃ g log, f.buildScopes {} = ⟨g, log, none⟩ ∧ LexicallyScoped {} f g := by
  apply exists_ok_of_isSome (by decide +kernel)
  intro f hf
  exact resolves_lexically hf {}

end Forest

end DecafCheck
