import DecafCheck.Proofs.Scope.Resolution

namespace DecafCheck

/-- What a node is listed as. -/
inductive Role
  | variable
  | function
  | block
  | statement
  | location
  | expression

def Role.fits : Role → Kind → Bool
  | .variable, .variable _ _ _ => true
  | .function, .function _ _ _ _ => true
  | .block, .block _ _ => true
  | .statement, .assignment _ _ => true
  | .statement, .conditional _ _ _ => true
  | .statement, .whileLoop _ _ => true
  | .statement, .ret _ => true
  | .statement, .jump _ => true
  | .statement, .callStatement _ _ => true
  | .location, .location _ _ => true
  | .expression, .binary _ _ _ => true
  | .expression, .unary _ _ => true
  | .expression, .call _ _ => true
  | .expression, .location _ _ => true
  | .expression, .literal _ => true
  | _, _ => false

namespace Kind

/-- The children with what each of them is listed as. -/
def roles : Kind → List (Role × NodeId)
  | .program vars functions => vars.map (Role.variable, ·) ++ functions.map (Role.function, ·)
  | .function _ _ _ body => [(.block, body)]
  | .block vars statements => vars.map (Role.variable, ·) ++ statements.map (Role.statement, ·)
  | .assignment target value => [(.location, target), (.expression, value)]
  | .conditional condition yes no =>
    (.expression, condition) :: (.block, yes) :: no.toList.map (Role.block, ·)
  | .whileLoop guard body => [(.expression, guard), (.block, body)]
  | k => k.children.map (Role.expression, ·)

/-- Nothing is listed without a role. -/
theorem map_snd_roles (k : Kind) : k.roles.map Prod.snd = k.children := by
  cases k <;> simp [roles, children, Function.comp_def]

/-- The lists of a node that are in the order of its text. A program does not tell how its variables
and its functions are mixed. -/
def rows : Kind → List (List NodeId)
  | .program vars functions => [vars, functions]
  | k => [k.children]

end Kind

namespace Forest

/-- The nodes from a node downwards, itself included. -/
inductive Below (f : Forest) (id : NodeId) : NodeId → Prop
  | self : Below f id id
  | child {p c : NodeId} : Below f id p → f.Lists p c → Below f id c

/-- One tree, numbered in post-order. -/
structure PostOrder (f : Forest) : Prop where
  root : ∃ id vars functions, f.root = some id ∧ f.size = id + 1 ∧
    f.kindOf? id = some (.program vars functions)
  listed : ∀ c < f.size, f.root ≠ some c →
    ∃ p < f.size, ∀ q kind, f.kindOf? q = some kind → kind.children.count c = if q = p then 1 else 0
  block : ∀ id < f.size, ∃ first ≤ id, ∀ x, f.Below id x ↔ first ≤ x ∧ x ≤ id
  smaller : ∀ p c, f.Lists p c → c < p
  ascending : ∀ id kind, f.kindOf? id = some kind → ∀ row ∈ kind.rows, row.Pairwise (· < ·)
  parent : ∀ p c, f.parentOf? c = some p ↔ f.Lists p c
  orphan : ∀ id < f.size, f.parentOf? id = none ↔ f.root = some id
  roles : ∀ id kind, f.kindOf? id = some kind →
    ∀ r ∈ kind.roles, ∃ k, f.kindOf? r.2 = some k ∧ r.1.fits k = true

end Forest

namespace Tree

/-- The numbers of trees next to each other stand in order among those of all their nodes. -/
theorem map_id_sublist (ts : List Tree) : (ts.map Tree.id).Sublist (ts.flatMap ids) := by
  induction ts with
  | nil => simp
  | cons t ts ih =>
    rw [List.map_cons, List.flatMap_cons, ids_eq t, List.append_assoc]
    exact (ih.cons_cons t.id).trans (List.sublist_append_right _ _)

theorem Numbered.ascending {n : Nat} {ts : List Tree} (h : Numbered n ts) :
    (ts.map Tree.id).Pairwise (· < ·) := by
  have hs := map_id_sublist ts
  rw [h.ids] at hs
  exact List.Pairwise.sublist hs List.pairwise_lt_range'

theorem Numbered.children {n : Nat} {t : Tree} (h : Numbered n [t]) :
    (t.children.map Tree.id).Pairwise (· < ·) := by
  have hs : (t.children.map Tree.id).Sublist t.ids := by
    rw [ids_eq t]
    exact (map_id_sublist t.children).trans (List.sublist_append_left _ _)
  have hi := h.ids
  rw [List.flatMap_singleton] at hi
  rw [hi] at hs
  exact List.Pairwise.sublist hs List.pairwise_lt_range'

/-- The numbers in a tree are those from its first node to its root. -/
theorem Numbered.mem_ids {n : Nat} {t : Tree} (h : Numbered n [t]) {id : Nat} :
    id ∈ t.ids ↔ n ≤ id ∧ id ≤ t.id := by
  have hi := h.ids
  have hlast : t.id + 1 = n + ([t].flatMap subtrees).length := h.after
  rw [List.flatMap_singleton] at hi
  rw [hi, List.mem_range'_1]
  omega

end Tree

namespace Part

theorem numbered (q : Part) (n : Nat) : Tree.Numbered n [q.tree n] := by
  rcases q with g | b | v | s | e
  · exact g.plants.numbered n
  · exact (Stmt.plants_and.2 b).numbered n
  · exact v.plants.numbered n
  · exact (Stmt.plants_and.1 s).numbered n
  · exact e.plants.numbered n

end Part

/-- Every child of a tree is what its parent lists it as. -/
def Tree.Fitting (t : Tree) : Prop :=
  ∀ r ∈ t.kind.roles, ∃ c ∈ t.children, c.id = r.2 ∧ r.1.fits c.kind = true

section Fitting

theorem Expr.fits (e : Expr) (n : Nat) : Role.expression.fits (e.tree n).kind = true := by
  rcases e with _ | ⟨_, _ | _, _⟩ | _ | _ | _ <;> rfl

theorem Stmt.fits (s : Stmt) (n : Nat) : Role.statement.fits (s.tree n).kind = true := by
  rcases s with _ | _ | ⟨_, _, _ | _, _⟩ | _ | _ | _ <;> rfl

theorem Block.fits (b : Block) (n : Nat) : Role.block.fits (b.tree n).kind = true := by
  cases b
  rfl

/-- Trees that are listed as one thing. -/
theorem Tree.fitting_of_map {t : Tree} {role : Role} {ts : List Tree}
    (hts : ∀ c ∈ ts, c ∈ t.children) (hfits : ∀ c ∈ ts, role.fits c.kind = true) :
    ∀ r ∈ (ts.map Tree.id).map (role, ·), ∃ c ∈ t.children, c.id = r.2 ∧
      r.1.fits c.kind = true := by
  intro r hr
  obtain ⟨id, hid, rfl⟩ := List.mem_map.mp hr
  obtain ⟨c, hc, rfl⟩ := List.mem_map.mp hid
  exact ⟨c, hts c hc, rfl, hfits c hc⟩

theorem Expr.fits_of_mem_row {n : Nat} {es : List Expr} {c : Tree}
    (hc : c ∈ Tree.row Expr.tree n es) :
    Role.expression.fits c.kind = true := by
  obtain ⟨e, -, m, rfl⟩ := Tree.mem_row hc
  exact e.fits m

theorem Expr.fitting (e : Expr) (n : Nat) : (e.tree n).Fitting := by
  cases e with
  | literal value span => exact fun r hr => absurd hr List.not_mem_nil
  | location name index span =>
    cases index <;> simp [Tree.Fitting, Expr.tree, Tree.above, Kind.roles, Kind.children, Expr.fits]
  | call name arguments span =>
    rw [Expr.tree_call]
    exact Tree.fitting_of_map (fun c hc => hc) fun c hc => Expr.fits_of_mem_row hc
  | unary op operand span =>
    simp [Tree.Fitting, Expr.tree, Tree.above, Kind.roles, Kind.children, Expr.fits]
  | binary op left right span =>
    simp [Tree.Fitting, Expr.tree, Tree.above, Kind.roles, Kind.children, Expr.fits]

theorem Stmt.fitting (s : Stmt) (n : Nat) : (s.tree n).Fitting := by
  cases s with
  | assign name index target value span =>
    have hl : Role.location.fits ((Expr.location name index target).tree n).kind = true := by
      cases index <;> rfl
    simp [Tree.Fitting, Stmt.tree, Tree.above, Kind.roles, Expr.fits, hl]
  | call name arguments span =>
    exact Tree.fitting_of_map (fun c hc => hc) fun c hc => Expr.fits_of_mem_row hc
  | branch condition yes no span =>
    cases no <;> simp [Tree.Fitting, Stmt.tree, Tree.above, Kind.roles, Expr.fits, Block.fits]
  | loop guard body span =>
    simp [Tree.Fitting, Stmt.tree, Tree.above, Kind.roles, Expr.fits, Block.fits]
  | ret value span =>
    cases value <;>
      simp [Tree.Fitting, Stmt.tree, Tree.above, Kind.roles, Kind.children, Expr.tree?,
        Tree.row, Expr.fits]
  | jump j span => exact fun r hr => absurd hr List.not_mem_nil

theorem Part.fitting (q : Part) (n : Nat) : (q.tree n).Fitting := by
  rcases q with g | b | v | s | e
  · simp [Tree.Fitting, Part.tree, Function.tree, Tree.above, Kind.roles, Block.fits]
  · obtain ⟨vars, statements, span⟩ := b
    rw [Part.tree, Block.tree_mk]
    intro r hr
    rcases List.mem_append.mp hr with hr | hr
    · refine Tree.fitting_of_map (fun c hc => List.mem_append_left _ hc) (fun c hc => ?_) r hr
      obtain ⟨v, -, m, rfl⟩ := Tree.mem_row hc
      rfl
    · refine Tree.fitting_of_map (fun c hc => List.mem_append_right _ hc) (fun c hc => ?_) r hr
      obtain ⟨s, -, m, rfl⟩ := Tree.mem_row hc
      exact s.fits m
  · exact fun r hr => absurd hr List.not_mem_nil
  · exact s.fitting n
  · exact e.fitting n

theorem Program.fitting (p : Program) : p.tree.Fitting := by
  intro r hr
  rcases List.mem_append.mp hr with hr | hr
  · refine Tree.fitting_of_map (fun c hc => List.mem_append_left _ hc) (fun c hc => ?_) r hr
    obtain ⟨v, -, m, rfl⟩ := p.each_vars.mem hc
    rfl
  · refine Tree.fitting_of_map (fun c hc => List.mem_append_right _ hc) (fun c hc => ?_) r hr
    obtain ⟨g, -, m, rfl⟩ := p.each_functions.mem hc
    rfl

end Fitting

namespace Program

theorem ascending_row (p : Program) :
    ((Tree.row Declaration.tree 0 p.declarations).map Tree.id).Pairwise (· < ·) :=
  (Tree.numbered_row (fun d (_ : d ∈ p.declarations) => d.numbered) 0).ascending

/-- The variables of a program and its functions are numbered in the order of its text. -/
theorem ascending_rows (p : Program) : ∀ row ∈ p.tree.kind.rows, row.Pairwise (· < ·) := by
  have hall := p.ascending_row
  rw [← Declaration.map_snd_trees] at hall
  intro row hrow
  rcases List.mem_pair.mp hrow with rfl | rfl
  · exact List.Pairwise.sublist ((List.filter_sublist.map Prod.snd).map Tree.id) hall
  · exact List.Pairwise.sublist ((List.filter_sublist.map Prod.snd).map Tree.id) hall

theorem mem_ids (p : Program) {id : Nat} : id ∈ p.tree.ids ↔ id ≤ p.tree.id := by
  have hrow := Tree.numbered_row (fun d (_ : d ∈ p.declarations) => d.numbered) 0
  -- In the order of the text the nodes are numbered without a gap.
  have hperm : p.tree.ids.Perm
      (Tree.above 0 (Tree.row Declaration.tree 0 p.declarations) p.tree.kind p.span).ids := by
    rw [Tree.ids_eq (.above 0 _ _ _)]
    have hp := p.subtrees_tree.map Tree.id
    rwa [List.map_append, List.map_flatMap] at hp
  rw [hperm.mem_iff, (Tree.numbered_above hrow p.tree.kind p.span).mem_ids]
  exact and_iff_right (Nat.zero_le id)

end Program

namespace Forest

variable {f : Forest} {t : Tree} (h : f.Carries t)

include h

/-- From a node downwards there are the nodes of its tree. -/
theorem below_iff {x : Tree} (hx : x ∈ t.subtrees) {id : NodeId} :
    f.Below x.id id ↔ id ∈ x.ids := by
  constructor
  · intro hb
    induction hb with
    | self => exact Tree.id_mem_ids x.self_mem_subtrees
    | child _ hl ih =>
      obtain ⟨y, hy, hyid⟩ := List.mem_map.mp ih
      obtain ⟨z, hz, hzid, c, hc, rfl⟩ := h.mem_links_iff.mp (mem_links.mpr hl)
      obtain rfl := Tree.eq_of_id_eq h.distinct (Tree.subtrees_trans hx hy) hz
        (hyid.trans hzid.symm)
      exact Tree.id_mem_ids (Tree.subtrees_trans hy (Tree.child_mem_subtrees hc))
  · intro hid
    obtain ⟨y, hy, rfl⟩ := List.mem_map.mp hid
    obtain ⟨above, hpath⟩ := Tree.exists_path hy
    clear hid hy
    induction hpath with
    | root => exact .self
    | child hp hc ih => exact ih.child (lists_of_child h (Tree.subtrees_trans hx hp.mem) hc)

/-- A child stands once in the list of its parent and in no other. -/
theorem count_children {x c : Tree} (hx : x ∈ t.subtrees) (hc : c ∈ x.children)
    {q : NodeId} {kind : Kind} (hq : f.kindOf? q = some kind) :
    kind.children.count c.id = if q = x.id then 1 else 0 := by
  by_cases hqx : q = x.id
  · have hkind : kind = x.kind := by
      have hk := h.kind x hx
      rw [← hqx, hq] at hk
      exact Option.some.inj hk
    have hnodup : (x.children.map Tree.id).Nodup := by
      have hall := (List.nodup_cons.mp (Tree.listed_nodup h.distinct)).2
      exact (List.nodup_flatMap.mp hall).1 x hx
    rw [if_pos hqx, hkind, h.listed x hx]
    exact List.count_eq_one_of_mem hnodup (List.mem_map_of_mem hc)
  · rw [if_neg hqx, List.count_eq_zero]
    intro hm
    exact hqx (lists_unique h ⟨kind, hq, hm⟩ (lists_of_child h hx hc))

theorem parentOf?_eq_some_iff (l : f.Linked t) {p c : NodeId} :
    f.parentOf? c = some p ↔ f.Lists p c := by
  constructor
  · intro hp
    have hc : c < f.size := by
      obtain ⟨n, hn, -⟩ := Option.bind_eq_some_iff.mp hp
      exact (Array.getElem?_eq_some_iff.mp hn).1
    obtain ⟨x, hx, rfl⟩ := h.tree_of_lt hc
    obtain ⟨above, hpath⟩ := Tree.exists_path hx
    rw [l hpath] at hp
    cases hpath with
    | root => cases hp
    | child hy hx =>
      obtain rfl := Option.some.inj hp
      exact lists_of_child h hy.mem hx
  · intro hl
    obtain ⟨x, hx, rfl, d, hd, rfl⟩ := h.mem_links_iff.mp (mem_links.mpr hl)
    obtain ⟨above, hpath⟩ := Tree.exists_path hx
    exact l (hpath.child hd)

/-- A node without a parent is the root. -/
theorem parentOf?_eq_none_iff (l : f.Linked t) {id : NodeId} (hid : id < f.size) :
    f.parentOf? id = none ↔ f.root = some id := by
  obtain ⟨x, hx, rfl⟩ := h.tree_of_lt hid
  obtain ⟨above, hpath⟩ := Tree.exists_path hx
  rw [l hpath, h.root]
  cases hpath with
  | root => exact ⟨fun _ => rfl, fun _ => rfl⟩
  | child hy hc =>
    have hne := Tree.child_id_ne_root h.distinct hy.mem hc
    constructor
    · intro hn
      cases hn
    · intro hr
      exact absurd (Option.some.inj hr).symm hne

end Forest

/-- Only a program may list things that are not in the order of its text. -/
theorem Part.rows_eq (q : Part) (n : Nat) : (q.tree n).kind.rows = [(q.tree n).kind.children] := by
  rcases q with g | b | v | s | e
  · rfl
  · cases b
    rfl
  · rfl
  · rcases s with _ | _ | ⟨_, _, _ | _, _⟩ | _ | _ | _ <;> rfl
  · rcases e with _ | ⟨_, _ | _, _⟩ | _ | _ | _ <;> rfl

namespace Program

variable {p : Program}

theorem size_grown : p.grown.size = p.tree.id + 1 := by
  have hlt := p.grown_carries.lt_size p.tree.self_mem_subtrees
  have hle : p.grown.size - 1 ≤ p.tree.id := p.mem_ids.mp (p.grown_carries.all _ (by omega))
  omega

/-- The numbers in a tree of the program have no gap. -/
theorem exists_first {x : Tree} (hx : x ∈ p.tree.subtrees) :
    ∃ first, ∀ id : Nat, id ∈ x.ids ↔ first ≤ id ∧ id ≤ x.id := by
  obtain ⟨above, hpath⟩ := Tree.exists_path hx
  rcases path_part hpath with ⟨-, rfl⟩ | ⟨-, q, m, rfl⟩
  · exact ⟨0, fun id => p.mem_ids.trans (and_iff_right (Nat.zero_le id)).symm⟩
  · exact ⟨m, fun id => (q.numbered m).mem_ids⟩

theorem ascending {x : Tree} (hx : x ∈ p.tree.subtrees) :
    ∀ row ∈ x.kind.rows, row.Pairwise (· < ·) := by
  obtain ⟨above, hpath⟩ := Tree.exists_path hx
  rcases path_part hpath with ⟨-, rfl⟩ | ⟨-, q, m, rfl⟩
  · exact p.ascending_rows
  · intro row hrow
    rw [q.rows_eq, List.mem_singleton] at hrow
    rw [hrow, p.grown_carries.listed _ hx]
    exact (q.numbered m).children

theorem fitting_of_mem {x : Tree} (hx : x ∈ p.tree.subtrees) : x.Fitting := by
  obtain ⟨above, hpath⟩ := Tree.exists_path hx
  rcases path_part hpath with ⟨-, rfl⟩ | ⟨-, q, m, rfl⟩
  · exact p.fitting
  · exact q.fitting m

end Program

namespace Forest

theorem Carries.of_kindOf? {f : Forest} {t : Tree} (h : f.Carries t) {id : NodeId} {kind : Kind}
    (hk : f.kindOf? id = some kind) : ∃ x ∈ t.subtrees, x.id = id ∧ x.kind = kind := by
  have hid : id < f.size := by
    obtain ⟨n, hn, -⟩ := Option.map_eq_some_iff.mp hk
    exact (Array.getElem?_eq_some_iff.mp hn).1
  obtain ⟨x, hx, rfl⟩ := h.tree_of_lt hid
  exact ⟨x, hx, rfl, Option.some.inj ((h.kind x hx).symm.trans hk)⟩

/-- Every child is what it is listed as. -/
theorem Carries.exists_role {f : Forest} {t : Tree} (h : f.Carries t)
    (hfit : ∀ x ∈ t.subtrees, x.Fitting) {y : Tree} {above : List Tree} {x : Tree}
    (hp : t.Path (y :: above) x) :
    ∃ role, (role, x.id) ∈ y.kind.roles ∧ role.fits x.kind = true := by
  cases hp with
  | child hy hx =>
    have hlisted : x.id ∈ y.kind.roles.map Prod.snd := by
      rw [y.kind.map_snd_roles, h.listed y hy.mem]
      exact List.mem_map_of_mem hx
    obtain ⟨⟨role, id⟩, hrole, rfl⟩ := List.mem_map.mp hlisted
    obtain ⟨c, hc, hid, hfits⟩ := hfit y hy.mem _ hrole
    have hchild {c : Tree} (hc : c ∈ y.children) : c ∈ t.subtrees :=
      Tree.subtrees_trans hy.mem (Tree.child_mem_subtrees hc)
    obtain rfl := Tree.eq_of_id_eq h.distinct (hchild hc) (hchild hx) hid
    exact ⟨role, hrole, hfits⟩

/-- Nothing lists a program. -/
theorem Carries.kind_ne_program {f : Forest} {t : Tree} (h : f.Carries t)
    (hfit : ∀ x ∈ t.subtrees, x.Fitting) {y : Tree} {above : List Tree} {x : Tree}
    (hp : t.Path (y :: above) x) (vars functions : List NodeId) :
    x.kind ≠ .program vars functions := by
  intro hk
  obtain ⟨role, -, hfits⟩ := h.exists_role hfit hp
  rw [hk] at hfits
  cases role <;> cases hfits

/-- The forest of a text is one tree whose nodes are numbered in post-order. -/
theorem parse_postOrder {source : String} {f : Forest} (hf : Forest.parse source = .ok f) :
    f.PostOrder := by
  obtain ⟨p, -, rfl⟩ := parse_eq_ok_iff.mp hf
  have h := p.grown_carries
  have hblock : ∀ x ∈ p.tree.subtrees, ∃ first, ∀ id : Nat, p.grown.Below x.id id ↔
      first ≤ id ∧ id ≤ x.id := by
    intro x hx
    obtain ⟨first, hfirst⟩ := Program.exists_first hx
    exact ⟨first, fun id => (below_iff h hx).trans (hfirst id)⟩
  constructor
  case root =>
    exact ⟨p.tree.id, _, _, h.root, Program.size_grown, h.kind _ p.tree.self_mem_subtrees⟩
  case listed =>
    intro c hc hr
    obtain ⟨x, hx, rfl⟩ := h.tree_of_lt hc
    obtain ⟨above, hpath⟩ := Tree.exists_path hx
    cases hpath with
    | root => exact absurd h.root hr
    | @child _ y _ hy hx =>
      exact ⟨y.id, h.lt_size hy.mem, fun q kind hq => count_children h hy.mem hx hq⟩
  case block =>
    intro id hid
    obtain ⟨x, hx, rfl⟩ := h.tree_of_lt hid
    obtain ⟨first, hfirst⟩ := hblock x hx
    exact ⟨first, ((hfirst x.id).mp .self).1, hfirst⟩
  case smaller =>
    intro q c hl
    obtain ⟨x, hx, rfl, d, hd, rfl⟩ := h.mem_links_iff.mp (mem_links.mpr hl)
    obtain ⟨first, hfirst⟩ := hblock x hx
    have hle := ((hfirst d.id).mp (Below.self.child hl)).2
    have hne := Tree.child_id_ne_root (Tree.distinct_subtree h.distinct hx) x.self_mem_subtrees hd
    exact Nat.lt_of_le_of_ne hle hne
  case ascending =>
    intro id kind hk
    obtain ⟨x, hx, -, rfl⟩ := h.of_kindOf? hk
    exact Program.ascending hx
  case parent => exact fun q c => parentOf?_eq_some_iff h p.grown_linked
  case orphan => exact fun id hid => parentOf?_eq_none_iff h p.grown_linked hid
  case roles =>
    intro id kind hk r hr
    obtain ⟨x, hx, -, rfl⟩ := h.of_kindOf? hk
    obtain ⟨c, hc, hid, hfits⟩ := Program.fitting_of_mem hx r hr
    exact ⟨c.kind, hid ▸ h.kind c (Tree.subtrees_trans hx (Tree.child_mem_subtrees hc)), hfits⟩

theorem parse_postOrder_mixed :
    ∃ f, Forest.parse
      "def int f(int a) \x7b if (a < g[1]) \x7b a = f(-a, 2); \x7d return a; \x7d int g[3];" =
      .ok f ∧ f.PostOrder := by
  apply exists_ok_of_isSome (by decide +kernel)
  intro f hf
  exact parse_postOrder hf

end Forest

end DecafCheck
