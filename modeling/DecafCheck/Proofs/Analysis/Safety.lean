import DecafCheck.Proofs.Analysis.Check
import DecafCheck.Forest.Dump

namespace DecafCheck

namespace Tables

/-- Every number among the tables is that of a table, and every chain of tables comes to an end. -/
structure Closed (t : Tables) : Prop where
  outer : ∀ {k j : TableId} {table : Table}, t.get k = .ok table → table.parent = some j →
    ∃ around, t.get j = .ok around
  lookup : ∀ {k : TableId} {table : Table}, t.get k = .ok table →
      ∀ name f, t.lookup k name ≠ .error (.fault f)
  outermost : ∀ {k : TableId} {table : Table}, t.get k = .ok table →
      ∃ globals, t.outermost k >>= t.get = .ok globals

theorem get_eq_ok_iff {t : Tables} {k : TableId} {table : Table} :
    t.get k = .ok table ↔ t.tables[k]? = some table := by
  rw [get]
  cases t.tables[k]? <;> simp

theorem exists_get {t : Tables} {k : TableId} (hk : k < t.size) : ∃ table, t.get k = .ok table :=
  ⟨_, get_eq_ok_iff.mpr (Array.getElem?_eq_getElem hk)⟩

theorem closed_of_chains {t : Tables} (h : ∀ k < t.size, ∃ scopes, t.Chain k scopes) :
    t.Closed := by
  have hc {k : TableId} {table : Table} (hk : t.get k = .ok table) : ∃ scopes, t.Chain k scopes :=
    h k (Array.getElem?_eq_some_iff.mp (get_eq_ok_iff.mp hk)).1
  constructor
  · intro k j table hk hj
    have hk' := get_eq_ok_iff.mp hk
    obtain ⟨scopes, hs⟩ := hc hk
    cases hs with
    | outermost hn => cases hn.symm.trans hk'; cases hj
    | inside hn _ ho =>
      cases hn.symm.trans hk'
      cases hj
      exact exists_get ho.lt_size
  · intro k table hk name f
    obtain ⟨scopes, hs⟩ := hc hk
    rw [hs.lookup_eq]
    cases scopes.find? name <;> simp
  · intro k table hk
    obtain ⟨scopes, hs⟩ := hc hk
    obtain ⟨parent, hg⟩ := hs.outermost_eq
    exact ⟨_, hg⟩

end Tables

namespace Forest

/-- Every number in a forest is that of a node or a table of it. -/
structure Closed (f : Forest) : Prop where
  root : ∃ id n, f.root = some id ∧ f.node id = .ok n
  child : ∀ {id c : NodeId} {n : Node}, f.node id = .ok n → c ∈ n.kind.children →
      ∃ m, f.node c = .ok m
  parent : ∀ {id q : NodeId} {n : Node}, f.node id = .ok n → n.parent = some q →
      ∃ m, f.node q = .ok m
  table : ∀ {id : NodeId} {k : TableId} {n : Node}, f.node id = .ok n → n.table = some k →
    ∃ table, f.tables.get k = .ok table
  tables : f.tables.Closed

theorem node_eq_ok_iff {f : Forest} {id : NodeId} {n : Node} :
    f.node id = .ok n ↔ f.node? id = some n := by
  rw [node]
  cases f.node? id <;> simp

/-- A forest of one linked tree is closed if its tables are and no node has a table that is not
there. -/
theorem Carries.closed {f : Forest} {t : Tree} (h : f.Carries t) (l : f.Linked t)
    (ht : f.tables.Closed) (hk : ∀ id, ∀ k ∈ f.tableOf? id, k < f.tables.size) : f.Closed := by
  have hread {x : Tree} (hx : x ∈ t.subtrees) : ∃ n, f.node x.id = .ok n ∧ n.kind = x.kind := by
    obtain ⟨n, hn, hkind, -⟩ := h.node hx
    exact ⟨n, node_eq_ok_iff.mpr hn, hkind⟩
  have htree {id : NodeId} {n : Node} (hn : f.node id = .ok n) :
      ∃ x ∈ t.subtrees, x.id = id ∧ x.kind = n.kind := by
    have hn' := node_eq_ok_iff.mp hn
    obtain ⟨x, hx, rfl⟩ := h.tree_of_lt (Array.getElem?_eq_some_iff.mp hn').1
    obtain ⟨m, hm, hkind⟩ := hread hx
    cases hn.symm.trans hm
    exact ⟨x, hx, rfl, hkind.symm⟩
  constructor
  · obtain ⟨n, hn, -⟩ := hread t.self_mem_subtrees
    exact ⟨t.id, n, h.root, hn⟩
  · intro id c n hn hc
    obtain ⟨x, hx, rfl, hkind⟩ := htree hn
    rw [← hkind, h.listed x hx] at hc
    obtain ⟨d, hd, rfl⟩ := List.mem_map.mp hc
    obtain ⟨m, hm, -⟩ := hread (Tree.subtrees_trans hx (Tree.child_mem_subtrees hd))
    exact ⟨m, hm⟩
  · intro id q n hn hq
    obtain ⟨x, hx, rfl, -⟩ := htree hn
    obtain ⟨above, hp⟩ := Tree.exists_path hx
    have hpar := l hp
    simp only [parentOf?, node_eq_ok_iff.mp hn, Option.bind_some, hq] at hpar
    cases hp with
    | root => cases hpar
    | child hy _ =>
      cases hpar
      obtain ⟨m, hm, -⟩ := hread hy.mem
      exact ⟨m, hm⟩
  · intro id k n hn hnk
    refine Tables.exists_get (hk id k ?_)
    simp [tableOf?, node_eq_ok_iff.mp hn, hnk]
  · exact ht

/-- Every table is that of some scope, so its chain holds the scopes around. -/
theorem Built.chain {policy : Policy} {f : Forest} {t : Tree} (h : f.Built policy t) {k : TableId}
    (hk : k < f.tables.size) : ∃ scopes, f.tables.Chain k scopes := by
  have hlt : k < (t.tables policy).length := h.size ▸ hk
  have hm : (t.tables policy)[k]? = some (t.tables policy)[k] := List.getElem?_eq_getElem hlt
  have hown := (h.holds k _ hm).1
  rw [Nat.zero_add] at hown
  obtain ⟨x, hx, hscope, hid⟩ :=
    (@Tree.mem_tables policy t h.scope _).mp (List.mem_map_of_mem (List.mem_of_getElem? hm))
  obtain ⟨above, hp⟩ := Tree.exists_path hx
  obtain ⟨j, hs⟩ := h.seated hp
  have hj := (hs.own hscope).1
  rw [hid, hown] at hj
  cases hj
  exact ⟨_, hs.chain⟩

theorem Built.closed {policy : Policy} {f : Forest} {t : Tree} (h : f.Built policy t) :
    f.Closed := by
  refine h.carries.closed h.linked (Tables.closed_of_chains fun k hk => h.chain hk) ?_
  intro id k hk
  obtain ⟨scopes, hc⟩ := h.chained id k hk
  exact hc.lt_size

theorem exists_mapM_ok {α β ε : Type} {as : List α} {read : α → Except ε β}
    (h : ∀ a ∈ as, ∃ b, read a = .ok b) :
    ∃ bs, as.mapM read = .ok bs := by
  induction as with
  | nil => exact ⟨[], rfl⟩
  | cons a as ih =>
    obtain ⟨b, hb⟩ := h a List.mem_cons_self
    obtain ⟨bs, hbs⟩ := ih fun x hx => h x (List.mem_cons_of_mem a hx)
    refine ⟨b :: bs, ?_⟩
    rw [List.mapM_cons, hb, hbs]
    rfl

theorem Closed.dumpSymbols {f : Forest} (h : f.Closed) : ∃ text, f.dumpSymbols = .ok text := by
  have hnodes : ∀ n ∈ f.nodes.toList, ∃ text, f.dumpNode n = .ok text := by
    intro n hn
    obtain ⟨id, hid⟩ := List.mem_iff_getElem?.mp hn
    have hread : f.node id = .ok n := node_eq_ok_iff.mpr (by rwa [Array.getElem?_toList] at hid)
    rw [dumpNode]
    cases ht : n.table with
    | none => exact ⟨"", rfl⟩
    | some k =>
      obtain ⟨table, hk⟩ := h.table hread ht
      exact ⟨table.dump k n.kind, by simp [hk, bind, Except.bind, pure, Except.pure]⟩
  obtain ⟨texts, ht⟩ := exists_mapM_ok hnodes
  exact ⟨String.join texts, by simp [Forest.dumpSymbols, ht, bind, Except.bind, pure, Except.pure]⟩

end Forest

theorem Program.grown_closed (p : Program) : p.grown.Closed := by
  apply p.grown_carries.closed p.grown_linked
  · apply Tables.closed_of_chains
    intro k hk
    rw [p.grown_tables] at hk
    exact absurd hk (Nat.not_lt_zero k)
  · intro id k hk
    rw [p.tableOf?_grown] at hk
    cases hk

/-- A check ends in a refusal by the lexer or the grammar, or in an analysis. It never meets a
malformed tree or a fault, such as a number without a node or table or a variable that has no
symbol. -/
theorem check_never_malformed (policy : Policy) (source : String) :
    (∃ e, check policy source = .error (.lexical e)) ∨
      (∃ e, check policy source = .error (.grammar e)) ∨
      ∃ f a, Forest.parse source = .ok f ∧ f.Closed ∧ check policy source = .ok a ∧
        a.forest.Closed ∧ ∃ text, a.forest.dumpSymbols = .ok text := by
  cases hp : Program.parse source with
  | error e =>
    have he := check_of_parse_error hp policy
    cases e with
    | lexical e => exact .inl ⟨e, he⟩
    | grammar e => exact .inr (.inl ⟨e, he⟩)
  | ok p =>
    obtain ⟨types, -, hcheck⟩ := check_of_parse_ok hp policy
    have hf : Forest.parse source = .ok p.grown := Forest.parse_eq_ok_iff.mpr ⟨p, hp, rfl⟩
    have hclosed := (p.annotated_built policy).closed
    exact .inr (.inr ⟨_, _, hf, p.grown_closed, hcheck, hclosed, hclosed.dumpSymbols⟩)

end DecafCheck
