import DecafCheck.Proofs.Analysis.Safety
import DecafCheck.Proofs.Scope.Behind
import DecafCheck.Proofs.Scope.Resolution
import DecafCheck.Proofs.Scope.Sorted

namespace DecafCheck

/-- What sorting the symbols of a table gives after symbols have been offered to it. -/
structure Table.SortsFirsts (parent : Option TableId) (offered : List Symbol) : Prop where
  mem_iff : ∀ s, s ∈ (ofOffered parent offered).sorted ↔ declared? offered s.name = some s
  ascending : Symbol.Ascending (ofOffered parent offered).sorted
  anyOrder : ∀ values, values.Perm (ofOffered parent offered).symbols →
    Symbol.byName values = (ofOffered parent offered).sorted
  reordered : ∀ offered', offered'.Perm offered → (offered.map Symbol.name).Nodup →
    (ofOffered parent offered').sorted = (ofOffered parent offered).sorted

theorem Table.sortsFirsts (parent : Option TableId) (offered : List Symbol) :
    SortsFirsts parent offered := by
  have hnodup := nodup_firsts offered
  constructor
  · intro s
    rw [ofOffered_eq, sorted_eq, (Symbol.byName_perm _).mem_iff, mem_firsts]
  · rw [ofOffered_eq]
    exact Symbol.ascending_byName hnodup
  · intro values hvalues
    rw [ofOffered_eq] at hvalues ⊢
    exact Symbol.byName_eq_of_perm hnodup hvalues
  · intro offered' hperm hn
    have hn' : (offered'.map Symbol.name).Nodup := (hperm.map Symbol.name).nodup_iff.mpr hn
    rw [ofOffered_eq, ofOffered_eq, firsts_of_nodup hn, firsts_of_nodup hn']
    exact Symbol.byName_eq_of_perm hn hperm

/-- The same tables, which may hold their symbols in another order. -/
def Tables.Reordered (t t' : Tables) : Prop :=
  ∀ (k : TableId) (table : Table), t.tables[k]? = some table →
    ∃ symbols : List Symbol, symbols.Perm table.symbols ∧
    t'.tables[k]? = some ⟨symbols, table.parent⟩

namespace Forest

def setTables (f : Forest) (tables : Tables) : Forest :=
  { f with tables }

/-- The nodes that open scopes, in order. -/
def scopeIds (f : Forest) : List NodeId :=
  (List.range f.size).filter fun id => (f.kindOf? id).any Kind.opensScope

/-- What the dump of `g` shows of the scope at a node of `f`: the number of its table, whose it is
and inside which one, and the declarations that come first under their names, by ascending names. -/
def ShowsScope (policy : Policy) (f g : Forest) (id : NodeId) (text : String) : Prop :=
  ∃ kind k outer symbols, f.kindOf? id = some kind ∧ g.tableOf? id = some k ∧
    f.ScopeAround id outer ∧
    Symbol.Ascending symbols ∧
    (∀ s, s ∈ symbols ↔ declared? (f.declarations policy id) s.name = some s) ∧
      text = TableId.text k ++ " (" ++ kind.owner ++ ", parent: "
        ++ ((outer.bind g.tableOf?).map TableId.text).getD "none" ++ ")\n"
        ++ String.join (symbols.map fun s => "    " ++ s.text ++ "\n")

/-- Texts read one by one, where all but some are empty. -/
theorem exists_joined {ε α : Type} (read : α → Except ε String) (shown : Nat → Bool)
    (P : Nat → String → Prop) (as : List α) (start : Nat)
    (h : ∀ i a, as[i]? = some a → ∃ text, read a = .ok text ∧
      if shown (start + i) then P (start + i) text else text = "") :
    ∃ all texts, as.mapM read = .ok all ∧ String.join all = String.join texts ∧
      List.Forall₂ P ((List.range' start as.length).filter shown) texts := by
  induction as generalizing start with
  | nil => exact ⟨[], [], rfl, rfl, .nil⟩
  | cons a as ih =>
    obtain ⟨text, hread, hfirst⟩ := h 0 a rfl
    obtain ⟨all, texts, hall, hjoin, hshown⟩ := ih (start + 1) fun i b hb => by
      have hnext : start + 1 + i = start + (i + 1) := by omega
      rw [hnext]
      exact h (i + 1) b hb
    have hmap : (a :: as).mapM read = .ok (text :: all) := by
      rw [List.mapM_cons, hread, hall]
      rfl
    rw [List.length_cons, List.range'_succ, List.filter_cons]
    cases hs : shown start with
    | true =>
      simp only [Nat.add_zero, hs, if_true] at hfirst
      refine ⟨text :: all, text :: texts, hmap, ?_, ?_⟩
      · rw [String.join_cons, String.join_cons, hjoin]
      · exact .cons hfirst hshown
    | false =>
      simp only [Nat.add_zero, hs, Bool.false_eq_true, if_false] at hfirst
      refine ⟨text :: all, texts, hmap, ?_, hshown⟩
      rw [String.join_cons, hjoin, hfirst, String.empty_append]

section Annotated

variable (p : Program) (policy : Policy) {id k : Nat}

/-- The table of a scope holds the first of its declarations under each name. -/
theorem table_annotated (hk : (p.annotated policy).tableOf? id = some k) :
    ∃ outer, p.grown.ScopeAround id outer ∧ (p.annotated policy).tables.tables[k]? =
      some ⟨firsts (p.grown.declarations policy id), outer.bind (p.annotated policy).tableOf?⟩ := by
  have b := p.annotated_built policy
  obtain ⟨x, hx, rfl, hscope⟩ := b.tree_of_tableOf? hk
  obtain ⟨above, hpath⟩ := Tree.exists_path hx
  obtain ⟨j, hseat⟩ := b.seated hpath
  obtain ⟨hj, htable⟩ := hseat.own hscope
  obtain rfl := Option.some.inj (hj.symm.trans hk)
  obtain ⟨outer, houter, hparent⟩ := b.scopeAround p.grown_carries hpath
  refine ⟨outer, houter, ?_⟩
  rw [declarations_eq p.grown_carries policy hpath, if_pos hscope, hparent]
  exact htable

theorem isSome_tableOf?_annotated (hid : id < p.grown.size) :
    ((p.annotated policy).tableOf? id).isSome = (p.grown.kindOf? id).any Kind.opensScope := by
  obtain ⟨x, hx, rfl⟩ := p.grown_carries.tree_of_lt hid
  rw [p.grown_carries.kind x hx, Bool.eq_iff_iff]
  exact (p.annotated_built policy).isSome_tableOf?_iff hx

theorem shows_node {n : Node} (hn : (p.annotated policy).node? id = some n) :
    ∃ text, (p.annotated policy).dumpNode n = .ok text ∧
      if (p.grown.kindOf? id).any Kind.opensScope then
        ShowsScope policy p.grown (p.annotated policy) id text
      else text = "" := by
  have halike := p.grown.alike_withTables (p.tree.tables policy)
  have hid : id < p.grown.size := halike.size ▸ (Array.getElem?_eq_some_iff.mp hn).1
  have hkind : p.grown.kindOf? id = some n.kind := by
    rw [← halike.kind]
    exact congrArg (Option.map Node.kind) hn
  have htable : (p.annotated policy).tableOf? id = n.table := congrArg (Option.bind · Node.table) hn
  have hscope := isSome_tableOf?_annotated p policy hid
  rw [htable] at hscope
  rw [← hscope]
  unfold dumpNode
  cases hk : n.table with
  | none => exact ⟨"", rfl, rfl⟩
  | some k =>
    rw [hk] at htable
    obtain ⟨outer, houter, hget⟩ := table_annotated p policy htable
    refine ⟨_, by simp only [Tables.get, hget]; rfl, n.kind, k, outer, _, hkind, htable, houter,
      Symbol.ascending_byName (nodup_firsts _), fun s => ?_, rfl⟩
    rw [(Symbol.byName_perm _).mem_iff, mem_firsts]

theorem scopeIds_tables : (p.grown.scopeIds.filterMap (p.annotated policy).tableOf?).Perm
    (List.range (p.annotated policy).tables.size) := by
  have b := p.annotated_built policy
  have hsize {id k : Nat} (hk : (p.annotated policy).tableOf? id = some k) :
      k < (p.annotated policy).tables.size := by
    obtain ⟨_, -, hget⟩ := table_annotated p policy hk
    exact (Array.getElem?_eq_some_iff.mp hget).1
  have hnodup : (p.grown.scopeIds.filterMap (p.annotated policy).tableOf?).Nodup := by
    refine List.Nodup.filterMap ?_ (List.nodup_range.filter _)
    intro id id' k hk hk'
    exact (b.owner (hsize hk)).unique hk hk'
  refine (List.perm_ext_iff_of_nodup hnodup List.nodup_range).mpr fun k => ?_
  rw [List.mem_filterMap, List.mem_range]
  constructor
  · rintro ⟨id, -, hk⟩
    exact hsize hk
  · intro hk
    obtain ⟨id, hid, -⟩ := b.owner hk
    have hlt : id < p.grown.size := by
      obtain ⟨x, hx, rfl, -⟩ := b.tree_of_tableOf? hid
      exact p.grown_carries.lt_size hx
    refine ⟨id, List.mem_filter.mpr ⟨List.mem_range.mpr hlt, ?_⟩, hid⟩
    rw [← isSome_tableOf?_annotated p policy hlt, hid]
    rfl

/-- The dump sorts the symbols, so their order in the tables does not matter. -/
theorem dumpSymbols_reordered {tables : Tables} (h : (p.annotated policy).tables.Reordered tables) :
    ((p.annotated policy).setTables tables).dumpSymbols = (p.annotated policy).dumpSymbols := by
  have hnode : ∀ n ∈ (p.annotated policy).nodes.toList,
      ((p.annotated policy).setTables tables).dumpNode n = (p.annotated policy).dumpNode n := by
    intro n hn
    obtain ⟨id, hid⟩ := Array.mem_iff_getElem?.mp (Array.mem_toList_iff.mp hn)
    have htable : (p.annotated policy).tableOf? id = n.table :=
      congrArg (Option.bind · Node.table) hid
    unfold dumpNode
    cases hk : n.table with
    | none => rfl
    | some k =>
      obtain ⟨_, -, hget⟩ := table_annotated p policy (htable.trans hk)
      obtain ⟨symbols, hperm, hget'⟩ := h k _ hget
      have hsorted := Symbol.byName_eq_of_perm (nodup_firsts _) hperm
      simp only [setTables, Tables.get, hget, hget', bind, Except.bind, Table.dump,
        Table.sorted_eq, hsorted]
  have hnodes : ((p.annotated policy).setTables tables).nodes = (p.annotated policy).nodes := rfl
  rw [dumpSymbols, dumpSymbols, hnodes, mapM_congr hnode]

end Annotated

end Forest

/-- A table to which symbols have been offered lists the first one of each name, strictly ascending
by name in the order of bytes, whatever order it holds them in, and for distinct names whatever
order they were offered in. The dump of a text that is parsed shows every scope once with its table,
in the order of the nodes, and with it the declarations that come first under their names, in that
order. All tables are shown, and the order of the symbols in them does not matter. -/
theorem symbols_dumped_by_name {source : String} {f : Forest} (hf : Forest.parse source = .ok f)
    (policy : Policy) :
    (∀ parent offered, Table.SortsFirsts parent offered) ∧
    ∃ a, check policy source = .ok a ∧ ∃ texts, a.forest.dumpSymbols = .ok (String.join texts) ∧
      List.Forall₂ (f.ShowsScope policy a.forest) f.scopeIds texts ∧
      (f.scopeIds.filterMap a.forest.tableOf?).Perm (List.range a.forest.tables.size) ∧
      ∀ tables, a.forest.tables.Reordered tables →
        (a.forest.setTables tables).dumpSymbols = a.forest.dumpSymbols := by
  refine ⟨Table.sortsFirsts, ?_⟩
  obtain ⟨p, hp, rfl⟩ := Forest.parse_eq_ok_iff.mp hf
  obtain ⟨types, -, hcheck⟩ := check_of_parse_ok hp policy
  have hsize : (p.annotated policy).nodes.toList.length = p.grown.size :=
    (p.grown.alike_withTables (p.tree.tables policy)).size
  obtain ⟨all, texts, hall, hjoin, hshown⟩ := Forest.exists_joined (p.annotated policy).dumpNode
    (fun id => (p.grown.kindOf? id).any Kind.opensScope)
    (p.grown.ShowsScope policy (p.annotated policy))
    (p.annotated policy).nodes.toList 0 fun i n hn => by
      rw [Nat.zero_add]
      exact Forest.shows_node p policy (by rwa [Array.getElem?_toList] at hn)
  rw [hsize, ← List.range_eq_range'] at hshown
  refine ⟨_, hcheck, texts, ?_, hshown, Forest.scopeIds_tables p policy,
    fun tables => Forest.dumpSymbols_reordered p policy⟩
  simp only [Forest.dumpSymbols, hall, bind, Except.bind, pure, Except.pure, hjoin]

/-- Names out of order, one of them declared twice and one only by an empty array. -/
def mixedText : String :=
  "int b; int a; bool b; int c[0];" ++
    " def int main(int z, bool y) \x7b int _; int Z; return 0; \x7d"

theorem symbols_dumped_by_name_mixed :
    ∃ f, Forest.parse mixedText = .ok f ∧
      f.scopeIds = [8, 9, 10] ∧
      (f.declarations {} 10).map Symbol.text =
        ["global int b", "global int a", "global bool b", "def int main(int, bool)"] ∧
      ∃ (a : Analysis) (texts : List String), a.forest.dumpSymbols = .ok (String.join texts) ∧
        List.Forall₂ (f.ShowsScope {} a.forest) f.scopeIds texts := by
  obtain ⟨f, hf, hshape⟩ := exists_ok_of_map (x := Forest.parse mixedText)
    (g := fun f => (f.scopeIds, (f.declarations {} 10).map Symbol.text))
    (b := ([8, 9, 10], ["global int b", "global int a", "global bool b",
      "def int main(int, bool)"]))
    (by decide +kernel)
  obtain ⟨hids, hdeclared⟩ := Prod.mk.inj hshape
  obtain ⟨-, a, -, texts, hdump, hshown, -⟩ := symbols_dumped_by_name hf {}
  exact ⟨f, hf, hids, hdeclared, a, texts, hdump, hshown⟩

end DecafCheck
