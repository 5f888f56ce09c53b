import DecafCheck.Proofs.Scope.Attached
import DecafCheck.Forest.Dump

namespace DecafCheck

/-- The table with the number of the table around it raised by `n`. -/
def Table.raised (n : Nat) (t : Table) : Table :=
  { t with parent := t.parent.map (n + ·) }

/-- The node with the number of its table raised by `n`. -/
def Node.raised (n : Nat) (x : Node) : Node :=
  { x with table := x.table.map (n + ·) }

/-- The tables behind older ones. -/
def Tables.behind (t old : Tables) : Tables :=
  ⟨old.tables ++ t.tables.map (Table.raised old.size)⟩

/-- The forest with its tables behind older ones. -/
def Forest.behind (f : Forest) (old : Tables) : Forest :=
  ⟨f.nodes.map (Node.raised old.size), f.root, f.tables.behind old⟩

namespace Tables

variable {t : Tables} (old : Tables)

theorem getElem?_behind (t : Tables) (k : TableId) :
    (t.behind old).tables[old.size + k]? = t.tables[k]?.map (Table.raised old.size) := by
  have hk : ¬old.tables.size + k < old.tables.size := Nat.not_lt.mpr (Nat.le_add_right _ _)
  simp [behind, Array.getElem?_append, size, hk]

namespace Chain

variable {k : TableId} {scopes : Scopes} (h : t.Chain k scopes)

include h

/-- The table around a table is at the inner end of a chain too. -/
theorem around {j : TableId} {table : Table} (hk : t.tables[k]? = some table)
    (hj : table.parent = some j) :
    ∃ outer, t.Chain j outer := by
  cases h with
  | outermost hn =>
    cases hn.symm.trans hk
    cases hj
  | inside hn _ ho =>
    cases hn.symm.trans hk
    cases hj
    exact ⟨_, ho⟩

/-- A chain of tables stays one behind older tables. -/
theorem behind : (t.behind old).Chain (old.size + k) scopes := by
  induction h with
  | @outermost k scope hk =>
    refine .outermost ?_
    rw [getElem?_behind, hk]
    rfl
  | @inside k j scope outer hk hj _ ih =>
    refine .inside ?_ (Nat.add_lt_add_left hj old.size) ih
    rw [getElem?_behind, hk]
    rfl

theorem lookup_behind (name : String) :
    (t.behind old).lookup (old.size + k) name = t.lookup k name := by
  rw [(h.behind old).lookup_eq, h.lookup_eq]

/-- The table is there, and behind older tables it is there with its number raised. -/
theorem get_behind : ∃ table, t.tables[k]? = some table ∧ t.get k = .ok table ∧
    (t.behind old).get (old.size + k) = .ok (table.raised old.size) := by
  obtain ⟨table, htable⟩ : ∃ table, t.tables[k]? = some table :=
    ⟨_, Array.getElem?_eq_getElem h.lt_size⟩
  refine ⟨table, htable, ?_, ?_⟩
  · rw [get, htable]
  · rw [get, getElem?_behind, htable]
    rfl

end Chain

end Tables

namespace Forest

section Behind

variable (f : Forest) (old : Tables)

theorem size_behind : (f.behind old).size = f.size :=
  Array.size_map

theorem node?_behind (id : NodeId) :
    (f.behind old).node? id = (f.node? id).map (Node.raised old.size) :=
  Array.getElem?_map

theorem kindOf?_behind (id : NodeId) : (f.behind old).kindOf? id = f.kindOf? id := by
  rw [kindOf?, node?_behind, Option.map_map]
  rfl

theorem spanOf_behind (id : NodeId) : (f.behind old).spanOf id = f.spanOf id := by
  rw [spanOf, node?_behind, Option.map_map]
  rfl

theorem parentOf?_behind (id : NodeId) : (f.behind old).parentOf? id = f.parentOf? id := by
  rw [parentOf?, node?_behind, Option.bind_map]
  rfl

theorem nearestTableWithin_behind (steps : Nat) (id : NodeId) :
    (f.behind old).nearestTableWithin steps id =
      (f.nearestTableWithin steps id).map (old.size + ·) := by
  induction steps generalizing id with
  | zero => rfl
  | succ steps ih =>
    rw [nearestTableWithin, nearestTableWithin, node?_behind]
    cases f.node? id with
    | none => rfl
    | some x =>
      dsimp only [Option.map_some, Node.raised, bind, Option.bind]
      cases x.table with
      | some k => rfl
      | none =>
        cases x.parent with
        | none => rfl
        | some parent => exact ih parent

theorem nearestTable_behind (id : NodeId) :
    (f.behind old).nearestTable id = (f.nearestTable id).map (old.size + ·) := by
  rw [nearestTable, size_behind]
  exact f.nearestTableWithin_behind old _ id

theorem tourWithin_behind (depth : Nat) (id : NodeId) :
    (f.behind old).tourWithin depth id = f.tourWithin depth id := by
  induction depth generalizing id with
  | zero => rfl
  | succ depth ih =>
    rw [tourWithin, tourWithin, node?_behind, size_behind, funext ih]
    cases f.node? id <;> rfl

theorem tour_behind (id : NodeId) : (f.behind old).tour id = f.tour id := by
  rw [tour, size_behind]
  exact f.tourWithin_behind old _ id

end Behind

theorem exists_tableOf?_of_nearestTableWithin {f : Forest} {steps : Nat} {id : NodeId} {k : TableId}
    (h : f.nearestTableWithin steps id = some k) : ∃ j, f.tableOf? j = some k := by
  induction steps generalizing id with
  | zero => cases h
  | succ steps ih =>
    rw [nearestTableWithin] at h
    cases hx : f.node? id with
    | none =>
      rw [hx] at h
      cases h
    | some x =>
      simp only [hx, bind, Option.bind] at h
      cases ht : x.table with
      | some j =>
        simp only [ht] at h
        cases h
        exact ⟨id, by rw [tableOf?, hx, Option.bind_some, ht]⟩
      | none =>
        simp only [ht] at h
        cases hp : x.parent with
        | none =>
          rw [hp] at h
          cases h
        | some parent =>
          rw [hp] at h
          exact ih h

namespace Chained

variable {f : Forest} (h : f.Chained) (old : Tables)

include h

theorem of_nearestTable {id : NodeId} {k : TableId} (hk : f.nearestTable id = some k) :
    ∃ scopes, f.tables.Chain k scopes := by
  obtain ⟨j, hj⟩ := exists_tableOf?_of_nearestTableWithin hk
  exact h j k hj

/-- Names mean the same behind older tables. -/
theorem resolve_behind (id : NodeId) (name : String) :
    (f.behind old).resolve id name = f.resolve id name := by
  rw [resolve, resolve, nearestTable_behind]
  cases hk : f.nearestTable id with
  | none => rfl
  | some k =>
    obtain ⟨scopes, hc⟩ := h.of_nearestTable hk
    exact congrArg Except.toOption (hc.lookup_behind old name)

end Chained

end Forest

namespace Tree

theorem scopesAll_raised {policy : Policy} {ts : List Tree} {n base outer : Nat}
    (ih : ∀ t ∈ ts, ∀ base, t.scopes policy (n + base) (n + outer) =
      (t.scopes policy base outer).map fun p => (p.1, p.2.raised n)) :
    scopesAll policy (n + base) (n + outer) ts =
      (scopesAll policy base outer ts).map fun p => (p.1, p.2.raised n) := by
  induction ts generalizing base with
  | nil => rfl
  | cons t ts ihs =>
    have hr := @ihs (base + (t.scopes policy base outer).length) fun u hu =>
      ih u (List.mem_cons_of_mem t hu)
    rw [scopesAll, scopesAll, ih t List.mem_cons_self, List.length_map, Nat.add_assoc, hr,
      List.map_append]

/-- Tables made behind `n` older ones are numbered from `n` on. -/
theorem scopes_raised (policy : Policy) (n base outer : Nat) (t : Tree) :
    t.scopes policy (n + base) (n + outer) =
      (t.scopes policy base outer).map fun p => (p.1, p.2.raised n) := by
  induction t generalizing base outer with
  | node id kind span cs ih =>
    have hall (base outer : Nat) : scopesAll policy (n + base) (n + outer) cs =
        (scopesAll policy base outer cs).map fun p => (p.1, p.2.raised n) :=
      scopesAll_raised fun c hc base => ih c hc base outer
    rw [scopes, scopes]
    split
    · rw [List.map_cons, Nat.add_assoc, hall]
      rfl
    · exact hall base outer

end Tree

namespace Forest

/-- A node in the list lets go of the table it had. -/
theorem node?_attachAll (f : Forest) (base : Nat) {ids : List NodeId} (hn : ids.Nodup)
    (j : NodeId) :
    (f.attachAll base ids).node? j =
      (f.node? j).map fun x =>
        { x with table := if j ∈ ids then some (base + ids.idxOf j) else x.table } := by
  induction ids generalizing f base with
  | nil => simp [attachAll]
  | cons id ids ih =>
    obtain ⟨hid, hn⟩ := List.nodup_cons.mp hn
    have hattach : (f.attach id base).node? j =
        (f.node? j).map fun x => if id = j then { x with table := some base } else x :=
      f.node?_alter id j
    rw [attachAll, ih _ _ hn, hattach, Option.map_map]
    congr 1
    funext x
    by_cases hj : id = j
    · subst hj
      simp [hid]
    · have hj' : j ≠ id := fun h => hj h.symm
      by_cases hm : j ∈ ids
      · have hi : base + 1 + ids.idxOf j = base + (ids.idxOf j + 1) := by omega
        simp [hj, hm, hi, List.idxOf_cons_ne _ hj]
      · simp [hj, hj', hm]

/-- Building scopes on a forest that may have tables makes new ones behind them. -/
theorem Carries.buildScopes_behind {f : Forest} {t : Tree} (h : f.Carries t) (policy : Policy)
    {vars functions : List NodeId} (hk : t.kind = .program vars functions) :
    f.buildScopes policy =
      ⟨{ f.attachAll f.tables.size ((t.tables policy).map Prod.fst) with
          tables := Tables.behind ⟨((t.tables policy).map Prod.snd).toArray⟩ f.tables },
        Tree.scopeLogAll policy .global [] t.children, none⟩ := by
  have hscopes : Tree.scopesAll policy (f.tables.size + 1) f.tables.size t.children =
      (Tree.scopesAll policy 1 0 t.children).map fun p => (p.1, p.2.raised f.tables.size) :=
    Tree.scopesAll_raised fun c _ base => c.scopes_raised policy f.tables.size base 0
  simp [buildScopes, h.root, h.follow_tour policy hk, hscopes, Scoping.adding, Tree.tables,
    Tables.append, Tables.behind, Table.raised, Function.comp_def]

/-- Building scopes a second time gives what the first time would have given, behind the older
tables. -/
theorem Carries.buildScopes_again {f : Forest} {t : Tree} (h : f.Carries t)
    (hf : ∀ id, f.tableOf? id = none) (first policy : Policy) {vars functions : List NodeId}
    (hk : t.kind = .program vars functions) :
    (f.withTables (t.tables first)).buildScopes policy =
      ⟨(f.withTables (t.tables policy)).behind (f.withTables (t.tables first)).tables,
        Tree.scopeLogAll policy .global [] t.children, none⟩ := by
  have hopens : t.kind.opensScope = true := by
    rw [hk]
    rfl
  have hnodup (q : Policy) : ((t.tables q).map Prod.fst).Nodup :=
    Tree.nodup_tables hopens h.distinct
  have hnode (j : NodeId) :
      ((f.withTables (t.tables first)).attachAll (f.withTables (t.tables first)).tables.size
      ((t.tables policy).map Prod.fst)).node? j =
        ((f.withTables (t.tables policy)).behind (f.withTables (t.tables first)).tables).node?
        j := by
    have hfirst : (f.withTables (t.tables first)).node? j = _ :=
      f.node?_attachAll 0 (hnodup first) j
    have hfresh : (f.withTables (t.tables policy)).node? j = _ :=
      f.node?_attachAll 0 (hnodup policy) j
    rw [node?_attachAll _ _ (hnodup policy), node?_behind, hfirst, hfresh, Option.map_map,
      Option.map_map]
    cases hx : f.node? j with
    | none => rfl
    | some x =>
      have hslot : x.table = none := by simpa [tableOf?, hx] using hf j
      -- the second run attaches tables to the nodes that have one from the first run, and to no
      -- other
      have hiff : j ∈ (t.tables policy).map Prod.fst ↔ j ∈ (t.tables first).map Prod.fst := by
        rw [Tree.mem_tables hopens, Tree.mem_tables hopens]
      by_cases hj : j ∈ (t.tables policy).map Prod.fst
      · simp only [Option.map_some, Function.comp_apply, Node.raised, if_pos hj, Nat.zero_add]
      · simp only [Option.map_some, Function.comp_apply, Node.raised, if_neg hj,
          if_neg fun hm => hj (hiff.mpr hm), hslot, Option.map_none]
  have hnodes := Array.ext_getElem? hnode
  have hroot (q : Policy) : (f.withTables (t.tables q)).root = f.root :=
    (f.alike_withTables (t.tables q)).root
  rw [(h.of_alike (f.alike_withTables _)).buildScopes_behind policy hk]
  dsimp only
  rw [hnodes, (alike_attachAll _ _ _).root, hroot first, ← hroot policy]
  rfl

end Forest

section Dump

/-- The part of the dump that a node has, with `n` added to the number of every table. -/
def Forest.dumpNodeFrom (n : Nat) (f : Forest) (x : Node) : Except Fault String :=
  match x.table with
  | none => .ok ""
  | some id => return ((← f.tables.get id).raised n).dump (n + id) x.kind

/-- The dump of symbol tables, with `n` added to the number of every table. -/
def Forest.dumpSymbolsFrom (n : Nat) (f : Forest) : Except Fault String := do
  return String.join (← f.nodes.toList.mapM (f.dumpNodeFrom n))

theorem mapM_congr {α β ε : Type} {as : List α} {read read' : α → Except ε β}
    (h : ∀ a ∈ as, read a = read' a) :
    as.mapM read = as.mapM read' := by
  induction as with
  | nil => rfl
  | cons a as ih =>
    rw [List.mapM_cons, List.mapM_cons, h a List.mem_cons_self,
      ih fun b hb => h b (List.mem_cons_of_mem a hb)]

theorem Table.raised_zero (t : Table) : t.raised 0 = t := by
  obtain ⟨symbols, parent⟩ := t
  cases parent with
  | none => rfl
  | some j => simp [raised]

theorem Forest.dumpSymbolsFrom_zero (f : Forest) : f.dumpSymbolsFrom 0 = f.dumpSymbols := by
  have hnode : f.dumpNodeFrom 0 = f.dumpNode := by
    funext x
    unfold dumpNodeFrom dumpNode
    cases x.table with
    | none => rfl
    | some id => simp only [Table.raised_zero, Nat.zero_add]
  rw [dumpSymbolsFrom, hnode]
  rfl

namespace Forest

variable {f : Forest} (h : f.Chained) (old : Tables)

include h

theorem Chained.dumpNode_behind {id : NodeId} {x : Node} (hx : f.node? id = some x) :
    (f.behind old).dumpNode (x.raised old.size) = f.dumpNodeFrom old.size x := by
  unfold dumpNode dumpNodeFrom
  cases hk : x.table with
  | none => simp only [Node.raised, hk, Option.map_none]
  | some k =>
    obtain ⟨scopes, hc⟩ := h id k (by rw [tableOf?, hx, Option.bind_some, hk])
    obtain ⟨table, -, hget, hbehind⟩ := hc.get_behind old
    have hbehind : (f.behind old).tables.get (old.size + k) = .ok (table.raised old.size) := hbehind
    simp only [Node.raised, hk, Option.map_some, hget, hbehind, bind, Except.bind]

/-- Behind older tables the dump is the same but for the numbers. -/
theorem Chained.dumpSymbols_behind : (f.behind old).dumpSymbols = f.dumpSymbolsFrom old.size := by
  have hnode : ∀ x ∈ f.nodes.toList,
      ((f.behind old).dumpNode ∘ Node.raised old.size) x = f.dumpNodeFrom old.size x := by
    intro x hx
    obtain ⟨id, hid⟩ := Array.mem_iff_getElem?.mp (Array.mem_toList_iff.mp hx)
    exact h.dumpNode_behind old hid
  have hnodes : (f.behind old).nodes.toList = f.nodes.toList.map (Node.raised old.size) :=
    Array.toList_map
  rw [dumpSymbols, dumpSymbolsFrom, hnodes, List.mapM_map, mapM_congr hnode]

end Forest

end Dump

end DecafCheck
