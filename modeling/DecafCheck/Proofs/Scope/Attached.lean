import DecafCheck.Proofs.Scope.Build

namespace DecafCheck

namespace Tree

/-- The tables of trees are those of one tree after the other, numbered on. -/
structure Threads (made : Nat → Tree → List (NodeId × Table))
    (all : Nat → List Tree → List (NodeId × Table)) :
    Prop where
  nil : ∀ base, all base [] = []
  cons : ∀ base t ts, all base (t :: ts) = made base t ++ all (base + (made base t).length) ts

theorem threads_scopes (policy : Policy) (outer : Nat) :
    Threads (fun base => scopes policy base outer) (fun base => scopesAll policy base outer) :=
  ⟨fun _ => rfl, fun _ _ _ => rfl⟩

theorem Threads.perm {made : Nat → Tree → List (NodeId × Table)}
    {all : Nat → List Tree → List (NodeId × Table)} (h : Threads made all) {ts : List Tree}
    (ih : ∀ t ∈ ts, ∀ base, ((made base t).map Prod.fst).Perm
      ((t.subtrees.filter fun x => x.kind.opensScope).map Tree.id)) (base : Nat) :
    ((all base ts).map Prod.fst).Perm
      (((ts.flatMap subtrees).filter fun x => x.kind.opensScope).map Tree.id) := by
  induction ts generalizing base with
  | nil => simp [h.nil]
  | cons t ts ihs =>
    have hr := ihs (fun u hu => ih u (List.mem_cons_of_mem t hu)) (base + (made base t).length)
    simp only [h.cons, List.map_append, List.flatMap_cons, List.filter_append]
    exact (ih t List.mem_cons_self base).append hr

/-- Exactly the nodes of scopes get tables. -/
theorem scopes_perm (policy : Policy) (base outer : Nat) (t : Tree) :
    ((t.scopes policy base outer).map Prod.fst).Perm
      ((t.subtrees.filter fun x => x.kind.opensScope).map Tree.id) := by
  induction t generalizing base outer with
  | node id kind span cs ih =>
    have hall : ∀ base outer, ((scopesAll policy base outer cs).map Prod.fst).Perm
        (((cs.flatMap subtrees).filter fun x => x.kind.opensScope).map Tree.id) :=
      fun base outer => (threads_scopes policy outer).perm
        (fun c hc base => ih c hc base outer) base
    rw [scopes, subtrees_node]
    by_cases hk : kind.opensScope = true
    · simp only [hk, ↓reduceIte, List.map_cons, List.filter_append, List.map_append,
        List.filter_cons, kind_node, List.filter_nil, id_node, List.map_nil]
      exact ((hall _ _).cons id).trans (List.perm_append_singleton id _).symm
    · simpa [hk] using hall base outer

/-- The nodes of scopes in a program's tree, in the order they are entered, with their tables. -/
def tables (policy : Policy) (t : Tree) : List (NodeId × Table) :=
  (t.id, ⟨firsts (t.symbols policy .global), none⟩) :: scopesAll policy 1 0 t.children

theorem tables_perm {policy : Policy} {t : Tree} (hk : t.kind.opensScope = true) :
    ((t.tables policy).map Prod.fst).Perm
      ((t.subtrees.filter fun x => x.kind.opensScope).map Tree.id) := by
  have hall : ((scopesAll policy 1 0 t.children).map Prod.fst).Perm
      (((t.children.flatMap subtrees).filter fun x => x.kind.opensScope).map Tree.id) :=
    (threads_scopes policy 0).perm (fun c _ base => c.scopes_perm policy base 0) 1
  rw [subtrees_eq t, tables]
  simp only [List.map_cons, List.filter_append, List.map_append, List.filter_cons, hk, ↓reduceIte,
    List.filter_nil, List.map_nil]
  exact (hall.cons t.id).trans (List.perm_append_singleton t.id _).symm

theorem mem_tables {policy : Policy} {t : Tree} (hk : t.kind.opensScope = true) {id : NodeId} :
    id ∈ (t.tables policy).map Prod.fst ↔
      ∃ x ∈ t.subtrees, x.kind.opensScope = true ∧ x.id = id := by
  rw [(tables_perm hk).mem_iff]
  simp [and_assoc]

theorem nodup_tables {policy : Policy} {t : Tree} (hk : t.kind.opensScope = true)
    (distinct : t.ids.Nodup) :
    ((t.tables policy).map Prod.fst).Nodup :=
  (tables_perm hk).nodup_iff.mpr (distinct.sublist (List.filter_sublist.map Tree.id))

/-- Where the variables of a scope are stored, by the scopes around it. -/
def storageIn (outer : Scopes) : Storage :=
  if outer = [] then .global else .frame

/-- The scopes that a way up through the tree meets. -/
def around (policy : Policy) : List Tree → Scopes
  | [] => []
  | x :: above =>
    if x.kind.opensScope then x.symbols policy (storageIn (around policy above)) ::
      around policy above
    else around policy above

theorem around_plain {policy : Policy} {x : Tree} {above : List Tree}
    (hk : x.kind.opensScope = false) :
    around policy (x :: above) = around policy above := by
  simp [around, hk]

theorem around_scope {policy : Policy} {x : Tree} {above : List Tree}
    (hk : x.kind.opensScope = true) :
    around policy (x :: above) = x.symbols policy (storageIn (around policy above)) ::
      around policy above := by
  simp [around, hk]

/-- There is a scope around everything. -/
theorem around_ne_nil {policy : Policy} {t : Tree} (ht : t.kind.opensScope = true)
    {above : List Tree} {x : Tree} (hp : t.Path above x) : around policy (x :: above) ≠ [] := by
  induction hp with
  | root => simp [around, ht]
  | @child above y c _ _ ih =>
    rw [around]
    split
    · exact List.cons_ne_nil _ _
    · exact ih

end Tree

namespace Forest

theorem alike_attachAll (f : Forest) (base : Nat) (ids : List NodeId) :
    (f.attachAll base ids).Alike f := by
  induction ids generalizing f base with
  | nil => exact Alike.refl f
  | cons id ids ih => exact (ih _ _).trans (alike_attach f id base)

theorem parentOf?_attachAll (f : Forest) (base : Nat) (ids : List NodeId) (j : NodeId) :
    (f.attachAll base ids).parentOf? j = f.parentOf? j := by
  induction ids generalizing f base with
  | nil => rfl
  | cons id ids ih => exact (ih _ _).trans (parentOf?_attach f id j base)

theorem tableOf?_attachAll_of_not_mem (f : Forest) (base : Nat) {ids : List NodeId} {j : NodeId}
    (hj : j ∉ ids) :
    (f.attachAll base ids).tableOf? j = f.tableOf? j := by
  induction ids generalizing f base with
  | nil => rfl
  | cons id ids ih =>
    have hne : id ≠ j := fun h => hj (h ▸ List.mem_cons_self)
    refine (ih _ _ fun h => hj (List.mem_cons_of_mem _ h)).trans ?_
    simp [tableOf?_attach, hne]

/-- The tables go to the nodes in order. -/
theorem tableOf?_attachAll (f : Forest) (base : Nat) {ids : List NodeId} {i : Nat} {j : NodeId}
    (hn : ids.Nodup) (hi : ids[i]? = some j) (hj : j < f.size) :
    (f.attachAll base ids).tableOf? j = some (base + i) := by
  induction ids generalizing f base i with
  | nil => simp at hi
  | cons id ids ih =>
    obtain ⟨hid, hn⟩ := List.nodup_cons.mp hn
    cases i with
    | zero =>
      obtain rfl : id = j := by simpa using hi
      refine (tableOf?_attachAll_of_not_mem _ _ hid).trans ?_
      simp [tableOf?_attach, hj]
    | succ i =>
      have hr := ih (f.attach id base) (base + 1) hn hi (by simpa using hj)
      rw [attachAll, hr]
      congr 1
      omega

/-- The tables of the list are there, numbered from `base` on, and their nodes have them. -/
def Holds (f : Forest) (base : Nat) (made : List (NodeId × Table)) : Prop :=
  ∀ i p, made[i]? = some p → f.tableOf? p.1 = some (base + i) ∧
    f.tables.tables[base + i]? = some p.2

theorem Holds.head {f : Forest} {base : Nat} {id : NodeId} {table : Table}
    {made : List (NodeId × Table)} (h : f.Holds base ((id, table) :: made)) :
    f.tableOf? id = some base ∧ f.tables.tables[base]? = some table :=
  h 0 (id, table) rfl

theorem Holds.left {f : Forest} {base : Nat} {a b : List (NodeId × Table)}
    (h : f.Holds base (a ++ b)) :
    f.Holds base a := by
  intro i p hp
  have hi : i < a.length := (List.getElem?_eq_some_iff.mp hp).1
  exact h i p (by rw [List.getElem?_append_left hi, hp])

theorem Holds.right {f : Forest} {base : Nat} {a b : List (NodeId × Table)}
    (h : f.Holds base (a ++ b)) :
    f.Holds (base + a.length) b := by
  intro i p hp
  have hi : (a ++ b)[a.length + i]? = some p := by
    rw [List.getElem?_append_right (Nat.le_add_right _ _), Nat.add_sub_cancel_left, hp]
  have hb := h (a.length + i) p hi
  rwa [← Nat.add_assoc] at hb

/-- Every node of a scope in the tree has a table of its own whose parent is the table around it,
and no other node has one. -/
inductive Scoped (policy : Policy) (f : Forest) : Nat → Tree → Prop
  | scope {outer k : Nat} {x : Tree} : x.kind.opensScope = true →
      f.tableOf? x.id = some k → outer < k →
      f.tables.tables[k]? = some ⟨firsts (x.symbols policy .frame), some outer⟩ →
      (∀ c ∈ x.children, Scoped policy f k c) → Scoped policy f outer x
  | plain {outer : Nat} {x : Tree} : x.kind.opensScope = false → f.tableOf? x.id = none →
      (∀ c ∈ x.children, Scoped policy f outer c) → Scoped policy f outer x

/-- The tables of trees are there if those of each tree are. -/
theorem Holds.threads {f : Forest} {made : Nat → Tree → List (NodeId × Table)}
    {all : Nat → List Tree → List (NodeId × Table)} (ht : Tree.Threads made all)
    {ts : List Tree} {base : Nat} (h : f.Holds base (all base ts)) :
    ∀ t ∈ ts, ∃ b, base ≤ b ∧ f.Holds b (made b t) := by
  induction ts generalizing base with
  | nil => simp
  | cons t ts ih =>
    rw [ht.cons] at h
    intro u hu
    rcases List.mem_cons.mp hu with rfl | hu
    · exact ⟨base, Nat.le_refl base, h.left⟩
    · obtain ⟨b, hb, hu⟩ := ih h.right u hu
      exact ⟨b, Nat.le_of_add_right_le hb, hu⟩

theorem scoped_of_holds {policy : Policy} {f : Forest} {t : Tree} {base outer : Nat}
    (hplain : ∀ x ∈ t.subtrees, x.kind.opensScope = false → f.tableOf? x.id = none)
    (hb : outer < base) (h : f.Holds base (t.scopes policy base outer)) :
    f.Scoped policy outer t := by
  induction t generalizing base outer with
  | node id kind span cs ih =>
    have hcs : ∀ {base outer}, outer < base → f.Holds base (Tree.scopesAll policy base outer cs) →
        ∀ c ∈ cs, f.Scoped policy outer c := by
      intro base outer hb hcs c hc
      obtain ⟨b, hle, hc'⟩ := hcs.threads (Tree.threads_scopes policy outer) c hc
      exact ih c hc (fun x hx => hplain x (Tree.mem_subtrees_of_child hc hx))
        (Nat.lt_of_lt_of_le hb hle) hc'
    rw [Tree.scopes] at h
    split at h
    · next hk =>
      have hr : f.Holds (base + 1) (Tree.scopesAll policy (base + 1) base cs) := h.right (a := [_])
      exact .scope hk h.head.1 hb h.head.2 (hcs (Nat.lt_succ_self base) hr)
    · next hk =>
      have hk : kind.opensScope = false := by simpa using hk
      exact .plain hk (hplain _ (Tree.self_mem_subtrees _) hk) (hcs hb h)

/-- Gives nodes the tables of a list. -/
def withTables (f : Forest) (made : List (NodeId × Table)) : Forest :=
  { f.attachAll 0 (made.map Prod.fst) with tables := ⟨(made.map Prod.snd).toArray⟩ }

theorem alike_withTables (f : Forest) (made : List (NodeId × Table)) :
    (f.withTables made).Alike f :=
  let a := f.alike_attachAll 0 (made.map Prod.fst)
  ⟨a.root, a.size, a.kind, a.span⟩

theorem parentOf?_withTables (f : Forest) (made : List (NodeId × Table)) (id : NodeId) :
    (f.withTables made).parentOf? id = f.parentOf? id :=
  f.parentOf?_attachAll 0 (made.map Prod.fst) id

/-- The tables of a list are where the list says. -/
theorem holds_withTables {f : Forest} {made : List (NodeId × Table)}
    (hn : (made.map Prod.fst).Nodup) (hlt : ∀ id ∈ made.map Prod.fst, id < f.size) :
    (f.withTables made).Holds 0 made := by
  intro i p hp
  have hi : (made.map Prod.fst)[i]? = some p.1 := by simp [hp]
  refine ⟨tableOf?_attachAll f 0 hn hi (hlt _ (List.mem_of_getElem? hi)), ?_⟩
  simp [withTables, hp]

/-- The walk through a program's tree makes a table for every scope, behind those that are there
already. -/
theorem Carries.follow_tour {f : Forest} {t : Tree} (h : f.Carries t) (policy : Policy)
    {vars functions : List NodeId} (hk : t.kind = .program vars functions) :
    follow (Scoping.visit policy) { forest := f } (f.tour t.id) =
      (Scoping.adding { forest := f }
        ((t.id, ⟨firsts (t.symbols policy .global), none⟩)
          :: Tree.scopesAll policy (f.tables.size + 1) f.tables.size t.children)
        (Tree.scopeLogAll policy .global [] t.children), none) := by
  rw [h.tour_eq]
  obtain ⟨id, kind, span, cs⟩ := t
  obtain rfl : kind = .program vars functions := hk
  have hw : ∀ c ∈ cs, Scoping.Walks policy c :=
    fun c hc => Scoping.walks policy (h.listed.child hc)
  obtain ⟨s', s'', hs', hs'', hclose⟩ := Scoping.follow_scope hw { forest := f } id []
  cases hs'
  have he : Scoping.enter policy { forest := f } id span (.program vars functions) = .ok _ := rfl
  have hopens : (Kind.program vars functions).opensScope = true := rfl
  rw [Scoping.follow_node he hs'', if_pos hopens, hclose]
  rfl

theorem Carries.buildScopes_eq {f : Forest} {t : Tree} (h : f.Carries t) (hf : f.tables = {})
    (policy : Policy) {vars functions : List NodeId} (hk : t.kind = .program vars functions) :
    f.buildScopes policy =
      ⟨f.withTables (t.tables policy), Tree.scopeLogAll policy .global [] t.children, none⟩ := by
  simp [buildScopes, h.root, h.follow_tour policy hk, Scoping.adding, withTables, Tree.tables, hf,
    Tables.append, Tables.size]

/-- Scopes have been built: the nodes of scopes have the tables of the tree, and other nodes have
none. -/
structure Built (policy : Policy) (f : Forest) (t : Tree) : Prop where
  carries : f.Carries t
  linked : f.Linked t
  scope : t.kind.opensScope = true
  holds : f.Holds 0 (t.tables policy)
  plain : ∀ x ∈ t.subtrees, x.kind.opensScope = false → f.tableOf? x.id = none
  size : f.tables.size = (t.tables policy).length

theorem Carries.built {f : Forest} {t : Tree} (h : f.Carries t) (l : f.Linked t)
    (hf : ∀ id, f.tableOf? id = none) (policy : Policy) (hk : t.kind.opensScope = true) :
    (f.withTables (t.tables policy)).Built policy t where
  carries := h.of_alike (f.alike_withTables _)
  linked hp := (f.parentOf?_withTables _ _).trans (l hp)
  scope := hk
  holds := by
    refine holds_withTables (Tree.nodup_tables hk h.distinct) fun id hid => ?_
    obtain ⟨x, hx, -, rfl⟩ := (Tree.mem_tables hk).mp hid
    exact h.lt_size hx
  plain x hx hn := by
    have hm : x.id ∉ (t.tables policy).map Prod.fst := by
      intro hm
      obtain ⟨y, hy, hyk, hid⟩ := (Tree.mem_tables hk).mp hm
      obtain rfl := Tree.eq_of_id_eq h.distinct hy hx hid
      rw [hyk] at hn
      exact Bool.noConfusion hn
    exact (tableOf?_attachAll_of_not_mem f 0 hm).trans (hf x.id)
  size := by simp [withTables, Tables.size]

/-- The tables at a place: the closest one is `k`, and the scopes around the place are in the chain
from there. -/
structure Seated (policy : Policy) (f : Forest) (above : List Tree) (x : Tree) (k : Nat) :
    Prop where
  nearest : ((x :: above).findSome? fun y => f.tableOf? y.id) = some k
  chain : f.tables.Chain k (Tree.around policy (x :: above))
  own : x.kind.opensScope = true → f.tableOf? x.id = some k ∧ f.tables.tables[k]? =
    some ⟨firsts (x.symbols policy (Tree.storageIn (Tree.around policy above))),
      above.findSome? fun y => f.tableOf? y.id⟩
  below : ∀ c ∈ x.children, f.Scoped policy k c

theorem Seated.around_ne_nil {policy : Policy} {f : Forest} {above : List Tree} {x : Tree} {k : Nat}
    (hs : f.Seated policy above x k) : Tree.around policy (x :: above) ≠ [] := by
  intro he
  have hch := hs.chain
  rw [he] at hch
  cases hch

/-- The table around a scope's own is the closest one further up. -/
theorem Seated.tableAround?_eq {policy : Policy} {f : Forest} {above : List Tree}
    {x : Tree} {k : Nat} (hs : f.Seated policy above x k) (hk : x.kind.opensScope = true) :
    f.tableAround? x.id = above.findSome? fun y => f.tableOf? y.id := by
  obtain ⟨hown, htable⟩ := hs.own hk
  obtain ⟨n, hn, hnt⟩ := Option.bind_eq_some_iff.mp hown
  simp [tableAround?, hn, hnt, Tables.get, htable, Except.toOption]

theorem Seated.child {policy : Policy} {f : Forest} {above : List Tree} {x c : Tree} {k : Nat}
    (hs : f.Seated policy above x k) (hc : c ∈ x.children) :
    ∃ j, f.Seated policy (x :: above) c j := by
  have hne := hs.around_ne_nil
  cases hs.below c hc with
  | @scope _ j _ hk ht hlt htable hcs =>
    refine ⟨j, ?_, ?_, fun _ => ⟨ht, ?_⟩, hcs⟩
    · simp [ht]
    · rw [Tree.around, if_pos hk, Tree.storageIn, if_neg hne]
      exact .inside htable hlt hs.chain
    · rw [Tree.storageIn, if_neg hne, hs.nearest]
      exact htable
  | plain hk ht hcs =>
    refine ⟨k, ?_, ?_, fun hk' => ?_, hcs⟩
    · rw [List.findSome?_cons, ht]
      exact hs.nearest
    · rw [Tree.around, hk]
      exact hs.chain
    · rw [hk] at hk'
      exact Bool.noConfusion hk'

namespace Built

variable {policy : Policy} {f : Forest} {t : Tree} (h : f.Built policy t)

include h

theorem seated_root : f.Seated policy [] t 0 := by
  have hh := h.holds.head
  have hr : f.Holds 1 (Tree.scopesAll policy 1 0 t.children) := h.holds.right (a := [_])
  refine ⟨?_, ?_, fun _ => hh, ?_⟩
  · simp [hh.1]
  · simp only [Tree.around, h.scope, ↓reduceIte]
    exact .outermost hh.2
  · intro c hc
    obtain ⟨b, hb, hs⟩ := hr.threads (Tree.threads_scopes policy 0) c hc
    exact scoped_of_holds (fun x hx => h.plain x (Tree.mem_subtrees_of_child hc hx)) hb hs

theorem seated {above : List Tree} {x : Tree} (hp : t.Path above x) :
    ∃ k, f.Seated policy above x k := by
  induction hp with
  | root => exact ⟨0, h.seated_root⟩
  | child _ hc ih =>
    obtain ⟨k, hs⟩ := ih
    exact hs.child hc

theorem nearestTable_eq {above : List Tree} {x : Tree} (hp : t.Path above x) :
    ∃ k, f.nearestTable x.id = some k ∧ f.tables.Chain k (Tree.around policy (x :: above)) := by
  obtain ⟨k, hs⟩ := h.seated hp
  exact ⟨k, (Forest.nearestTable_eq h.carries h.linked hp).trans hs.nearest, hs.chain⟩

/-- A name means the symbol of the innermost scope around that declares it. -/
theorem resolve_eq {above : List Tree} {x : Tree} (hp : t.Path above x) (name : String) :
    f.resolve x.id name = (Tree.around policy (x :: above)).find? name := by
  obtain ⟨k, hk, hc⟩ := h.nearestTable_eq hp
  simp only [resolve, hk, Option.bind_eq_bind, Option.bind_some, hc.lookup_eq]
  cases (Tree.around policy (x :: above)).find? name <;> rfl

end Built

/-- Every table that a node has is at the inner end of a chain of tables. -/
def Chained (f : Forest) : Prop :=
  ∀ id k, f.tableOf? id = some k → ∃ scopes, f.tables.Chain k scopes

theorem Built.chained {policy : Policy} {f : Forest} {t : Tree} (h : f.Built policy t) :
    f.Chained := by
  intro id k hk
  have hlt : id < f.size := by
    obtain ⟨n, hn, -⟩ := Option.bind_eq_some_iff.mp hk
    exact (Array.getElem?_eq_some_iff.mp hn).1
  obtain ⟨x, hx, rfl⟩ := h.carries.tree_of_lt hlt
  obtain ⟨above, hp⟩ := Tree.exists_path hx
  obtain ⟨j, hs⟩ := h.seated hp
  cases hscope : x.kind.opensScope with
  | false =>
    rw [h.plain x hx hscope] at hk
    cases hk
  | true =>
    rw [(hs.own hscope).1] at hk
    cases hk
    exact ⟨_, hs.chain⟩

end Forest

end DecafCheck
