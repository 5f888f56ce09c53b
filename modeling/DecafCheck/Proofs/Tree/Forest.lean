import DecafCheck.Proofs.Tree.Basic
import DecafCheck.Typing.Verdict
import Mathlib.Data.List.Perm.Subperm

namespace DecafCheck

namespace Forest

def tableOf? (f : Forest) (id : NodeId) : Option TableId :=
  (f.node? id).bind Node.table

/-- The same nodes but for their links to parents and tables. -/
structure Alike (f g : Forest) : Prop where
  root : f.root = g.root
  size : f.size = g.size
  kind : ∀ id, f.kindOf? id = g.kindOf? id
  span : ∀ id, f.spanOf id = g.spanOf id

theorem Alike.refl (f : Forest) : f.Alike f :=
  ⟨rfl, rfl, fun _ => rfl, fun _ => rfl⟩

theorem Alike.symm {f g : Forest} (a : f.Alike g) : g.Alike f :=
  ⟨a.root.symm, a.size.symm, fun id => (a.kind id).symm, fun id => (a.span id).symm⟩

theorem Alike.trans {f g h : Forest} (a : f.Alike g) (b : g.Alike h) : f.Alike h :=
  ⟨a.root.trans b.root, a.size.trans b.size, fun id => (a.kind id).trans (b.kind id),
    fun id => (a.span id).trans (b.span id)⟩

/-- The forest with one node changed. -/
def alter (f : Forest) (id : NodeId) (change : Node → Node) : Forest :=
  { f with nodes := f.nodes.modify id change }

section Alter

variable {β : Type} (f : Forest) (id j : NodeId) {change : Node → Node}

theorem size_alter : (f.alter id change).size = f.size := by
  simp [alter, size]

theorem node?_alter :
    (f.alter id change).node? j = (f.node? j).map fun n => if id = j then change n else n := by
  simp only [alter, node?, Array.getElem?_modify]
  split <;> simp

/-- What the change leaves alone reads the same everywhere. -/
theorem map_node?_alter {read : Node → β} (h : ∀ n, read (change n) = read n) :
    ((f.alter id change).node? j).map read = (f.node? j).map read := by
  rw [node?_alter, Option.map_map]
  congr 1
  funext n
  rw [Function.comp_apply, apply_ite read, h n, ite_self]

theorem bind_node?_alter {read : Node → Option β} (h : ∀ n, read (change n) = read n) :
    ((f.alter id change).node? j).bind read = (f.node? j).bind read := by
  rw [node?_alter, Option.bind_map]
  congr 1
  funext n
  rw [Function.comp_apply, apply_ite read, h n, ite_self]

/-- What the change sets reads as set at its node and as before elsewhere. -/
theorem bind_node?_alter_set {read : Node → Option β} {value : Option β}
    (h : ∀ n, read (change n) = value) :
    ((f.alter id change).node? j).bind read =
      if id = j ∧ j < f.size then value else (f.node? j).bind read := by
  rw [node?_alter]
  by_cases hj : j < f.size
  · have hn : f.node? j = some f.nodes[j] := Array.getElem?_eq_getElem hj
    simp only [hn, Option.map_some, Option.bind_some, hj, and_true, apply_ite read, h]
  · have hn : f.node? j = none := Array.getElem?_eq_none (Nat.le_of_not_lt hj)
    simp [hn, hj]

theorem alike_alter (hk : ∀ n, (change n).kind = n.kind) (hs : ∀ n, (change n).span = n.span) :
    (f.alter id change).Alike f where
  root := rfl
  size := f.size_alter id
  kind j := f.map_node?_alter id j hk
  span j := congrArg (Option.getD · _) (f.map_node?_alter id j hs)

end Alter

@[simp] theorem size_setParent (f : Forest) (p : Option NodeId) (id : NodeId) :
    (f.setParent p id).size = f.size :=
  f.size_alter id

@[simp] theorem size_attach (f : Forest) (id : NodeId) (k : TableId) :
    (f.attach id k).size = f.size :=
  f.size_alter id

theorem alike_setParent (f : Forest) (p : Option NodeId) (id : NodeId) :
    (f.setParent p id).Alike f :=
  f.alike_alter id (fun _ => rfl) (fun _ => rfl)

theorem alike_attach (f : Forest) (id : NodeId) (k : TableId) : (f.attach id k).Alike f :=
  f.alike_alter id (fun _ => rfl) (fun _ => rfl)

theorem parentOf?_setParent (f : Forest) (p : Option NodeId) (id j : NodeId) :
    (f.setParent p id).parentOf? j = if id = j ∧ j < f.size then p else f.parentOf? j :=
  f.bind_node?_alter_set id j fun _ => rfl

theorem parentOf?_attach (f : Forest) (id j : NodeId) (k : TableId) :
    (f.attach id k).parentOf? j = f.parentOf? j :=
  f.bind_node?_alter id j fun _ => rfl

theorem tableOf?_attach (f : Forest) (id j : NodeId) (k : TableId) :
    (f.attach id k).tableOf? j = if id = j ∧ j < f.size then some k else f.tableOf? j :=
  f.bind_node?_alter_set id j fun _ => rfl

theorem tableOf?_setParent (f : Forest) (p : Option NodeId) (id j : NodeId) :
    (f.setParent p id).tableOf? j = f.tableOf? j :=
  f.bind_node?_alter id j fun _ => rfl

/-- The forest consists of the nodes of the tree. -/
structure Carries (f : Forest) (t : Tree) : Prop where
  root : f.root = some t.id
  kind : ∀ x ∈ t.subtrees, f.kindOf? x.id = some x.kind
  span : ∀ x ∈ t.subtrees, f.spanOf x.id = x.span
  listed : t.Listed
  distinct : t.ids.Nodup
  all : ∀ id < f.size, id ∈ t.ids

theorem Carries.of_alike {f g : Forest} {t : Tree} (a : f.Alike g) (h : g.Carries t) :
    f.Carries t where
  root := a.root.trans h.root
  kind x hx := (a.kind x.id).trans (h.kind x hx)
  span x hx := (a.span x.id).trans (h.span x hx)
  listed := h.listed
  distinct := h.distinct
  all id hid := h.all id (a.size ▸ hid)

section Carries

variable {f : Forest} {t : Tree} (h : f.Carries t)

include h

theorem Carries.node {x : Tree} (hx : x ∈ t.subtrees) :
    ∃ n, f.node? x.id = some n ∧ n.kind = x.kind ∧ n.span = x.span := by
  obtain ⟨n, hn, hk⟩ := Option.map_eq_some_iff.mp (h.kind x hx)
  refine ⟨n, hn, hk, ?_⟩
  have hs := h.span x hx
  simpa [spanOf, hn] using hs

theorem Carries.lt_size {x : Tree} (hx : x ∈ t.subtrees) : x.id < f.size := by
  obtain ⟨n, hn, -⟩ := h.node hx
  exact (Array.getElem?_eq_some_iff.mp hn).1

theorem Carries.length_le_size : t.subtrees.length ≤ f.size := by
  have hs : t.ids ⊆ List.range f.size := by
    intro id hid
    obtain ⟨x, hx, rfl⟩ := List.mem_map.mp hid
    exact List.mem_range.mpr (h.lt_size hx)
  have hl := (List.subperm_of_subset h.distinct hs).length_le
  simpa [Tree.ids] using hl

theorem Carries.tree_of_lt {id : NodeId} (hid : id < f.size) : ∃ x ∈ t.subtrees, x.id = id :=
  List.mem_map.mp (h.all id hid)

theorem Carries.tourWithin_eq {x : Tree} (hx : x ∈ t.subtrees) {depth : Nat}
    (hd : x.subtrees.length ≤ depth) : f.tourWithin depth x.id = x.steps := by
  induction depth generalizing x with
  | zero => exact absurd x.length_subtrees_pos (by omega)
  | succ depth ih =>
    obtain ⟨n, hn, hk, hs⟩ := h.node hx
    have hc : ∀ c ∈ x.children, f.tourWithin depth c.id = c.steps := by
      intro c hc
      have := Tree.length_subtrees_child hc
      exact ih (Tree.subtrees_trans hx (Tree.child_mem_subtrees hc)) (by omega)
    rw [tourWithin, hn]
    simp only [hk, hs, h.listed x hx, List.flatMap_map]
    cases x with
    | node id k s cs =>
      rw [Tree.steps, Tree.stepsAll_eq]
      simp only [Tree.id_node, Tree.kind_node, Tree.span_node, Tree.children_node] at hc ⊢
      rw [List.flatMap_congr hc]

theorem Carries.tour_eq : f.tour t.id = t.steps :=
  h.tourWithin_eq t.self_mem_subtrees (Nat.le_succ_of_le h.length_le_size)

end Carries

theorem mem_links {f : Forest} {c p : NodeId} :
    (c, p) ∈ f.links ↔ ∃ k, f.kindOf? p = some k ∧ c ∈ k.children := by
  simp only [links, List.mem_flatMap, List.mem_map, Prod.mk.injEq, Prod.exists,
    List.mem_zipIdx_iff_getElem?, Array.getElem?_toList, kindOf?, node?, Option.map_eq_some_iff]
  constructor
  · rintro ⟨n, i, hn, d, hd, rfl, rfl⟩
    exact ⟨n.kind, ⟨n, hn, rfl⟩, hd⟩
  · rintro ⟨k, ⟨n, hn, rfl⟩, hc⟩
    exact ⟨n, p, hn, c, hc, rfl, rfl⟩

/-- Points children at parents, one link after the other. -/
def setParents (f : Forest) (links : List (NodeId × NodeId)) : Forest :=
  links.foldl (fun f (child, parent) => f.setParent (some parent) child) f

theorem alike_setParents (f : Forest) (links : List (NodeId × NodeId)) :
    (f.setParents links).Alike f := by
  induction links generalizing f with
  | nil => exact Alike.refl f
  | cons l links ih => exact (ih _).trans (alike_setParent f _ _)

theorem tables_setParents (f : Forest) (links : List (NodeId × NodeId)) :
    (f.setParents links).tables = f.tables := by
  induction links generalizing f with
  | nil => rfl
  | cons l links ih => exact ih _

theorem tableOf?_setParents (f : Forest) (links : List (NodeId × NodeId)) (id : NodeId) :
    (f.setParents links).tableOf? id = f.tableOf? id := by
  induction links generalizing f with
  | nil => rfl
  | cons l links ih => exact (ih _).trans (tableOf?_setParent f _ _ _)

theorem parentOf?_setParents_of_not_mem (f : Forest) {links : List (NodeId × NodeId)} {c : NodeId}
    (hc : ∀ q, (c, q) ∉ links) : (f.setParents links).parentOf? c = f.parentOf? c := by
  induction links generalizing f with
  | nil => rfl
  | cons l links ih =>
    obtain ⟨d, q⟩ := l
    have hd : d ≠ c := fun h => hc q (h ▸ List.mem_cons_self)
    refine (ih _ fun q hq => hc q (List.mem_cons_of_mem _ hq)).trans ?_
    simp [parentOf?_setParent, hd]

/-- A node that one node alone lists ends up below that node. -/
theorem parentOf?_setParents (f : Forest) {links : List (NodeId × NodeId)} {c p : NodeId}
    (hc : c < f.size) (hp : (c, p) ∈ links) (hu : ∀ q, (c, q) ∈ links → q = p) :
    (f.setParents links).parentOf? c = some p := by
  induction links generalizing f with
  | nil => exact absurd hp List.not_mem_nil
  | cons l links ih =>
    by_cases hr : (c, p) ∈ links
    · exact ih _ (by simpa using hc) hr fun q hq => hu q (List.mem_cons_of_mem _ hq)
    · obtain rfl := (List.mem_cons.mp hp).resolve_right hr
      have hn : ∀ q, (c, q) ∉ links := by
        intro q hq
        exact hr (hu q (List.mem_cons_of_mem _ hq) ▸ hq)
      refine (parentOf?_setParents_of_not_mem _ hn).trans ?_
      simp [parentOf?_setParent, hc]

/-- Every node points at the one that lists it. -/
def Linked (f : Forest) (t : Tree) : Prop :=
  ∀ {above : List Tree} {x : Tree}, t.Path above x → f.parentOf? x.id = above.head?.map Tree.id

theorem linked_eq {f : Forest} {r : NodeId} (hr : f.root = some r) :
    f.linked = (f.setParents f.links).setParent none r := by
  have hroot : (f.setParents f.links).root = some r := (alike_setParents f _).root.trans hr
  rw [linked]
  dsimp only
  split
  · next root h =>
    obtain rfl := Option.some.inj (hroot.symm.trans h)
    rfl
  · next h => cases hroot.symm.trans h

section Linking

variable {f : Forest} {t : Tree} (h : f.Carries t)

include h

theorem Carries.linked_alike : f.linked.Alike f := by
  rw [linked_eq h.root]
  exact (alike_setParent _ _ _).trans (alike_setParents f _)

theorem Carries.tables_linked : f.linked.tables = f.tables := by
  rw [linked_eq h.root]
  exact tables_setParents f _

theorem Carries.tableOf?_linked (id : NodeId) : f.linked.tableOf? id = f.tableOf? id := by
  rw [linked_eq h.root, tableOf?_setParent, tableOf?_setParents]

theorem Carries.mem_links_iff {c p : NodeId} :
    (c, p) ∈ f.links ↔ ∃ x ∈ t.subtrees, x.id = p ∧ ∃ d ∈ x.children, d.id = c := by
  rw [mem_links]
  constructor
  · rintro ⟨k, hk, hc⟩
    have hp : p < f.size := by
      obtain ⟨n, hn, -⟩ := Option.map_eq_some_iff.mp hk
      exact (Array.getElem?_eq_some_iff.mp hn).1
    obtain ⟨x, hx, rfl⟩ := h.tree_of_lt hp
    obtain rfl : x.kind = k := Option.some.inj ((h.kind x hx).symm.trans hk)
    rw [h.listed x hx] at hc
    exact ⟨x, hx, rfl, List.mem_map.mp hc⟩
  · rintro ⟨x, hx, rfl, d, hd, rfl⟩
    refine ⟨x.kind, h.kind x hx, ?_⟩
    rw [h.listed x hx]
    exact List.mem_map_of_mem hd

theorem Carries.linked : f.linked.Linked t := by
  intro above x hp
  rw [linked_eq h.root, parentOf?_setParent]
  have hsize : (f.setParents f.links).size = f.size := (alike_setParents f _).size
  cases hp with
  | root => simp [hsize, h.lt_size t.self_mem_subtrees]
  | @child above y _ hy hx =>
    have hne : ¬ (t.id = x.id ∧ x.id < (f.setParents f.links).size) :=
      fun he => Tree.child_id_ne_root h.distinct hy.mem hx he.1.symm
    rw [if_neg hne]
    apply parentOf?_setParents
    · exact h.lt_size (Tree.subtrees_trans hy.mem (Tree.child_mem_subtrees hx))
    · exact h.mem_links_iff.mpr ⟨y, hy.mem, rfl, x, hx, rfl⟩
    · intro q hq
      obtain ⟨z, hz, rfl, d, hd, hdx⟩ := h.mem_links_iff.mp hq
      rw [Tree.parent_unique h.distinct hz hy.mem hd hx hdx]

/-- All numbers that are listed belong to nodes. -/
theorem Carries.link_eq : f.link = .ok f.linked := by
  have hn : (f.links.map Prod.fst ++ f.root.toList).find? (fun id => f.size ≤ id) = none := by
    rw [List.find?_eq_none]
    intro id hid
    rw [List.mem_append, h.root] at hid
    rcases hid with hid | hid
    · obtain ⟨⟨c, p⟩, hl, rfl⟩ := List.mem_map.mp hid
      obtain ⟨x, hx, -, d, hd, rfl⟩ := h.mem_links_iff.mp hl
      have := h.lt_size (Tree.subtrees_trans hx (Tree.child_mem_subtrees hd))
      simpa using this
    · obtain rfl := List.mem_singleton.mp hid
      simpa using h.lt_size t.self_mem_subtrees
  rw [link, hn]

end Linking

section Upwards

variable {f : Forest} {t : Tree} (h : f.Carries t) (l : f.Linked t)

include h l

theorem nearestTableWithin_eq {steps : Nat} {above : List Tree} {x : Tree} (hp : t.Path above x)
    (hs : above.length < steps) :
    f.nearestTableWithin steps x.id = (x :: above).findSome? fun y => f.tableOf? y.id := by
  induction steps generalizing above x with
  | zero => omega
  | succ steps ih =>
    obtain ⟨n, hn, -⟩ := h.node hp.mem
    have hpar := l hp
    have ht : f.tableOf? x.id = n.table := by simp [tableOf?, hn]
    simp only [parentOf?, hn, Option.bind_some] at hpar
    rw [nearestTableWithin, List.findSome?_cons, ht]
    simp only [hn, Option.bind_eq_bind, Option.bind_some]
    cases htab : n.table with
    | some k => rfl
    | none =>
      rw [hpar]
      cases hp with
      | root => rfl
      | child hy hx => exact ih hy (by simpa using hs)

/-- The table of a node is that of the innermost tree around it which has one. -/
theorem nearestTable_eq {above : List Tree} {x : Tree} (hp : t.Path above x) :
    f.nearestTable x.id = (x :: above).findSome? fun y => f.tableOf? y.id := by
  apply nearestTableWithin_eq h l hp
  have hl := hp.length
  have hx := x.length_subtrees_pos
  have := h.length_le_size
  omega

end Upwards

end Forest

end DecafCheck
