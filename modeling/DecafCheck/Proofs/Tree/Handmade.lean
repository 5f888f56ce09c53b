import DecafCheck.Proofs.Tree.PostOrder
import Mathlib.Data.Fintype.Card
import Mathlib.Data.Fintype.EquivFin

namespace DecafCheck

namespace Forest

/-- Forests that come from adding nodes and choosing a root. -/
inductive Handmade : Forest → Prop
  | empty : Handmade {}
  | add {f : Forest} (kind : Kind) (span : Span) : Handmade f → Handmade (f.add kind span).1
  | setRoot {f : Forest} (id : NodeId) : Handmade f → Handmade (f.setRoot id)

theorem Handmade.tables_eq {f : Forest} (h : f.Handmade) : f.tables = {} := by
  induction h with
  | empty => rfl
  | add _ _ _ ih => exact ih
  | setRoot _ _ ih => exact ih

theorem Handmade.tableOf?_eq_none {f : Forest} (h : f.Handmade) (id : NodeId) :
    f.tableOf? id = none := by
  induction h with
  | empty => rfl
  | @add f kind span _ ih =>
    rw [tableOf?, node?] at ih ⊢
    simp only [Forest.add, Array.getElem?_push]
    split
    · rfl
    · exact ih
  | setRoot _ _ ih => exact ih

/-- A node that stands further up than another. -/
def Above (f : Forest) (upper id : NodeId) : Prop :=
  ∃ p, f.Below upper p ∧ f.Lists p id

/-- The nodes form a tree under the root. -/
structure IsTree (f : Forest) : Prop where
  root : ∃ id < f.size, f.root = some id ∧ ∀ p, ¬ f.Lists p id
  exist : ∀ p c, f.Lists p c → c < f.size
  listed : ∀ c < f.size, f.root ≠ some c →
    ∃ p < f.size, ∀ q kind, f.kindOf? q = some kind → kind.children.count c = if q = p then 1 else 0
  reachable : ∀ root, f.root = some root → ∀ id < f.size, f.Below root id

theorem Below.trans {f : Forest} {a b c : NodeId} (hab : f.Below a b) (hbc : f.Below b c) :
    f.Below a c := by
  induction hbc with
  | self => exact hab
  | child _ hl ih => exact ih.child hl

theorem Above.trans {f : Forest} {a b c : NodeId} (hab : f.Above a b) (hbc : f.Above b c) :
    f.Above a c := by
  obtain ⟨p, hp, hpb⟩ := hab
  obtain ⟨q, hq, hqc⟩ := hbc
  exact ⟨q, (hp.child hpb).trans hq, hqc⟩

namespace IsTree

variable {f : Forest} (h : f.IsTree)

include h

theorem root_ne {p c : NodeId} (hl : f.Lists p c) : f.root ≠ some c := by
  obtain ⟨root, -, hroot, hnot⟩ := h.root
  intro hc
  obtain rfl := Option.some.inj (hroot.symm.trans hc)
  exact hnot p hl

/-- What is listed at all is listed once, by the one parent. -/
theorem count_children {p c : NodeId} (hl : f.Lists p c) {q : NodeId} {kind : Kind}
    (hq : f.kindOf? q = some kind) : kind.children.count c = if q = p then 1 else 0 := by
  obtain ⟨r, -, hr⟩ := h.listed c (h.exist p c hl) (h.root_ne hl)
  obtain ⟨k, hk, hc⟩ := hl
  have hp : p = r := by
    by_contra hne
    have hcount := hr p k hk
    rw [if_neg hne] at hcount
    exact List.count_eq_zero.mp hcount hc
  rw [hp]
  exact hr q kind hq

theorem parent_unique {p q c : NodeId} (hp : f.Lists p c) (hq : f.Lists q c) : q = p := by
  obtain ⟨kind, hk, hc⟩ := hq
  by_contra hne
  have hcount := h.count_children hp hk
  rw [if_neg hne] at hcount
  exact List.count_eq_zero.mp hcount hc

/-- No way down comes back: a circle through a node goes through its parent too, and none goes
through the root. -/
theorem acyclic {id : NodeId} (hid : id < f.size) : ¬ f.Above id id := by
  obtain ⟨root, -, hroot, hnot⟩ := h.root
  have hb := h.reachable root hroot id hid
  clear hid
  induction hb with
  | self => exact fun ⟨p, _, hl⟩ => hnot p hl
  | @child p c _ hpc ih =>
    rintro ⟨q, hcq, hqc⟩
    obtain rfl := h.parent_unique hpc hqc
    cases hcq with
    | self => exact ih ⟨c, .self, hqc⟩
    | child hcr hrq => exact ih ⟨_, (Below.self.child hpc).trans hcr, hrq⟩

theorem wellFounded : WellFounded fun a b : Fin f.size => f.Above b a := by
  have : IsTrans (Fin f.size) fun a b => f.Above b a := ⟨fun _ _ _ hab hbc => hbc.trans hab⟩
  have : Std.Irrefl fun a b : Fin f.size => f.Above b a := ⟨fun a => h.acyclic a.isLt⟩
  exact Finite.wellFounded_of_trans_of_irrefl _

end IsTree

/-- Every node of the tree is a node of the forest, with the children that the forest lists. -/
def Grows (f : Forest) (t : Tree) : Prop :=
  ∀ x ∈ t.subtrees, f.kindOf? x.id = some x.kind ∧ f.spanOf x.id = x.span ∧
    x.kind.children = x.children.map Tree.id

theorem Grows.node {f : Forest} {id : NodeId} {kind : Kind} {cs : List Tree}
    (hk : f.kindOf? id = some kind) (hl : kind.children = cs.map Tree.id)
    (hcs : ∀ c ∈ cs, f.Grows c) :
    f.Grows (.node id kind (f.spanOf id) cs) := by
  intro x hx
  rw [Tree.subtrees_node, List.mem_append, List.mem_flatMap, List.mem_singleton] at hx
  rcases hx with ⟨c, hc, hx⟩ | rfl
  · exact hcs c hc x hx
  · exact ⟨hk, rfl, hl⟩

theorem Grows.listed {f : Forest} {t : Tree} (hg : f.Grows t) : t.Listed :=
  fun x hx => (hg x hx).2.2

theorem IsTree.exists_grows {f : Forest} (h : f.IsTree) (id : Fin f.size) :
    ∃ t : Tree, t.id = id ∧ f.Grows t := by
  induction id using h.wellFounded.induction with
  | _ id ih =>
    have hn : f.node? id = some f.nodes[id] := Array.getElem?_eq_getElem id.isLt
    have hk : f.kindOf? id = some f.nodes[id].kind := by simp [kindOf?, hn]
    have hchild : ∀ c ∈ f.nodes[id].kind.children, ∃ t : Tree, t.id = c ∧ f.Grows t := by
      intro c hc
      have hl : f.Lists id c := ⟨_, hk, hc⟩
      exact ih ⟨c, h.exist _ _ hl⟩ ⟨id, .self, hl⟩
    choose tree hid hgrows using hchild
    refine ⟨.node id f.nodes[id].kind (f.spanOf id)
      (f.nodes[id].kind.children.pmap tree fun _ hc => hc), rfl, ?_⟩
    apply Grows.node hk
    · rw [List.map_pmap]
      simp [hid]
    · intro t ht
      obtain ⟨c, hc, rfl⟩ := List.mem_pmap.mp ht
      exact hgrows c hc

theorem Grows.mem_ids_of_below {f : Forest} {t : Tree} (hg : f.Grows t) {id : NodeId}
    (hb : f.Below t.id id) :
    id ∈ t.ids := by
  induction hb with
  | self => exact Tree.id_mem_ids t.self_mem_subtrees
  | child _ hl ih =>
    obtain ⟨x, hx, rfl⟩ := List.mem_map.mp ih
    obtain ⟨kind, hk, hc⟩ := hl
    obtain ⟨hxk, -, hxl⟩ := hg x hx
    obtain rfl := Option.some.inj (hxk.symm.trans hk)
    rw [hxl] at hc
    obtain ⟨d, hd, rfl⟩ := List.mem_map.mp hc
    exact Tree.id_mem_ids (Tree.subtrees_trans hx (Tree.child_mem_subtrees hd))

end Forest

/-- A number that one node lists comes as often as that node does. -/
theorem Tree.count_listed {ts : List Tree} {p c : NodeId}
    (h : ∀ x ∈ ts, (x.children.map Tree.id).count c = if x.id = p then 1 else 0) :
    (ts.flatMap fun x => x.children.map Tree.id).count c = (ts.map Tree.id).count p := by
  induction ts with
  | nil => rfl
  | cons t ts ih =>
    rw [List.flatMap_cons, List.count_append, h t List.mem_cons_self,
      ih fun x hx => h x (List.mem_cons_of_mem t hx), List.map_cons, List.count_cons]
    simp only [beq_iff_eq]
    omega

namespace Forest

/-- A node comes into the tree once, because its parent does. -/
theorem IsTree.count_ids {f : Forest} (h : f.IsTree) {t : Tree} (hg : f.Grows t)
    (hr : f.root = some t.id) {id : NodeId} (hb : f.Below t.id id) : t.ids.count id = 1 := by
  induction hb with
  | self =>
    rw [t.ids_perm_listed.count_eq, List.count_cons_self, List.count_eq_zero.mpr]
    intro hm
    obtain ⟨x, hx, hc⟩ := List.mem_flatMap.mp hm
    obtain ⟨hk, -, hl⟩ := hg x hx
    exact h.root_ne ⟨x.kind, hk, hl ▸ hc⟩ hr
  | @child p c _ hl ih =>
    have hne : t.id ≠ c := fun he => h.root_ne hl (he ▸ hr)
    rw [t.ids_perm_listed.count_eq, List.count_cons_of_ne hne, ← ih]
    apply Tree.count_listed
    intro x hx
    rw [← (hg x hx).2.2]
    exact h.count_children hl (hg x hx).1

theorem IsTree.exists_carries {f : Forest} (h : f.IsTree) : ∃ t, f.Carries t := by
  obtain ⟨root, hlt, hroot, -⟩ := h.root
  obtain ⟨t, hid, hg⟩ := h.exists_grows ⟨root, hlt⟩
  obtain rfl : t.id = root := hid
  have hbelow : ∀ id < f.size, f.Below t.id id := h.reachable t.id hroot
  refine ⟨t, hroot, fun x hx => (hg x hx).1, fun x hx => (hg x hx).2.1, hg.listed, ?_,
    fun id hid => hg.mem_ids_of_below (hbelow id hid)⟩
  rw [List.nodup_iff_count_eq_one]
  intro id hid
  obtain ⟨x, hx, rfl⟩ := List.mem_map.mp hid
  obtain ⟨n, hn, -⟩ := Option.map_eq_some_iff.mp (hg x hx).1
  exact h.count_ids hg hroot (hbelow x.id (Array.getElem?_eq_some_iff.mp hn).1)

theorem Carries.isTree {f : Forest} {t : Tree} (h : f.Carries t) : f.IsTree where
  root := ⟨t.id, h.lt_size t.self_mem_subtrees, h.root, fun _ => root_not_listed h h.root⟩
  exist p c hl := by
    obtain ⟨x, hx, -, d, hd, rfl⟩ := h.mem_links_iff.mp (mem_links.mpr hl)
    exact h.lt_size (Tree.subtrees_trans hx (Tree.child_mem_subtrees hd))
  listed c hc hr := by
    obtain ⟨x, hx, rfl⟩ := h.tree_of_lt hc
    obtain ⟨above, hpath⟩ := Tree.exists_path hx
    cases hpath with
    | root => exact absurd h.root hr
    | @child _ y _ hy hx =>
      exact ⟨y.id, h.lt_size hy.mem, fun q kind hq => Forest.count_children h hy.mem hx hq⟩
  reachable root hroot id hid := by
    obtain rfl := Option.some.inj (h.root.symm.trans hroot)
    exact (below_iff h t.self_mem_subtrees).mpr (h.all id hid)

/-- The forests whose nodes form a tree are those that consist of the nodes of one. -/
theorem isTree_iff {f : Forest} : f.IsTree ↔ ∃ t, f.Carries t :=
  ⟨IsTree.exists_carries, fun ⟨_, h⟩ => h.isTree⟩

end Forest

end DecafCheck
