import DecafCheck.Forest.Tour
import Mathlib.Data.List.Nodup
import Mathlib.Data.List.Pairwise

namespace DecafCheck

/-- A node with the trees of its children. -/
inductive Tree
  | node (id : NodeId) (kind : Kind) (span : Span) (children : List Tree)

namespace Tree

def id : Tree → Nat
  | node id _ _ _ => id

def kind : Tree → Kind
  | node _ kind _ _ => kind

def span : Tree → Span
  | node _ _ span _ => span

def children : Tree → List Tree
  | node _ _ _ children => children

@[simp] theorem id_node (id : NodeId) (k : Kind) (s : Span) (cs : List Tree) :
    (node id k s cs).id = id := rfl

@[simp] theorem kind_node (id : NodeId) (k : Kind) (s : Span) (cs : List Tree) :
    (node id k s cs).kind = k := rfl

@[simp] theorem span_node (id : NodeId) (k : Kind) (s : Span) (cs : List Tree) :
    (node id k s cs).span = s := rfl

@[simp] theorem children_node (id : NodeId) (k : Kind) (s : Span) (cs : List Tree) :
    (node id k s cs).children = cs := rfl

/-- Induction with one hypothesis for all children. -/
@[elab_as_elim, induction_eliminator]
theorem induct {motive : Tree → Prop}
    (node : ∀ id kind span children, (∀ c ∈ children, motive c) →
      motive (node id kind span children))
    (t : Tree) : motive t :=
  @Tree.rec motive (fun ts => ∀ c ∈ ts, motive c) node
    (fun _ h => absurd h List.not_mem_nil)
    (fun _ _ ht hts c hc => (List.mem_cons.mp hc).elim (fun h => h ▸ ht) (hts c)) t

mutual

/-- The trees inside a tree, children before their parents. -/
def subtrees : Tree → List Tree
  | node id kind span children => subtreesAll children ++ [node id kind span children]

def subtreesAll : List Tree → List Tree
  | [] => []
  | t :: ts => subtrees t ++ subtreesAll ts

end

theorem subtreesAll_eq (ts : List Tree) : subtreesAll ts = ts.flatMap subtrees := by
  induction ts with
  | nil => rfl
  | cons t ts ih => rw [subtreesAll, ih, List.flatMap_cons]

@[simp] theorem subtrees_node (id : NodeId) (k : Kind) (s : Span) (cs : List Tree) :
    (node id k s cs).subtrees = cs.flatMap subtrees ++ [node id k s cs] := by
  rw [subtrees, subtreesAll_eq]

theorem subtrees_eq (t : Tree) : t.subtrees = t.children.flatMap subtrees ++ [t] := by
  cases t
  simp

theorem self_mem_subtrees (t : Tree) : t ∈ t.subtrees := by
  simp [subtrees_eq t]

theorem mem_subtrees_of_child {t c x : Tree} (hc : c ∈ t.children) (hx : x ∈ c.subtrees) :
    x ∈ t.subtrees := by
  rw [subtrees_eq t, List.mem_append, List.mem_flatMap]
  exact Or.inl ⟨c, hc, hx⟩

theorem child_mem_subtrees {t c : Tree} (hc : c ∈ t.children) : c ∈ t.subtrees :=
  mem_subtrees_of_child hc c.self_mem_subtrees

theorem subtrees_trans {t x y : Tree} (hx : x ∈ t.subtrees) (hy : y ∈ x.subtrees) :
    y ∈ t.subtrees := by
  induction t with
  | node id k s cs ih =>
    rw [subtrees_node, List.mem_append, List.mem_flatMap, List.mem_singleton] at hx
    rcases hx with ⟨c, hc, hx⟩ | rfl
    · exact mem_subtrees_of_child hc (ih c hc hx)
    · exact hy

theorem length_subtrees_pos (t : Tree) : 0 < t.subtrees.length :=
  List.length_pos_of_mem t.self_mem_subtrees

theorem length_subtrees_child {t c : Tree} (hc : c ∈ t.children) :
    c.subtrees.length < t.subtrees.length := by
  obtain ⟨before, after, h⟩ := List.append_of_mem hc
  rw [subtrees_eq t, h, List.flatMap_append, List.flatMap_cons]
  simp only [List.length_append, List.length_singleton]
  omega

/-- Every node lists the numbers of its children. -/
def Listed (t : Tree) : Prop :=
  ∀ x ∈ t.subtrees, x.kind.children = x.children.map Tree.id

theorem Listed.child {t c : Tree} (h : t.Listed) (hc : c ∈ t.children) : c.Listed :=
  fun _ hx => h _ (mem_subtrees_of_child hc hx)

/-- The numbers of the nodes, children before their parents. -/
def ids (t : Tree) : List NodeId :=
  t.subtrees.map Tree.id

theorem ids_eq (t : Tree) : t.ids = t.children.flatMap ids ++ [t.id] := by
  rw [ids, subtrees_eq t, List.map_append, List.map_flatMap]
  rfl

theorem id_mem_ids {t x : Tree} (hx : x ∈ t.subtrees) : x.id ∈ t.ids :=
  List.mem_map_of_mem hx

/-- Every node but the root is listed by its parent, once. -/
theorem ids_perm_listed (t : Tree) :
    t.ids.Perm (t.id :: t.subtrees.flatMap fun x => x.children.map Tree.id) := by
  induction t with
  | node id k s cs ih =>
    have hs : (cs.flatMap ids).Perm
        (cs.map Tree.id ++ (cs.flatMap subtrees).flatMap fun x => x.children.map Tree.id) := by
      induction cs with
      | nil => simp
      | cons c cs ihs =>
        have hc := ih c List.mem_cons_self
        have hr := ihs fun d hd => ih d (List.mem_cons_of_mem c hd)
        simp only [List.flatMap_cons, List.map_cons, List.flatMap_append, List.cons_append]
        refine (hc.append hr).trans ?_
        rw [List.cons_append]
        refine List.Perm.cons _ ?_
        rw [← List.append_assoc, ← List.append_assoc]
        exact List.perm_append_comm.append_right _
    rw [ids_eq, subtrees_node, List.flatMap_append]
    simp only [children_node, id_node, List.flatMap_cons, List.flatMap_nil, List.append_nil]
    refine List.perm_append_singleton id _ |>.trans (List.Perm.cons _ (hs.trans ?_))
    exact List.perm_append_comm

/-- From the root down to a tree: the trees around it, the innermost first. -/
inductive Path (t : Tree) : List Tree → Tree → Prop
  | root : Path t [] t
  | child {above : List Tree} {x c : Tree} : Path t above x → c ∈ x.children → Path t (x :: above) c

theorem Path.mem {t x : Tree} {above : List Tree} (h : t.Path above x) : x ∈ t.subtrees := by
  induction h with
  | root => exact t.self_mem_subtrees
  | child _ hc ih => exact subtrees_trans ih (child_mem_subtrees hc)

theorem Path.length {t x : Tree} {above : List Tree} (h : t.Path above x) :
    above.length + x.subtrees.length ≤ t.subtrees.length := by
  induction h with
  | root => simp
  | child _ hc ih =>
    have := length_subtrees_child hc
    simp only [List.length_cons]
    omega

theorem Path.append {t x y : Tree} {above more : List Tree} (h : t.Path above x)
    (h' : x.Path more y) :
    t.Path (more ++ above) y := by
  induction h' with
  | root => exact h
  | child _ hc ih => exact ih.child hc

theorem exists_path {t x : Tree} (hx : x ∈ t.subtrees) : ∃ above, t.Path above x := by
  induction t with
  | node id k s cs ih =>
    rw [subtrees_node, List.mem_append, List.mem_flatMap, List.mem_singleton] at hx
    rcases hx with ⟨c, hc, hx⟩ | rfl
    · obtain ⟨above, h⟩ := ih c hc hx
      exact ⟨_, (Path.root.child hc).append h⟩
    · exact ⟨[], Path.root⟩

section Distinct

variable {t : Tree} (distinct : t.ids.Nodup)

include distinct

theorem eq_of_id_eq {x y : Tree} (hx : x ∈ t.subtrees) (hy : y ∈ t.subtrees) (h : x.id = y.id) :
    x = y :=
  List.inj_on_of_nodup_map distinct hx hy h

theorem distinct_subtree {x : Tree} (hx : x ∈ t.subtrees) : x.ids.Nodup := by
  induction t with
  | node id k s cs ih =>
    rw [subtrees_node, List.mem_append, List.mem_flatMap, List.mem_singleton] at hx
    rcases hx with ⟨c, hc, hx⟩ | rfl
    · rw [ids_eq, List.nodup_append] at distinct
      exact ih c hc ((List.nodup_flatMap.mp distinct.1).1 c hc) hx
    · exact distinct

theorem listed_nodup : (t.id :: t.subtrees.flatMap fun x => x.children.map Tree.id).Nodup :=
  t.ids_perm_listed.nodup_iff.mp distinct

/-- A node has one parent. -/
theorem parent_unique {x y c d : Tree} (hx : x ∈ t.subtrees) (hy : y ∈ t.subtrees)
    (hc : c ∈ x.children) (hd : d ∈ y.children) (h : c.id = d.id) : x = y := by
  have hn := (List.nodup_cons.mp (listed_nodup distinct)).2
  by_contra hne
  have : Std.Symm (Function.onFun List.Disjoint fun x : Tree => x.children.map Tree.id) :=
    ⟨fun _ _ h _ ha hb => h hb ha⟩
  have hdis := (List.nodup_flatMap.mp hn).2.forall hx hy hne
  exact hdis (List.mem_map_of_mem hc) (h ▸ List.mem_map_of_mem hd)

theorem child_id_ne_root {x c : Tree} (hx : x ∈ t.subtrees) (hc : c ∈ x.children) :
    c.id ≠ t.id := by
  have hn := (List.nodup_cons.mp (listed_nodup distinct)).1
  intro h
  exact hn (List.mem_flatMap.mpr ⟨x, hx, h ▸ List.mem_map_of_mem hc⟩)

end Distinct

mutual

/-- The steps of a walk through the tree. -/
def steps : Tree → List Step
  | node id kind span children =>
    .enter id kind span :: (stepsAll children ++ [.leave id kind span])

def stepsAll : List Tree → List Step
  | [] => []
  | t :: ts => steps t ++ stepsAll ts

end

theorem stepsAll_eq (ts : List Tree) : stepsAll ts = ts.flatMap steps := by
  induction ts with
  | nil => rfl
  | cons t ts ih => rw [stepsAll, ih, List.flatMap_cons]

end Tree

end DecafCheck
