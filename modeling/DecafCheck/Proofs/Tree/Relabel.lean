import DecafCheck.Proofs.Tree.PostOrder

namespace DecafCheck

namespace Kind

/-- A kind without the names that it declares or looks up as variables. -/
def nameless : Kind → Kind
  | .function name returns parameters body =>
    .function name returns (parameters.map fun p => { p with name := "" }) body
  | .variable _ type length => .variable "" type length
  | .location _ index => .location "" index
  | k => k

variable {k k' : Kind} (h : k.nameless = k'.nameless)

include h

theorem children_of_nameless : k.children = k'.children := by
  have hchildren (k : Kind) : k.nameless.children = k.children := by cases k <;> rfl
  rw [← hchildren k, h, hchildren]

theorem opensScope_of_nameless : k.opensScope = k'.opensScope := by
  have hopens (k : Kind) : k.nameless.opensScope = k.opensScope := by cases k <;> rfl
  rw [← hopens k, h, hopens]

theorem roles_of_nameless : k.roles = k'.roles := by
  have hroles (k : Kind) : k.nameless.roles = k.roles := by cases k <;> rfl
  rw [← hroles k, h, hroles]

theorem fits_of_nameless (role : Role) : role.fits k = role.fits k' := by
  have hfits (k : Kind) : role.fits k.nameless = role.fits k := by cases k <;> cases role <;> rfl
  rw [← hfits k, h, hfits]

end Kind

namespace Tree

mutual

/-- The tree with other kinds. -/
def relabel (ρ : NodeId → Kind → Kind) : Tree → Tree
  | node id kind span children => node id (ρ id kind) span (relabelAll ρ children)

def relabelAll (ρ : NodeId → Kind → Kind) : List Tree → List Tree
  | [] => []
  | t :: ts => relabel ρ t :: relabelAll ρ ts

end

variable (ρ : NodeId → Kind → Kind)

theorem relabelAll_eq (ts : List Tree) : relabelAll ρ ts = ts.map (relabel ρ) := by
  induction ts with
  | nil => rfl
  | cons t ts ih => rw [relabelAll, ih, List.map_cons]

theorem relabel_node (id : NodeId) (kind : Kind) (span : Span) (cs : List Tree) :
    (node id kind span cs).relabel ρ = node id (ρ id kind) span (cs.map (relabel ρ)) := by
  rw [relabel, relabelAll_eq]

@[simp] theorem id_relabel (t : Tree) : (t.relabel ρ).id = t.id := by
  cases t
  rfl

@[simp] theorem kind_relabel (t : Tree) : (t.relabel ρ).kind = ρ t.id t.kind := by
  cases t
  rfl

@[simp] theorem span_relabel (t : Tree) : (t.relabel ρ).span = t.span := by
  cases t
  rfl

@[simp] theorem children_relabel (t : Tree) :
    (t.relabel ρ).children = t.children.map (relabel ρ) := by
  cases t
  rw [relabel_node]
  rfl

theorem subtrees_relabel (t : Tree) : (t.relabel ρ).subtrees = t.subtrees.map (relabel ρ) := by
  induction t with
  | node id kind span cs ih =>
    have hcs : (cs.map (relabel ρ)).flatMap subtrees = (cs.flatMap subtrees).map (relabel ρ) := by
      rw [List.flatMap_map, List.map_flatMap]
      exact List.flatMap_congr ih
    rw [relabel_node, subtrees_node, subtrees_node, List.map_append, hcs,
      List.map_singleton, relabel_node]

theorem exists_of_mem_relabel {t y : Tree} (hy : y ∈ (t.relabel ρ).subtrees) :
    ∃ x ∈ t.subtrees, x.relabel ρ = y := by
  rw [subtrees_relabel] at hy
  exact List.mem_map.mp hy

theorem ids_relabel (t : Tree) : (t.relabel ρ).ids = t.ids := by
  rw [ids, subtrees_relabel, List.map_map]
  exact List.map_congr_left fun x _ => x.id_relabel ρ

variable {ρ}

theorem Path.relabel {t x : Tree} {above : List Tree} (h : t.Path above x) :
    (t.relabel ρ).Path (above.map (Tree.relabel ρ)) (x.relabel ρ) := by
  induction h with
  | root => exact .root
  | @child above x c _ hc ih =>
    refine ih.child ?_
    rw [children_relabel]
    exact List.mem_map_of_mem hc

/-- The places of the tree are those it has with other kinds. -/
theorem Path.of_relabel {t x' : Tree} {above' : List Tree} (h : (t.relabel ρ).Path above' x') :
    ∃ above x, t.Path above x ∧ above' = above.map (Tree.relabel ρ) ∧ x' = x.relabel ρ := by
  induction h with
  | root => exact ⟨[], t, .root, rfl, rfl⟩
  | child _ hc ih =>
    obtain ⟨above, x, hp, rfl, rfl⟩ := ih
    rw [children_relabel] at hc
    obtain ⟨d, hd, rfl⟩ := List.mem_map.mp hc
    exact ⟨x :: above, d, hp.child hd, rfl, rfl⟩

theorem Fitting.relabel {t : Tree} (h : t.Fitting) (hρ : ∀ id k, (ρ id k).nameless = k.nameless) :
    (t.relabel ρ).Fitting := by
  intro r hr
  rw [kind_relabel, Kind.roles_of_nameless (hρ t.id t.kind)] at hr
  obtain ⟨c, hc, hid, hfits⟩ := h r hr
  refine ⟨c.relabel ρ, ?_, by rw [id_relabel, hid], ?_⟩
  · rw [children_relabel]
    exact List.mem_map_of_mem hc
  · rw [kind_relabel, Kind.fits_of_nameless (hρ c.id c.kind), hfits]

end Tree

namespace Forest

/-- The forest with other kinds. -/
def relabel (ρ : NodeId → Kind → Kind) (f : Forest) : Forest :=
  { f with nodes := f.nodes.mapIdx fun id n => { n with kind := ρ id n.kind } }

variable (ρ : NodeId → Kind → Kind) (f : Forest) (id : NodeId)

theorem node?_relabel :
    (f.relabel ρ).node? id = (f.node? id).map fun n => { n with kind := ρ id n.kind } :=
  Array.getElem?_mapIdx

theorem kindOf?_relabel : (f.relabel ρ).kindOf? id = (f.kindOf? id).map (ρ id) := by
  rw [kindOf?, node?_relabel, Option.map_map, kindOf?, Option.map_map]
  rfl

theorem spanOf_relabel : (f.relabel ρ).spanOf id = f.spanOf id := by
  rw [spanOf, node?_relabel, Option.map_map]
  rfl

theorem parentOf?_relabel : (f.relabel ρ).parentOf? id = f.parentOf? id := by
  rw [parentOf?, node?_relabel, Option.bind_map]
  rfl

theorem tableOf?_relabel : (f.relabel ρ).tableOf? id = f.tableOf? id := by
  rw [tableOf?, node?_relabel, Option.bind_map]
  rfl

theorem size_relabel : (f.relabel ρ).size = f.size :=
  Array.size_mapIdx

variable {ρ} {f} {t : Tree}

theorem Carries.relabel (h : f.Carries t) (hρ : ∀ id k, (ρ id k).nameless = k.nameless) :
    (f.relabel ρ).Carries (t.relabel ρ) where
  root := by rw [Tree.id_relabel, ← h.root]; rfl
  kind y hy := by
    obtain ⟨x, hx, rfl⟩ := Tree.exists_of_mem_relabel ρ hy
    rw [Tree.id_relabel, kindOf?_relabel, h.kind x hx, Tree.kind_relabel]
    rfl
  span y hy := by
    obtain ⟨x, hx, rfl⟩ := Tree.exists_of_mem_relabel ρ hy
    rw [Tree.id_relabel, spanOf_relabel, h.span x hx, Tree.span_relabel]
  listed y hy := by
    obtain ⟨x, hx, rfl⟩ := Tree.exists_of_mem_relabel ρ hy
    rw [Tree.kind_relabel, Kind.children_of_nameless (hρ x.id x.kind), h.listed x hx,
      Tree.children_relabel, List.map_map]
    exact List.map_congr_left fun c _ => (c.id_relabel ρ).symm
  distinct := by
    rw [Tree.ids_relabel]
    exact h.distinct
  all id hid := by
    rw [Tree.ids_relabel]
    exact h.all id (f.size_relabel ρ ▸ hid)

theorem Linked.relabel (h : f.Linked t) : (f.relabel ρ).Linked (t.relabel ρ) := by
  intro above' x' hp'
  obtain ⟨above, x, hp, rfl, rfl⟩ := hp'.of_relabel
  rw [parentOf?_relabel, Tree.id_relabel, h hp, List.head?_map, Option.map_map]
  exact congrArg (Option.map · above.head?) (funext fun y => (y.id_relabel ρ).symm)

end Forest

end DecafCheck
