import DecafCheck.Forest.Planting
import DecafCheck.Proofs.Program.Basic
import DecafCheck.Proofs.Tree.Forest

namespace DecafCheck

namespace Tree

/-- The number behind those of the trees, which begin with `n`. -/
def after (n : Nat) : List Tree → Nat
  | [] => n
  | t :: ts => after (t.id + 1) ts

/-- A node above children whose numbers begin with `n`. -/
def above (n : Nat) (children : List Tree) (kind : Kind) (span : Span) : Tree :=
  node (after n children) kind span children

/-- The nodes of the trees have consecutive numbers from `n` on, children before their parents. -/
structure Numbered (n : Nat) (ts : List Tree) : Prop where
  ids : ts.flatMap Tree.ids = List.range' n (ts.flatMap subtrees).length
  after : after n ts = n + (ts.flatMap subtrees).length

theorem numbered_nil (n : Nat) : Numbered n [] :=
  ⟨rfl, rfl⟩

theorem after_append (n : Nat) (ts us : List Tree) :
    after n (ts ++ us) = after (after n ts) us := by
  induction ts generalizing n with
  | nil => rfl
  | cons t ts ih => exact ih _

theorem Numbered.append {n : Nat} {ts us : List Tree} (ht : Numbered n ts)
    (hu : Numbered (Tree.after n ts) us) : Numbered n (ts ++ us) := by
  constructor
  · rw [List.flatMap_append, List.flatMap_append, List.length_append, ht.ids, hu.ids, ht.after,
      List.range'_append_1]
  · rw [after_append, hu.after, ht.after, List.flatMap_append, List.length_append]
    omega

theorem numbered_above {n : Nat} {cs : List Tree} (h : Numbered n cs) (k : Kind) (s : Span) :
    Numbered n [above n cs k s] := by
  have hl : ([above n cs k s].flatMap subtrees).length = (cs.flatMap subtrees).length + 1 := by
    simp [above]
  constructor
  · rw [hl, List.range'_1_concat, ← h.ids, ← h.after]
    simp [ids_eq, above]
  · rw [hl]
    simp [Tree.after, above, h.after]
    omega

theorem listed_above {cs : List Tree} {k : Kind} (h : ∀ c ∈ cs, c.Listed)
    (hk : k.children = cs.map Tree.id) (n : Nat) (s : Span) : (above n cs k s).Listed := by
  intro x hx
  rw [above, subtrees_node, List.mem_append, List.mem_flatMap, List.mem_singleton] at hx
  rcases hx with ⟨c, hc, hx⟩ | rfl
  · exact h c hc x hx
  · exact hk

/-- Trees next to each other, each numbered from behind the one before. -/
def row {α : Type} (tree : Nat → α → Tree) (n : Nat) : List α → List Tree
  | [] => []
  | a :: as => tree n a :: row tree ((tree n a).id + 1) as

theorem numbered_row {α : Type} {tree : Nat → α → Tree} {as : List α}
    (h : ∀ a ∈ as, ∀ n, Numbered n [tree n a]) (n : Nat) : Numbered n (row tree n as) := by
  induction as generalizing n with
  | nil => exact numbered_nil n
  | cons a as ih =>
    exact (h a List.mem_cons_self n).append (ih (fun b hb => h b (List.mem_cons_of_mem a hb)) _)

theorem mem_row {α : Type} {tree : Nat → α → Tree} {n : Nat} {as : List α} {t : Tree}
    (h : t ∈ row tree n as) : ∃ a ∈ as, ∃ m, t = tree m a := by
  induction as generalizing n with
  | nil => exact absurd h List.not_mem_nil
  | cons a as ih =>
    rcases List.mem_cons.mp h with rfl | h
    · exact ⟨a, List.mem_cons_self, n, rfl⟩
    · obtain ⟨b, hb, m, rfl⟩ := ih h
      exact ⟨b, List.mem_cons_of_mem a hb, m, rfl⟩

/-- The nodes of a tree before anything points upwards. -/
def sprouts (t : Tree) : List Node :=
  t.subtrees.map fun x => { kind := x.kind, span := x.span }

end Tree

namespace Forest

/-- Adds the nodes of trees, children before their parents. -/
def grow (f : Forest) (ts : List Tree) : Forest :=
  { f with nodes := f.nodes ++ (ts.flatMap Tree.sprouts).toArray }

@[simp] theorem grow_nil (f : Forest) : f.grow [] = f := by
  simp [grow]

theorem grow_append (f : Forest) (ts us : List Tree) : f.grow (ts ++ us) = (f.grow ts).grow us := by
  simp [grow]

theorem size_grow {f : Forest} {ts : List Tree} (h : Tree.Numbered f.size ts) :
    (f.grow ts).size = Tree.after f.size ts := by
  rw [h.after]
  simp [grow, size, Tree.sprouts, List.length_flatMap]

theorem add_grow {f : Forest} {cs : List Tree} (h : Tree.Numbered f.size cs) (k : Kind) (s : Span) :
    (f.grow cs).add k s = (f.grow [.above f.size cs k s], (Tree.above f.size cs k s).id) := by
  rw [add, size_grow h]
  simp [grow, Tree.above, Tree.sprouts, List.map_flatMap]
  rfl

theorem node?_grow {ts : List Tree} (h : Tree.Numbered 0 ts) {x : Tree}
    (hx : x ∈ ts.flatMap Tree.subtrees) :
    (({} : Forest).grow ts).node? x.id = some { kind := x.kind, span := x.span } := by
  have hids : (ts.flatMap Tree.subtrees).map Tree.id =
      List.range' 0 (ts.flatMap Tree.subtrees).length := by
    rw [← h.ids, List.map_flatMap]
    rfl
  obtain ⟨i, hi, rfl⟩ := List.mem_iff_getElem.mp hx
  have hid : (ts.flatMap Tree.subtrees)[i].id = i := by
    have := List.getElem_of_eq hids (i := i) (by simpa using hi)
    simpa using this
  rw [hid]
  have hg : (({} : Forest).grow ts).nodes =
      ((ts.flatMap Tree.subtrees).map fun x =>
        ({ kind := x.kind, span := x.span } : Node)).toArray := by
    simp [grow, List.map_flatMap]
    rfl
  rw [node?, hg, List.getElem?_toArray, List.getElem?_map, List.getElem?_eq_getElem hi]
  rfl

theorem tableOf?_grow_empty (ts : List Tree) (id : NodeId) :
    (({} : Forest).grow ts).tableOf? id = none := by
  rw [tableOf?, Option.bind_eq_none_iff]
  intro n hn
  have hm : n ∈ ts.flatMap Tree.sprouts := by
    simpa [node?, grow] using Array.mem_of_getElem? hn
  obtain ⟨t, -, ht⟩ := List.mem_flatMap.mp hm
  obtain ⟨x, -, rfl⟩ := List.mem_map.mp ht
  rfl

/-- A way to plant a thing that gives the forest the nodes of the thing's tree. -/
structure Plants {α : Type} (plant : Forest → α → Forest × NodeId) (tree : Nat → α → Tree) (a : α) :
    Prop where
  numbered : ∀ n, Tree.Numbered n [tree n a]
  listed : ∀ n, (tree n a).Listed
  eq : ∀ f, plant f a = (f.grow [tree f.size a], (tree f.size a).id)

/-- A thing whose tree stands above others is planted behind these. -/
theorem Plants.of_above {α : Type} {plant : Forest → α → Forest × NodeId} {tree : Nat → α → Tree}
    {a : α} {children : Nat → List Tree} {kind : Nat → Kind} {span : Span}
    (htree : ∀ n, tree n a = .above n (children n) (kind n) span)
    (hnumbered : ∀ n, Tree.Numbered n (children n)) (hlisted : ∀ n, ∀ c ∈ children n, c.Listed)
    (hkind : ∀ n, (kind n).children = (children n).map Tree.id)
    (hplant : ∀ f, plant f a = (f.grow (children f.size)).add (kind f.size) span) :
    Plants plant tree a where
  numbered n := by
    rw [htree]
    exact Tree.numbered_above (hnumbered n) _ _
  listed n := by
    rw [htree]
    exact Tree.listed_above (hlisted n) (hkind n) n span
  eq f := by rw [hplant, htree, add_grow (hnumbered f.size)]

/-- A thing whose tree is a single node. -/
theorem Plants.of_leaf {α : Type} {plant : Forest → α → Forest × NodeId} {tree : Nat → α → Tree}
    {a : α} {kind : Kind} {span : Span} (htree : ∀ n, tree n a = .above n [] kind span)
    (hkind : kind.children = []) (hplant : ∀ f, plant f a = f.add kind span) :
    Plants plant tree a := by
  refine .of_above htree Tree.numbered_nil (by simp) (fun _ => hkind) fun f => ?_
  rw [hplant, grow_nil]

/-- Behind trees that have been planted already. -/
theorem Plants.next {α : Type} {plant : Forest → α → Forest × NodeId}
    {tree : Nat → α → Tree} {a : α} (h : Plants plant tree a) {f : Forest} {ts : List Tree}
    (hn : Tree.Numbered f.size ts) :
    plant (f.grow ts) a =
      (f.grow (ts ++ [tree (Tree.after f.size ts) a]), (tree (Tree.after f.size ts) a).id) := by
  rw [h.eq, size_grow hn, grow_append]

/-- Plants one thing after the other. -/
def plantRow {α β : Type} (plant : Forest → α → Forest × β) (f : Forest) : List α → Forest × List β
  | [] => (f, [])
  | a :: as =>
    let (f, id) := plant f a
    let (f, ids) := plantRow plant f as
    (f, id :: ids)

theorem plantRow_eq {α : Type} {plant : Forest → α → Forest × NodeId}
    {tree : Nat → α → Tree} {as : List α} (h : ∀ a ∈ as, Plants plant tree a) {f : Forest}
    {ts : List Tree} (hn : Tree.Numbered f.size ts) :
    plantRow plant (f.grow ts) as =
      (f.grow (ts ++ Tree.row tree (Tree.after f.size ts) as),
        (Tree.row tree (Tree.after f.size ts) as).map Tree.id) := by
  induction as generalizing ts with
  | nil => simp [plantRow, Tree.row]
  | cons a as ih =>
    have ha := h a List.mem_cons_self
    have hr := ih (fun b hb => h b (List.mem_cons_of_mem a hb))
      (hn.append (ha.numbered (Tree.after f.size ts)))
    simp only [plantRow, ha.next hn, hr, Tree.row, Tree.after_append, List.append_assoc]
    rfl

end Forest

namespace Expr

mutual

/-- The tree of an expression, numbered from `n` on. -/
def tree (n : Nat) : Expr → Tree
  | .literal value span => .above n [] (.literal value) span
  | .location name none span => .above n [] (.location name none) span
  | .location name (some index) span =>
    let i := tree n index
    .above n [i] (.location name (some i.id)) span
  | .call name arguments span =>
    let as := trees n arguments
    .above n as (.call name (as.map Tree.id)) span
  | .unary op operand span =>
    let o := tree n operand
    .above n [o] (.unary op o.id) span
  | .binary op left right span =>
    let l := tree n left
    let r := tree (l.id + 1) right
    .above n [l, r] (.binary op l.id r.id) span

def trees (n : Nat) : List Expr → List Tree
  | [] => []
  | e :: rest => tree n e :: trees ((tree n e).id + 1) rest

end

theorem trees_eq (n : Nat) (es : List Expr) : trees n es = Tree.row tree n es := by
  induction es generalizing n with
  | nil => rfl
  | cons e es ih => rw [trees, ih, Tree.row]

/-- No tree or one. -/
def tree? (n : Nat) (o : Option Expr) : List Tree :=
  Tree.row tree n o.toList

theorem tree_location (n : Nat) (name : String) (index : Option Expr) (span : Span) :
    (location name index span).tree n =
      .above n (tree? n index) (.location name ((tree? n index).head?.map Tree.id)) span := by
  cases index with
  | none => simp [tree, tree?, Tree.row]
  | some i => simp [tree, tree?, Tree.row]

theorem tree_call (n : Nat) (name : String) (arguments : List Expr) (span : Span) :
    (call name arguments span).tree n =
      .above n (Tree.row tree n arguments)
        (.call name ((Tree.row tree n arguments).map Tree.id)) span := by
  simp only [tree, trees_eq]

theorem plantAll_eq_plantRow (f : Forest) (es : List Expr) :
    plantAll f es = Forest.plantRow plant f es := by
  induction es generalizing f with
  | nil => rfl
  | cons e es ih => simp only [plantAll, Forest.plantRow, ih]

theorem plants_location (name : String) {index : Option Expr} (span : Span)
    (ih : ∀ e ∈ index, Forest.Plants plant tree e) :
    Forest.Plants plant tree (.location name index span) := by
  have hi : ∀ e ∈ index.toList, Forest.Plants plant tree e :=
    fun e he => ih e (Option.mem_toList.mp he)
  refine .of_above (fun n => tree_location n name index span) ?_ ?_ ?_ ?_
  · exact Tree.numbered_row fun e he => (hi e he).numbered
  · intro n c hc
    obtain ⟨e, he, m, rfl⟩ := Tree.mem_row hc
    exact (hi e he).listed m
  · intro n
    cases index <;> rfl
  · intro f
    cases index with
    | none =>
      rw [tree?, Option.toList_none, Tree.row, Forest.grow_nil]
      rfl
    | some i =>
      rw [plant, (ih i rfl).eq]
      rfl

theorem plants_call (name : String) {arguments : List Expr} (span : Span)
    (ih : ∀ e ∈ arguments, Forest.Plants plant tree e) :
    Forest.Plants plant tree (.call name arguments span) := by
  refine .of_above (fun n => tree_call n name arguments span) ?_ ?_ ?_ ?_
  · exact Tree.numbered_row fun e he => (ih e he).numbered
  · intro n c hc
    obtain ⟨e, he, m, rfl⟩ := Tree.mem_row hc
    exact (ih e he).listed m
  · exact fun _ => rfl
  · intro f
    have hr := Forest.plantRow_eq ih (Tree.numbered_nil f.size)
    rw [Forest.grow_nil] at hr
    rw [plant, plantAll_eq_plantRow, hr]
    rfl

theorem plants (e : Expr) : Forest.Plants plant tree e := by
  induction e with
  | literal value span => exact .of_leaf (fun _ => rfl) rfl fun _ => rfl
  | location name index span ih => exact plants_location name span ih
  | call name arguments span ih => exact plants_call name span ih
  | unary op operand span ih =>
    refine .of_above (fun _ => rfl) ?_ ?_ ?_ ?_
    · exact ih.numbered
    · exact fun n => by simpa using ih.listed n
    · exact fun _ => rfl
    · exact fun f => by rw [plant, ih.eq]
  | binary op left right span ihl ihr =>
    refine .of_above (fun _ => rfl) ?_ ?_ ?_ ?_
    · exact fun n => (ihl.numbered n).append (ihr.numbered _)
    · exact fun n => by simpa using ⟨ihl.listed n, ihr.listed _⟩
    · exact fun _ => rfl
    · intro f
      simp only [plant, ihl.eq, ihr.next (ihl.numbered f.size)]
      rfl

theorem numbered_row (n : Nat) (es : List Expr) : Tree.Numbered n (Tree.row tree n es) :=
  Tree.numbered_row (fun e _ => e.plants.numbered) n

theorem listed_of_mem_row {n : Nat} {es : List Expr} {t : Tree} (h : t ∈ Tree.row tree n es) :
    t.Listed := by
  obtain ⟨e, -, m, rfl⟩ := Tree.mem_row h
  exact e.plants.listed m

theorem plantAll_eq (f : Forest) (es : List Expr) :
    plantAll f es = (f.grow (Tree.row tree f.size es), (Tree.row tree f.size es).map Tree.id) := by
  have hr := Forest.plantRow_eq (fun e (_ : e ∈ es) => e.plants) (Tree.numbered_nil f.size)
  rw [Forest.grow_nil] at hr
  rw [plantAll_eq_plantRow, hr]
  rfl

theorem plant?_eq (f : Forest) (o : Option Expr) :
    plant? f o = (f.grow (tree? f.size o), (tree? f.size o).head?.map Tree.id) := by
  cases o with
  | none => simp [plant?, tree?, Tree.row]
  | some e => simp [plant?, tree?, Tree.row, e.plants.eq]

end Expr

namespace Variable

def tree (n : Nat) (v : Variable) : Tree :=
  .above n [] (.variable v.name v.type v.length) v.span

theorem plants (v : Variable) : Forest.Plants (fun f v => plant f v) tree v :=
  .of_leaf (fun _ => rfl) rfl fun _ => rfl

theorem numbered_row (n : Nat) (vs : List Variable) : Tree.Numbered n (Tree.row tree n vs) :=
  Tree.numbered_row (fun v _ => v.plants.numbered) n

theorem plantAll_eq_plantRow (f : Forest) (vs : List Variable) :
    plantAll f vs = Forest.plantRow plant f vs := by
  induction vs generalizing f with
  | nil => rfl
  | cons v vs ih => simp only [plantAll, Forest.plantRow, ih]

theorem plantAll_eq (f : Forest) (vs : List Variable) :
    plantAll f vs = (f.grow (Tree.row tree f.size vs), (Tree.row tree f.size vs).map Tree.id) := by
  have hr := Forest.plantRow_eq (fun v (_ : v ∈ vs) => v.plants) (Tree.numbered_nil f.size)
  rw [Forest.grow_nil] at hr
  rw [plantAll_eq_plantRow, hr]
  rfl

end Variable

mutual

/-- The tree of a statement, numbered from `n` on. -/
def Stmt.tree (n : Nat) : Stmt → Tree
  | .assign name index target value span =>
    let l := (Expr.location name index target).tree n
    let v := value.tree (l.id + 1)
    .above n [l, v] (.assignment l.id v.id) span
  | .call name arguments span =>
    let as := Tree.row Expr.tree n arguments
    .above n as (.callStatement name (as.map Tree.id)) span
  | .branch condition yes none span =>
    let c := condition.tree n
    let y := Block.tree (c.id + 1) yes
    .above n [c, y] (.conditional c.id y.id none) span
  | .branch condition yes (some no) span =>
    let c := condition.tree n
    let y := Block.tree (c.id + 1) yes
    let o := Block.tree (y.id + 1) no
    .above n [c, y, o] (.conditional c.id y.id (some o.id)) span
  | .loop guard body span =>
    let g := guard.tree n
    let b := Block.tree (g.id + 1) body
    .above n [g, b] (.whileLoop g.id b.id) span
  | .ret value span =>
    let v := Expr.tree? n value
    .above n v (.ret (v.head?.map Tree.id)) span
  | .jump j span => .above n [] (.jump j) span

def Stmt.trees (n : Nat) : List Stmt → List Tree
  | [] => []
  | s :: rest => Stmt.tree n s :: Stmt.trees ((Stmt.tree n s).id + 1) rest

/-- The tree of a block, numbered from `n` on. -/
def Block.tree (n : Nat) : Block → Tree
  | .mk vars statements span =>
    let vs := Tree.row Variable.tree n vars
    let ss := Stmt.trees (Tree.after n vs) statements
    .above n (vs ++ ss) (.block (vs.map Tree.id) (ss.map Tree.id)) span

end

theorem Stmt.trees_eq (n : Nat) (ss : List Stmt) : Stmt.trees n ss = Tree.row Stmt.tree n ss := by
  induction ss generalizing n with
  | nil => rfl
  | cons s ss ih => rw [Stmt.trees, ih, Tree.row]

theorem Block.tree_mk (n : Nat) (vars : List Variable) (statements : List Stmt) (span : Span) :
    (Block.mk vars statements span).tree n =
      let vs := Tree.row Variable.tree n vars
      let ss := Tree.row Stmt.tree (Tree.after n vs) statements
      .above n (vs ++ ss) (.block (vs.map Tree.id) (ss.map Tree.id)) span := by
  simp only [Block.tree, Stmt.trees_eq]

theorem Stmt.plantAll_eq_plantRow (f : Forest) (ss : List Stmt) :
    Stmt.plantAll f ss = Forest.plantRow Stmt.plant f ss := by
  induction ss generalizing f with
  | nil => rfl
  | cons s ss ih => simp only [Stmt.plantAll, Forest.plantRow, ih]

theorem Stmt.plants_assign (name : String) (index : Option Expr) (target : Span) (value : Expr)
    (span : Span) : Forest.Plants plant tree (.assign name index target value span) := by
  have hl := (Expr.location name index target).plants
  refine .of_above (fun _ => rfl) ?_ ?_ ?_ ?_
  · exact fun n => (hl.numbered n).append (value.plants.numbered _)
  · exact fun n => by simpa using ⟨hl.listed n, value.plants.listed _⟩
  · exact fun _ => rfl
  · intro f
    -- The target is no expression of the syntax and is planted in place.
    have ha : (Expr.plant? f index).1.add (.location name (Expr.plant? f index).2) target =
        (f.grow [(Expr.location name index target).tree f.size],
          ((Expr.location name index target).tree f.size).id) := by
      rw [Expr.plant?_eq, Expr.tree_location]
      exact Forest.add_grow (Expr.numbered_row f.size _) _ _
    simp only [Stmt.plant, ha, value.plants.next (hl.numbered f.size)]
    rfl

theorem Stmt.plants_branch (condition : Expr) {yes : Block} {no : Option Block} (span : Span)
    (hy : Forest.Plants Block.plant Block.tree yes)
    (hno : ∀ b ∈ no, Forest.Plants Block.plant Block.tree b) :
    Forest.Plants plant tree (.branch condition yes no span) := by
  have hc := condition.plants
  have hn (n : Nat) := (hc.numbered n).append (hy.numbered _)
  cases no with
  | none =>
    refine .of_above (fun _ => rfl) ?_ ?_ ?_ ?_
    · exact hn
    · exact fun n => by simpa using ⟨hc.listed n, hy.listed _⟩
    · exact fun _ => rfl
    · intro f
      simp only [Stmt.plant, hc.eq, hy.next (hc.numbered f.size)]
      rfl
  | some b =>
    have hb := hno b rfl
    refine .of_above (fun _ => rfl) ?_ ?_ ?_ ?_
    · exact fun n => (hn n).append (hb.numbered _)
    · exact fun n => by simpa using ⟨hc.listed n, hy.listed _, hb.listed _⟩
    · exact fun _ => rfl
    · intro f
      simp only [Stmt.plant, hc.eq, hy.next (hc.numbered f.size), hb.next (hn f.size)]
      rfl

theorem Block.plants_mk (vars : List Variable) {statements : List Stmt} (span : Span)
    (ih : ∀ s ∈ statements, Forest.Plants Stmt.plant Stmt.tree s) :
    Forest.Plants plant tree (.mk vars statements span) := by
  refine .of_above (fun n => Block.tree_mk n vars statements span) ?_ ?_ ?_ ?_
  · exact fun n => (Variable.numbered_row n vars).append
      (Tree.numbered_row (fun s hs => (ih s hs).numbered) _)
  · intro n c hc
    rcases List.mem_append.mp hc with hc | hc
    · obtain ⟨v, -, m, rfl⟩ := Tree.mem_row hc
      exact v.plants.listed m
    · obtain ⟨s, hs, m, rfl⟩ := Tree.mem_row hc
      exact (ih s hs).listed m
  · exact fun n => by simp [Kind.children]
  · intro f
    have hr := Forest.plantRow_eq ih (Variable.numbered_row f.size vars)
    simp only [Block.plant, Variable.plantAll_eq, Stmt.plantAll_eq_plantRow, hr]

theorem Stmt.plants_and :
    (∀ s, Forest.Plants Stmt.plant Stmt.tree s) ∧ ∀ b, Forest.Plants Block.plant Block.tree b := by
  apply Stmt.induct
  case assign =>
    exact fun name index target value span => plants_assign name index target value span
  case call =>
    intro name arguments span
    refine .of_above (fun _ => rfl) ?_ ?_ ?_ ?_
    · exact fun n => Expr.numbered_row n arguments
    · exact fun n c hc => Expr.listed_of_mem_row hc
    · exact fun _ => rfl
    · exact fun f => by simp only [Stmt.plant, Expr.plantAll_eq]
  case branch => exact fun condition _ _ span hy hno => plants_branch condition span hy hno
  case loop =>
    intro guard body span hb
    have hg := guard.plants
    refine .of_above (fun _ => rfl) ?_ ?_ ?_ ?_
    · exact fun n => (hg.numbered n).append (hb.numbered _)
    · exact fun n => by simpa using ⟨hg.listed n, hb.listed _⟩
    · exact fun _ => rfl
    · intro f
      simp only [Stmt.plant, hg.eq, hb.next (hg.numbered f.size)]
      rfl
  case ret =>
    intro value span
    refine .of_above (fun _ => rfl) ?_ ?_ ?_ ?_
    · exact fun n => Expr.numbered_row n _
    · exact fun n c hc => Expr.listed_of_mem_row hc
    · exact fun n => by cases value <;> rfl
    · exact fun f => by simp only [Stmt.plant, Expr.plant?_eq]
  case jump => exact fun j span => .of_leaf (fun _ => rfl) rfl fun _ => rfl
  case mk => exact fun vars _ span ih => Block.plants_mk vars span ih

namespace Function

def tree (n : Nat) (g : Function) : Tree :=
  let b := g.body.tree n
  .above n [b] (.function g.name g.returns g.parameters b.id) g.span

theorem plants (g : Function) : Forest.Plants (fun f g => plant f g) tree g := by
  have hb := Stmt.plants_and.2 g.body
  refine .of_above (fun _ => rfl) ?_ ?_ ?_ ?_
  · exact hb.numbered
  · exact fun n => by simpa using hb.listed n
  · exact fun _ => rfl
  · exact fun f => by simp only [plant, hb.eq]

end Function

namespace Declaration

def isVariable : Declaration → Bool
  | .variable _ => true
  | .function _ => false

def tree (n : Nat) : Declaration → Tree
  | .variable v => v.tree n
  | .function g => g.tree n

/-- The trees of declarations in the order of the text, with what they are the trees of. -/
def trees (n : Nat) : List Declaration → List (Declaration × Tree)
  | [] => []
  | d :: ds => (d, d.tree n) :: trees ((d.tree n).id + 1) ds

theorem numbered (d : Declaration) (n : Nat) : Tree.Numbered n [d.tree n] := by
  rcases d with v | g
  · exact v.plants.numbered n
  · exact g.plants.numbered n

theorem listed (d : Declaration) (n : Nat) : (d.tree n).Listed := by
  rcases d with v | g
  · exact v.plants.listed n
  · exact g.plants.listed n

theorem map_snd_trees (n : Nat) (ds : List Declaration) :
    (trees n ds).map Prod.snd = Tree.row tree n ds := by
  induction ds generalizing n with
  | nil => rfl
  | cons d ds ih => simp only [trees, List.map_cons, ih, Tree.row]

/-- The trees of the variables. -/
def variableTrees (n : Nat) (ds : List Declaration) : List Tree :=
  ((trees n ds).filter fun d => d.1.isVariable).map Prod.snd

/-- The trees of the functions. -/
def functionTrees (n : Nat) (ds : List Declaration) : List Tree :=
  ((trees n ds).filter fun d => !d.1.isVariable).map Prod.snd

theorem trees_perm (n : Nat) (ds : List Declaration) :
    (variableTrees n ds ++ functionTrees n ds).Perm (Tree.row tree n ds) := by
  rw [← map_snd_trees, variableTrees, functionTrees, ← List.map_append]
  exact (List.filter_append_perm _ _).map _

theorem plantAll_eq (ds : List Declaration) {f : Forest} {ts : List Tree}
    (hn : Tree.Numbered f.size ts) :
    plantAll (f.grow ts) ds =
      (f.grow (ts ++ Tree.row tree (Tree.after f.size ts) ds),
        (variableTrees (Tree.after f.size ts) ds).map Tree.id,
        (functionTrees (Tree.after f.size ts) ds).map Tree.id) := by
  induction ds generalizing ts with
  | nil => simp [plantAll, Tree.row, variableTrees, functionTrees, trees]
  | cons d ds ih =>
    have hr := ih (hn.append (d.numbered _))
    rw [Tree.after_append] at hr
    rcases d with v | g
    · have hv := v.plants.next hn
      simp only [tree] at hr
      simp only [plantAll, hv, hr, Tree.row, List.append_assoc]
      rfl
    · have hg := g.plants.next hn
      simp only [tree] at hr
      simp only [plantAll, hg, hr, Tree.row, List.append_assoc]
      rfl

end Declaration

namespace Program

/-- The tree of a program. Its variables come before its functions, whatever their numbers. -/
def tree (p : Program) : Tree :=
  let vs := Declaration.variableTrees 0 p.declarations
  let fs := Declaration.functionTrees 0 p.declarations
  .node (Tree.after 0 (Tree.row Declaration.tree 0 p.declarations))
  (.program (vs.map Tree.id) (fs.map Tree.id))
    p.span (vs ++ fs)

theorem plant_eq (p : Program) :
    p.plant = (({} : Forest).grow [.above 0 (Tree.row Declaration.tree 0 p.declarations) p.tree.kind
      p.span]).setRoot p.tree.id := by
  have hr := Tree.numbered_row (fun d (_ : d ∈ p.declarations) => d.numbered) 0
  have hp := Declaration.plantAll_eq p.declarations (Tree.numbered_nil ({} : Forest).size)
  rw [Forest.grow_nil] at hp
  simp only [plant, hp]
  exact congrArg (fun r : Forest × NodeId => r.1.setRoot r.2)
    (Forest.add_grow (f := {}) hr p.tree.kind p.span)

theorem subtrees_tree (p : Program) :
    p.tree.subtrees.Perm ((Tree.row Declaration.tree 0 p.declarations).flatMap Tree.subtrees ++
      [p.tree]) := by
  rw [tree, Tree.subtrees_node]
  exact ((Declaration.trees_perm 0 p.declarations).flatMap_right _).append_right _

/-- Planting a program gives the forest of its tree. -/
theorem plant_carries (p : Program) : p.plant.Carries p.tree := by
  have hr := Tree.numbered_row (fun d (_ : d ∈ p.declarations) => d.numbered) 0
  have hn := Tree.numbered_above hr p.tree.kind p.span
  have hids : p.tree.ids.Perm (List.range' 0 p.plant.size) := by
    have hp := p.subtrees_tree.map Tree.id
    have hsize : p.plant.size =
        ([Tree.above 0 (Tree.row Declaration.tree 0 p.declarations) p.tree.kind
        p.span].flatMap Tree.subtrees).length := by
      rw [plant_eq]
      exact (Forest.size_grow (f := {}) hn).trans (hn.after.trans (Nat.zero_add _))
    rw [hsize, ← hn.ids, List.flatMap_singleton, Tree.ids_eq (.above 0 _ _ _)]
    rw [List.map_append, List.map_flatMap] at hp
    exact hp
  have hnode : ∀ x ∈ p.tree.subtrees,
      p.plant.node? x.id = some { kind := x.kind, span := x.span } := by
    intro x hx
    rw [plant_eq]
    rcases List.mem_append.mp (p.subtrees_tree.mem_iff.mp hx) with hx | hx
    · exact Forest.node?_grow hn (by simp [Tree.above, hx])
    · obtain rfl := List.mem_singleton.mp hx
      exact Forest.node?_grow hn (x := .above 0 _ p.tree.kind p.span) (by simp [Tree.above])
  refine ⟨by rw [plant_eq]; rfl, ?_, ?_, ?_, ?_, ?_⟩
  · intro x hx
    simp [Forest.kindOf?, hnode x hx]
  · intro x hx
    simp [Forest.spanOf, hnode x hx]
  · intro x hx
    rcases List.mem_append.mp (p.subtrees_tree.mem_iff.mp hx) with hx | hx
    · obtain ⟨t, ht, hx⟩ := List.mem_flatMap.mp hx
      obtain ⟨d, -, m, rfl⟩ := Tree.mem_row ht
      exact d.listed m x hx
    · obtain rfl := List.mem_singleton.mp hx
      simp [tree, Kind.children]
  · exact hids.nodup_iff.mpr List.nodup_range'
  · intro id hid
    exact hids.mem_iff.mpr (by simpa [List.mem_range'_1] using hid)

end Program

end DecafCheck
