import DecafCheck.Proofs.Tree.Planting

namespace DecafCheck

namespace Tree

/-- Trees of things in order, however they are numbered. -/
def Each {α : Type} (tree : Nat → α → Tree) (as : List α) (ts : List Tree) : Prop :=
  List.Forall₂ (fun a t => ∃ m, t = tree m a) as ts

theorem each_row {α : Type} (tree : Nat → α → Tree) (n : Nat) (as : List α) :
    Each tree as (row tree n as) := by
  induction as generalizing n with
  | nil => exact .nil
  | cons a as ih => exact .cons ⟨n, rfl⟩ (ih _)

theorem Each.mem {α : Type} {tree : Nat → α → Tree} {as : List α} {ts : List Tree}
    (h : Each tree as ts) {t : Tree} (ht : t ∈ ts) : ∃ a ∈ as, ∃ m, t = tree m a := by
  induction h with
  | nil => exact absurd ht List.not_mem_nil
  | @cons a t' as ts hat _ ih =>
    rcases List.mem_cons.mp ht with rfl | ht
    · exact ⟨a, List.mem_cons_self, hat⟩
    · obtain ⟨b, hb, hm⟩ := ih ht
      exact ⟨b, List.mem_cons_of_mem a hb, hm⟩

/-- What the trees come to, where the numbers do not matter. -/
theorem Each.map_eq {α β : Type} {tree : Nat → α → Tree} {as : List α} {ts : List Tree}
    (h : Each tree as ts) {φ : Tree → β} {ψ : α → β}
    (hφ : ∀ a ∈ as, ∀ m, tree m a ∈ ts → φ (tree m a) = ψ a) :
    ts.map φ = as.map ψ := by
  induction h with
  | nil => rfl
  | @cons a t as ts hat _ ih =>
    obtain ⟨m, rfl⟩ := hat
    rw [List.map_cons, List.map_cons, hφ a List.mem_cons_self m List.mem_cons_self,
      ih fun b hb k hk => hφ b (List.mem_cons_of_mem a hb) k (List.mem_cons_of_mem _ hk)]

theorem Each.flatMap_eq {α β : Type} {tree : Nat → α → Tree} {as : List α} {ts : List Tree}
    (h : Each tree as ts) {φ : Tree → List β} {ψ : α → List β}
    (hφ : ∀ a ∈ as, ∀ m, tree m a ∈ ts → φ (tree m a) = ψ a) :
    ts.flatMap φ = as.flatMap ψ := by
  rw [List.flatMap_def, List.flatMap_def, h.map_eq hφ]

end Tree

namespace Program

theorem each_vars (p : Program) :
    Tree.Each Variable.tree p.vars (Declaration.variableTrees 0 p.declarations) := by
  rw [vars]
  generalize p.declarations = ds
  generalize 0 = n
  induction ds generalizing n with
  | nil => exact .nil
  | cons d ds ih =>
    rcases d with v | g
    · exact .cons ⟨n, rfl⟩ (ih _)
    · exact ih _

theorem each_functions (p : Program) :
    Tree.Each Function.tree p.functions (Declaration.functionTrees 0 p.declarations) := by
  rw [functions]
  generalize p.declarations = ds
  generalize 0 = n
  induction ds generalizing n with
  | nil => exact .nil
  | cons d ds ih =>
    rcases d with v | g
    · exact ih _
    · exact .cons ⟨n, rfl⟩ (ih _)

/-- A program lists variables and functions. -/
theorem mem_children {p : Program} {c : Tree} (hc : c ∈ p.tree.children) :
    (∃ v m, c = Variable.tree m v) ∨ ∃ g m, c = Function.tree m g := by
  rcases List.mem_append.mp hc with hc | hc
  · obtain ⟨v, -, m, rfl⟩ := p.each_vars.mem hc
    exact .inl ⟨v, m, rfl⟩
  · obtain ⟨g, -, m, rfl⟩ := p.each_functions.mem hc
    exact .inr ⟨g, m, rfl⟩

end Program

theorem Block.each_statements (b : Block) (n : Nat) :
    ∃ vars ts, (b.tree n).kind = .block vars (ts.map Tree.id) ∧
      Tree.Each Stmt.tree b.statements ts ∧
      ∀ c ∈ ts, c ∈ (b.tree n).children := by
  obtain ⟨vars, statements, span⟩ := b
  rw [Block.tree_mk]
  exact ⟨_, _, rfl, Tree.each_row _ _ _, fun c hc => List.mem_append_right _ hc⟩

/-- What a program is made of. -/
inductive Part
  | function (g : Function)
  | block (b : Block)
  | variable (v : Variable)
  | statement (s : Stmt)
  | expression (e : Expr)

namespace Part

/-- The tree of a part, numbered from `n` on. -/
def tree (n : Nat) : Part → Tree
  | .function g => g.tree n
  | .block b => b.tree n
  | .variable v => v.tree n
  | .statement s => s.tree n
  | .expression e => e.tree n

theorem child_of_expression {e : Expr} {n : Nat} {c : Tree} (hc : c ∈ (e.tree n).children) :
    ∃ a m, c = Expr.tree m a := by
  cases e with
  | literal value span => exact absurd hc List.not_mem_nil
  | location name index span =>
    rw [Expr.tree_location] at hc
    obtain ⟨a, -, m, rfl⟩ := Tree.mem_row hc
    exact ⟨a, m, rfl⟩
  | call name arguments span =>
    rw [Expr.tree_call] at hc
    obtain ⟨a, -, m, rfl⟩ := Tree.mem_row hc
    exact ⟨a, m, rfl⟩
  | unary op operand span =>
    obtain rfl := List.mem_singleton.mp hc
    exact ⟨operand, n, rfl⟩
  | binary op left right span =>
    rcases List.mem_pair.mp hc with rfl | rfl
    · exact ⟨left, n, rfl⟩
    · exact ⟨right, _, rfl⟩

theorem child_of_statement {s : Stmt} {n : Nat} {c : Tree} (hc : c ∈ (s.tree n).children) :
    (∃ a m, c = Expr.tree m a) ∨ ∃ b m, c = Block.tree m b := by
  cases s with
  | assign name index target value span =>
    rcases List.mem_pair.mp hc with rfl | rfl
    · exact .inl ⟨.location name index target, n, rfl⟩
    · exact .inl ⟨value, _, rfl⟩
  | call name arguments span =>
    obtain ⟨a, -, m, rfl⟩ := Tree.mem_row hc
    exact .inl ⟨a, m, rfl⟩
  | branch condition yes no span =>
    cases no with
    | none =>
      rcases List.mem_pair.mp hc with rfl | rfl
      · exact .inl ⟨condition, n, rfl⟩
      · exact .inr ⟨yes, _, rfl⟩
    | some no =>
      rcases List.mem_cons.mp hc with rfl | hc
      · exact .inl ⟨condition, n, rfl⟩
      · rcases List.mem_pair.mp hc with rfl | rfl
        · exact .inr ⟨yes, _, rfl⟩
        · exact .inr ⟨no, _, rfl⟩
  | loop guard body span =>
    rcases List.mem_pair.mp hc with rfl | rfl
    · exact .inl ⟨guard, n, rfl⟩
    · exact .inr ⟨body, _, rfl⟩
  | ret value span =>
    obtain ⟨a, -, m, rfl⟩ := Tree.mem_row hc
    exact .inl ⟨a, m, rfl⟩
  | jump j span => exact absurd hc List.not_mem_nil

theorem child_of_block {b : Block} {n : Nat} {c : Tree} (hc : c ∈ (b.tree n).children) :
    (∃ v m, c = Variable.tree m v) ∨ ∃ s m, c = Stmt.tree m s := by
  obtain ⟨vars, statements, span⟩ := b
  rw [Block.tree_mk] at hc
  rcases List.mem_append.mp hc with hc | hc
  · obtain ⟨v, -, m, rfl⟩ := Tree.mem_row hc
    exact .inl ⟨v, m, rfl⟩
  · obtain ⟨s, -, m, rfl⟩ := Tree.mem_row hc
    exact .inr ⟨s, m, rfl⟩

theorem child {q : Part} {n : Nat} {c : Tree} (hc : c ∈ (q.tree n).children) :
    ∃ r m, c = tree m r := by
  rcases q with g | b | v | s | e
  · obtain rfl := List.mem_singleton.mp hc
    exact ⟨.block g.body, n, rfl⟩
  · rcases child_of_block hc with ⟨v, m, rfl⟩ | ⟨s, m, rfl⟩
    · exact ⟨.variable v, m, rfl⟩
    · exact ⟨.statement s, m, rfl⟩
  · exact absurd hc List.not_mem_nil
  · rcases child_of_statement hc with ⟨a, m, rfl⟩ | ⟨b, m, rfl⟩
    · exact ⟨.expression a, m, rfl⟩
    · exact ⟨.block b, m, rfl⟩
  · obtain ⟨a, m, rfl⟩ := child_of_expression hc
    exact ⟨.expression a, m, rfl⟩

end Part

namespace Program

theorem child_part {p : Program} {c : Tree} (hc : c ∈ p.tree.children) :
    ∃ q m, c = Part.tree m q := by
  have hm := (Declaration.trees_perm 0 p.declarations).mem_iff.mp hc
  obtain ⟨v | g, -, m, rfl⟩ := Tree.mem_row hm
  · exact ⟨.variable v, m, rfl⟩
  · exact ⟨.function g, m, rfl⟩

/-- Below the program itself there are only parts. -/
theorem path_part {p : Program} {above : List Tree} {x : Tree} (h : p.tree.Path above x) :
    (above = [] ∧ x = p.tree) ∨ (above ≠ [] ∧ ∃ q m, x = Part.tree m q) := by
  induction h with
  | root => exact .inl ⟨rfl, rfl⟩
  | @child above y c _ hc ih =>
    refine .inr ⟨List.cons_ne_nil y above, ?_⟩
    rcases ih with ⟨-, rfl⟩ | ⟨-, q, m, rfl⟩
    · exact child_part hc
    · exact Part.child hc

end Program

end DecafCheck
