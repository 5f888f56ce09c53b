import DecafCheck.Proofs.Program.Bare
import DecafCheck.Proofs.Tree.Parts

namespace DecafCheck

def Parameter.moved (φ : Span → Span) (p : Parameter) : Parameter :=
  { p with span := φ p.span }

/-- Sees no span. -/
def Span.forget (_ : Span) : Span :=
  .nowhere

/-- A kind without the numbers in it. -/
def Kind.sketch (φ : Span → Span) : Kind → Kind
  | .program vars functions => .program (vars.map fun _ => 0) (functions.map fun _ => 0)
  | .function name returns parameters _ => .function name returns (parameters.map (.moved φ)) 0
  | .block vars statements => .block (vars.map fun _ => 0) (statements.map fun _ => 0)
  | .variable name type length => .variable name type length
  | .assignment _ _ => .assignment 0 0
  | .conditional _ _ no => .conditional 0 0 (no.map fun _ => 0)
  | .whileLoop _ _ => .whileLoop 0 0
  | .ret value => .ret (value.map fun _ => 0)
  | .jump j => .jump j
  | .callStatement name arguments => .callStatement name (arguments.map fun _ => 0)
  | .binary op _ _ => .binary op 0 0
  | .unary op _ => .unary op 0
  | .call name arguments => .call name (arguments.map fun _ => 0)
  | .location name index => .location name (index.map fun _ => 0)
  | .literal value => .literal value

theorem Kind.opensScope_sketch (φ : Span → Span) (k : Kind) :
    (k.sketch φ).opensScope = k.opensScope := by
  cases k <;> rfl

namespace Tree

mutual

def sketch (φ : Span → Span) : Tree → Tree
  | node _ kind span children => node 0 (kind.sketch φ) (φ span) (sketchAll φ children)

def sketchAll (φ : Span → Span) : List Tree → List Tree
  | [] => []
  | t :: ts => sketch φ t :: sketchAll φ ts

end

section Sketch

variable (φ : Span → Span)

theorem sketchAll_eq (ts : List Tree) : sketchAll φ ts = ts.map (sketch φ) := by
  induction ts with
  | nil => rfl
  | cons t ts ih => rw [sketchAll, ih, List.map_cons]

theorem sketch_node (id : NodeId) (kind : Kind) (span : Span) (cs : List Tree) :
    (node id kind span cs).sketch φ = node 0 (kind.sketch φ) (φ span) (cs.map (sketch φ)) := by
  rw [sketch, sketchAll_eq]

theorem kind_sketch (t : Tree) : (t.sketch φ).kind = t.kind.sketch φ := by
  cases t
  rw [sketch_node]
  rfl

theorem span_sketch (t : Tree) : (t.sketch φ).span = φ t.span := by
  cases t
  rw [sketch_node]
  rfl

theorem children_sketch (t : Tree) : (t.sketch φ).children = t.children.map (sketch φ) := by
  cases t
  rw [sketch_node]
  rfl

end Sketch

section Alike

variable {φ φ' : Span → Span}

theorem sketch_above_eq {n n' : Nat} {cs cs' : List Tree} {kind kind' : Kind} {span span' : Span}
    (hk : kind.sketch φ = kind'.sketch φ') (hs : φ span = φ' span')
    (hcs : cs.map (sketch φ) = cs'.map (sketch φ')) :
    (above n cs kind span).sketch φ = (above n' cs' kind' span').sketch φ' := by
  rw [above, above, sketch_node, sketch_node, hk, hs, hcs]

/-- The trees of two things have the same sketch, however they are numbered. -/
def Sketched {α : Type} (φ φ' : Span → Span) (tree : Nat → α → Tree) (a b : α) : Prop :=
  ∀ n m, (tree n a).sketch φ = (tree m b).sketch φ'

theorem sketch_row_eq {α : Type} {tree : Nat → α → Tree} {as bs : List α}
    (h : List.Forall₂ (Sketched φ φ' tree) as bs) (n m : Nat) :
    (row tree n as).map (sketch φ) = (row tree m bs).map (sketch φ') := by
  induction h generalizing n m with
  | nil => rfl
  | cons hab _ ih => rw [row, row, List.map_cons, List.map_cons, hab n m, ih]

/-- How many children there are can be seen in a sketch. -/
theorem zeros_eq {cs cs' : List Tree} (h : cs.map (sketch φ) = cs'.map (sketch φ')) :
    (cs.map Tree.id).map (fun _ => 0) = (cs'.map Tree.id).map fun _ => 0 := by
  have hlength := congrArg List.length h
  simp only [List.length_map] at hlength
  simp only [List.map_const', List.length_map, hlength]

theorem zero?_eq {cs cs' : List Tree} (h : cs.map (sketch φ) = cs'.map (sketch φ')) :
    (cs.head?.map Tree.id).map (fun _ => 0) = (cs'.head?.map Tree.id).map fun _ => 0 := by
  have hzeros := congrArg List.head? (zeros_eq h)
  simpa only [List.head?_map] using hzeros

end Alike

end Tree

open DecafCheck.Tree

variable {φ φ' : Span → Span} {span span' : Span}

namespace Expr

theorem sketched_literal (value : Literal) (hs : φ span = φ' span') :
    Sketched φ φ' tree (.literal value span) (.literal value span') :=
  fun _ _ => sketch_above_eq rfl hs rfl

theorem sketched_location {index index' : Option Expr} (name : String) (hs : φ span = φ' span')
    (hi : List.Forall₂ (Sketched φ φ' tree) index.toList index'.toList) :
    Sketched φ φ' tree (.location name index span) (.location name index' span') := by
  intro n m
  have hcs := sketch_row_eq hi n m
  rw [tree_location, tree_location]
  exact sketch_above_eq (congrArg (Kind.location name) (zero?_eq hcs)) hs hcs

theorem sketched_call {es es' : List Expr} (name : String) (hs : φ span = φ' span')
    (he : List.Forall₂ (Sketched φ φ' tree) es es') :
    Sketched φ φ' tree (.call name es span) (.call name es' span') := by
  intro n m
  have hcs := sketch_row_eq he n m
  rw [tree_call, tree_call]
  exact sketch_above_eq (congrArg (Kind.call name) (zeros_eq hcs)) hs hcs

theorem sketched_unary {e e' : Expr} (op : UnaryOp) (hs : φ span = φ' span')
    (he : Sketched φ φ' tree e e') :
    Sketched φ φ' tree (.unary op e span) (.unary op e' span') :=
  fun n m => sketch_above_eq rfl hs (congrArg (fun t => [t]) (he n m))

theorem sketched_binary {l l' r r' : Expr} (op : BinaryOp) (hs : φ span = φ' span')
    (hl : Sketched φ φ' tree l l') (hr : Sketched φ φ' tree r r') :
    Sketched φ φ' tree (.binary op l r span) (.binary op l' r' span') :=
  fun n m => sketch_above_eq rfl hs (congrArg₂ (fun t u => [t, u]) (hl n m) (hr _ _))

/-- An expression and what is left of it without spans. -/
theorem sketched_bare (e : Expr) : Sketched .forget .forget tree e e.bare := by
  induction e with
  | literal value span => exact sketched_literal value rfl
  | location name index span ih =>
    rw [bare_location]
    refine sketched_location name rfl ?_
    cases index with
    | none => exact .nil
    | some i => exact .cons (ih i rfl) .nil
  | call name arguments span ih =>
    rw [bare_call]
    exact sketched_call name rfl (List.forall₂_map_right_iff.mpr (List.forall₂_same.mpr ih))
  | unary op operand span ih => exact sketched_unary op rfl ih
  | binary op left right span ihl ihr => exact sketched_binary op rfl ihl ihr

end Expr

theorem Variable.sketched {v v' : Variable} (hname : v.name = v'.name) (htype : v.type = v'.type)
    (hlength : v.length = v'.length) (hs : φ v.span = φ' v'.span) : Sketched φ φ' tree v v' := by
  intro n m
  rw [tree, tree, hname, htype, hlength]
  exact sketch_above_eq rfl hs rfl

namespace Stmt

variable {e e' : Expr}

theorem sketched_assign {index index' : Option Expr} {target target' : Span} (name : String)
    (hs : φ span = φ' span') (hl : Sketched φ φ' Expr.tree (.location name index target)
      (.location name index' target'))
    (he : Sketched φ φ' Expr.tree e e') :
    Sketched φ φ' tree (.assign name index target e span) (.assign name index' target' e' span') :=
  fun n m => sketch_above_eq rfl hs (congrArg₂ (fun t u => [t, u]) (hl n m) (he _ _))

theorem sketched_call {es es' : List Expr} (name : String) (hs : φ span = φ' span')
    (he : List.Forall₂ (Sketched φ φ' Expr.tree) es es') :
    Sketched φ φ' tree (.call name es span) (.call name es' span') := by
  intro n m
  have hcs := sketch_row_eq he n m
  exact sketch_above_eq (congrArg (Kind.callStatement name) (zeros_eq hcs)) hs hcs

theorem sketched_branch {yes yes' : Block} {no no' : Option Block} (hs : φ span = φ' span')
    (he : Sketched φ φ' Expr.tree e e') (hyes : Sketched φ φ' Block.tree yes yes')
    (hno : List.Forall₂ (Sketched φ φ' Block.tree) no.toList no'.toList) :
    Sketched φ φ' tree (.branch e yes no span) (.branch e' yes' no' span') := by
  intro n m
  cases no with
  | none =>
    cases no' with
    | none => exact sketch_above_eq rfl hs (congrArg₂ (fun t u => [t, u]) (he n m) (hyes _ _))
    | some no' => cases hno
  | some no =>
    cases no' with
    | none => cases hno
    | some no' =>
      obtain ⟨hno, -⟩ := List.forall₂_cons.mp hno
      exact sketch_above_eq rfl hs
        (congrArg₂ List.cons (he n m) (congrArg₂ (fun t u => [t, u]) (hyes _ _) (hno _ _)))

theorem sketched_loop {body body' : Block} (hs : φ span = φ' span')
    (he : Sketched φ φ' Expr.tree e e') (hbody : Sketched φ φ' Block.tree body body') :
    Sketched φ φ' tree (.loop e body span) (.loop e' body' span') :=
  fun n m => sketch_above_eq rfl hs (congrArg₂ (fun t u => [t, u]) (he n m) (hbody _ _))

theorem sketched_ret {value value' : Option Expr} (hs : φ span = φ' span')
    (he : List.Forall₂ (Sketched φ φ' Expr.tree) value.toList value'.toList) :
    Sketched φ φ' tree (.ret value span) (.ret value' span') := by
  intro n m
  have hcs := sketch_row_eq he n m
  exact sketch_above_eq (congrArg Kind.ret (zero?_eq hcs)) hs hcs

theorem sketched_jump (j : Jump) (hs : φ span = φ' span') :
    Sketched φ φ' tree (.jump j span) (.jump j span') :=
  fun _ _ => sketch_above_eq rfl hs rfl

end Stmt

theorem Block.sketched_mk {vars vars' : List Variable} {statements statements' : List Stmt}
    (hs : φ span = φ' span') (hvars : List.Forall₂ (Sketched φ φ' Variable.tree) vars vars')
    (hstatements : List.Forall₂ (Sketched φ φ' Stmt.tree) statements statements') :
    Sketched φ φ' tree (.mk vars statements span) (.mk vars' statements' span') := by
  intro n m
  have hvs := sketch_row_eq hvars n m
  have hss := sketch_row_eq hstatements (after n (row Variable.tree n vars))
    (after m (row Variable.tree m vars'))
  rw [tree_mk, tree_mk]
  refine sketch_above_eq (congrArg₂ Kind.block (zeros_eq hvs) (zeros_eq hss)) hs ?_
  rw [List.map_append, List.map_append, hvs, hss]

theorem Function.sketched {g g' : Function} (hname : g.name = g'.name)
    (hreturns : g.returns = g'.returns)
    (hparameters : g.parameters.map (Parameter.moved φ) = g'.parameters.map (Parameter.moved φ'))
    (hbody : Sketched φ φ' Block.tree g.body g'.body) (hs : φ g.span = φ' g'.span) :
    Sketched φ φ' tree g g' := by
  intro n m
  refine sketch_above_eq ?_ hs (congrArg (fun t => [t]) (hbody n m))
  rw [Kind.sketch, Kind.sketch, hname, hreturns, hparameters]

theorem Stmt.sketched_bare_and :
    (∀ s : Stmt, Sketched .forget .forget tree s s.bare) ∧
      ∀ b : Block, Sketched .forget .forget Block.tree b b.bare := by
  have hoption (o : Option Expr) :
      List.Forall₂ (Sketched .forget .forget Expr.tree) o.toList (o.map Expr.bare).toList := by
    cases o with
    | none => exact .nil
    | some e => exact .cons e.sketched_bare .nil
  apply Stmt.induct
  case assign =>
    intro name index target value span
    exact sketched_assign name rfl (Expr.sketched_location name rfl (hoption index))
      value.sketched_bare
  case call =>
    intro name arguments span
    refine sketched_call name rfl (List.forall₂_map_right_iff.mpr (List.forall₂_same.mpr ?_))
    exact fun e _ => e.sketched_bare
  case branch =>
    intro condition yes no span hyes hno
    refine sketched_branch rfl condition.sketched_bare hyes ?_
    cases no with
    | none => exact .nil
    | some no => exact .cons (hno no rfl) .nil
  case loop => exact fun guard body span hbody => sketched_loop rfl guard.sketched_bare hbody
  case ret => exact fun value span => sketched_ret rfl (hoption value)
  case jump => exact fun j span => sketched_jump j rfl
  case mk =>
    intro vars statements span ih
    rw [Block.bare, Stmt.bareAll_eq]
    refine Block.sketched_mk rfl
      (List.forall₂_map_right_iff.mpr (List.forall₂_same.mpr fun v _ => ?_))
      (List.forall₂_map_right_iff.mpr (List.forall₂_same.mpr ih))
    exact Variable.sketched rfl rfl rfl rfl

theorem Function.sketched_of_bare_eq {g g' : Function} (h : g.bare = g'.bare) :
    Sketched .forget .forget tree g g' := by
  have hbare (g : Function) : Sketched .forget .forget tree g g.bare := by
    refine Function.sketched rfl rfl ?_ (Stmt.sketched_bare_and.2 g.body) rfl
    rw [Function.bare, List.map_map]
    rfl
  intro n m
  rw [hbare g n 0, h, ← hbare g' m 0]

end DecafCheck
