import DecafCheck.Proofs.Grammar.Statement
import DecafCheck.Proofs.Token.Brackets

namespace DecafCheck

open Token

theorem UnaryOp.plain_token (op : UnaryOp) : op.token.Plain := by
  cases op <;> exact fun _ => rfl

theorem BinaryOp.plain_token (op : BinaryOp) : op.token.Plain := by
  cases op <;> exact fun _ => rfl

theorem DataType.plain_token (type : DataType) : type.token.Plain := by
  cases type <;> exact fun _ => rfl

theorem Token.plain_identifier (name : String) : (identifier name).Plain := fun _ => rfl

theorem Token.plain_semicolon : (mark .semicolon).Plain := fun _ => rfl

namespace Form

variable {δ α : Type} {F : Form δ α} {ds : List δ} (h : ∀ d ∈ ds, Balanced (F.tokens d))

include h

theorem balanced_many : Balanced (F.many.tokens ds) := by
  induction ds with
  | nil => exact .nil
  | cons d ds ih =>
    rw [tokens_many_cons]
    exact (h d List.mem_cons_self).append (ih fun e he => h e (List.mem_cons_of_mem d he))

theorem balanced_row : Balanced (F.row.tokens ds) := by
  cases ds with
  | nil => exact .nil
  | cons d ds =>
    have hlater : ∀ e ∈ ds, Balanced ((F.behind (.mark .comma)).tokens e) :=
      fun e he => (h e (List.mem_cons_of_mem d he)).cons fun _ => rfl
    rw [tokens_row_cons]
    exact (h d List.mem_cons_self).append (balanced_many hlater)

theorem balanced_parenthesized : Balanced (F.parenthesized.tokens ds) :=
  (balanced_row h).enclosed rfl

end Form

namespace Concrete

namespace Expr

def operands : Expr → List Expr
  | .unary _ operand => [operand]
  | .binary _ left right => [left, right]
  | _ => []

def isGroup : Expr → Bool
  | .group _ => true
  | _ => false

theorem isGroup_eq_false_of_operands {d : Expr} (h : d.operands ≠ []) : d.isGroup = false := by
  cases d with
  | group => exact absurd rfl h
  | _ => rfl

/-- No operand is in parentheses. -/
def Ungrouped (d : Expr) : Prop :=
  ∀ o ∈ d.operands, o.isGroup = false

theorem ungrouped_unary {op : UnaryOp} {operand : Expr} :
    (unary op operand).Ungrouped ↔ operand.isGroup = false :=
  List.forall_mem_singleton

theorem ungrouped_binary {op : BinaryOp} {left right : Expr} :
    (binary op left right).Ungrouped ↔ left.isGroup = false ∧ right.isGroup = false := by
  simp [Ungrouped, operands]

mutual

/-- The operators with their operands, an operator behind those in its operands. -/
def operators : Expr → List Expr
  | .integer _ => []
  | .truth _ => []
  | .location _ none => []
  | .location _ (some index) => operators index
  | .call _ arguments => operatorsAll arguments
  | .group inner => operators inner
  | .unary op operand => operators operand ++ [.unary op operand]
  | .binary op left right => operators left ++ (operators right ++ [.binary op left right])

def operatorsAll : List Expr → List Expr
  | [] => []
  | e :: rest => operators e ++ operatorsAll rest

end

theorem operatorsAll_eq (ds : List Expr) : operatorsAll ds = ds.flatMap operators := by
  induction ds with
  | nil => rfl
  | cons d ds ih => rw [operatorsAll, ih, List.flatMap_cons]

theorem operators_location (name : String) (i : Option Expr) :
    operators (.location name i) = i.toList.flatMap operators := by
  cases i with
  | none => rfl
  | some d => rw [operators, Option.toList_some, List.flatMap_singleton]

/-- How many parentheses there are before the first leaf or unary operator. -/
def opened : Expr → Nat
  | .group inner => inner.opened + 1
  | .binary _ left _ => left.opened
  | _ => 0

/-- How many parentheses there are behind the last leaf. -/
def closed : Expr → Nat
  | .group inner => inner.closed + 1
  | .unary _ operand => operand.closed
  | .binary _ _ right => right.closed
  | _ => 0

theorem balanced {d : Expr} (hd : d.Proper) : Balanced d.tokens := by
  induction hd with
  | integer => exact .cons (fun _ => rfl) .nil
  | @truth value => cases value <;> exact .cons (fun _ => rfl) .nil
  | @location name i _ ih =>
    rw [tokens_location]
    refine .cons (plain_identifier name) ?_
    cases i with
    | none => exact .nil
    | some d => exact (ih d rfl).enclosed rfl
  | @call name ds _ ih =>
    rw [tokens_call]
    exact .cons (plain_identifier name) (Form.balanced_parenthesized ih)
  | group _ ih => exact ih.enclosed rfl
  | @unary op _ _ _ ih => exact .cons op.plain_token ih
  | @binary op _ _ _ _ _ _ ihl ihr => exact ihl.append (.cons op.plain_token ihr)

/-- What is between the parentheses before and behind a derivation. It is balanced only if there are
no such parentheses, unless the derivation is something in parentheses itself. -/
structure Core (d : Expr) (core : List Token) : Prop where
  nonempty : core ≠ []
  tokens : d.tokens = List.replicate d.opened (.mark .leftParen) ++
      (core ++ List.replicate d.closed (.mark .rightParen))
  balanced : d.isGroup = false → (Balanced core ↔ d.opened = 0 ∧ d.closed = 0)

theorem core_tokens {d : Expr} (hd : d.Proper) (hne : d.tokens ≠ []) (ho : d.opened = 0)
    (hc : d.closed = 0) :
    d.Core d.tokens := by
  refine ⟨hne, ?_, fun _ => iff_of_true (balanced hd) ⟨ho, hc⟩⟩
  rw [ho, hc]
  simp

theorem exists_core {d : Expr} (hd : d.Proper) : ∃ core, d.Core core := by
  induction hd with
  | integer h => exact ⟨_, core_tokens (.integer h) (List.cons_ne_nil _ _) rfl rfl⟩
  | truth => exact ⟨_, core_tokens .truth (List.cons_ne_nil _ _) rfl rfl⟩
  | @location name i h _ =>
    exact ⟨_, core_tokens (.location h) (tokens_location name i ▸ List.cons_ne_nil _ _) rfl rfl⟩
  | call h _ => exact ⟨_, core_tokens (.call h) (List.cons_ne_nil _ _) rfl rfl⟩
  | group _ ih =>
    obtain ⟨core, hne, htokens, -⟩ := ih
    refine ⟨core, hne, ?_, fun hg => nomatch hg⟩
    rw [tokens_group, htokens, opened, closed, List.replicate_succ, List.replicate_succ']
    simp only [List.cons_append, List.append_assoc]
  | @unary op operand _ hproper ih =>
    obtain ⟨core, hne, htokens, -⟩ := ih
    have hbalanced := balanced hproper
    rw [htokens, ← List.append_assoc] at hbalanced
    refine ⟨op.token :: (List.replicate operand.opened (.mark .leftParen) ++ core),
      List.cons_ne_nil _ _, ?_, fun _ => ?_⟩
    · have hopened : (unary op operand).opened = 0 := rfl
      rw [tokens, htokens, hopened, closed]
      simp only [List.replicate_zero, List.nil_append, List.cons_append, List.append_assoc]
    · have hnil : Balanced (List.replicate 0 (.mark .leftParen) ++ []) := .nil
      exact balanced_cut_iff op.plain_token hnil hbalanced
  | @binary op left right _ _ hleft hright ihl ihr =>
    obtain ⟨core, hne, htokens, -⟩ := ihl
    obtain ⟨core', hne', htokens', -⟩ := ihr
    have hbalanced := balanced hleft
    have hbalanced' := balanced hright
    rw [htokens] at hbalanced
    rw [htokens', ← List.append_assoc] at hbalanced'
    refine ⟨core ++ List.replicate left.closed (.mark .rightParen) ++
      op.token :: (List.replicate right.opened (.mark .leftParen) ++ core'), ?_, ?_, fun _ => ?_⟩
    · simp [hne]
    · rw [tokens, htokens, htokens', opened, closed]
      simp only [List.cons_append, List.append_assoc]
    · exact balanced_cut_iff op.plain_token hbalanced hbalanced'

theorem cut_of_isGroup {d : Expr} (h : d.isGroup = true) : d.opened ≠ 0 ∧ d.closed ≠ 0 := by
  cases d with
  | group inner => exact ⟨Nat.succ_ne_zero _, Nat.succ_ne_zero _⟩
  | _ => cases h

/-- Without parentheses around operands, there are none before and behind. -/
theorem uncut_of_ungrouped {d : Expr} (hd : d.Proper) (h : ∀ e ∈ d.operators, e.Ungrouped)
    (hg : d.isGroup = false) :
    d.opened = 0 ∧ d.closed = 0 := by
  induction hd with
  | group => cases hg
  | @unary op operand _ _ ih =>
    rw [operators, List.forall_mem_append, List.forall_mem_singleton] at h
    exact ⟨rfl, (ih h.1 (ungrouped_unary.mp h.2)).2⟩
  | @binary op left right _ _ _ _ ihl ihr =>
    rw [operators, List.forall_mem_append, List.forall_mem_append, List.forall_mem_singleton] at h
    obtain ⟨hl, hr, hungrouped⟩ := h
    obtain ⟨hleft, hright⟩ := ungrouped_binary.mp hungrouped
    exact ⟨(ihl hl hleft).1, (ihr hr hright).2⟩
  | _ => exact ⟨rfl, rfl⟩

theorem uncut_iff_ungrouped {d : Expr} (hd : d.Proper) (hop : d.operands ≠ [])
    (h : ∀ o ∈ d.operands, ∀ e ∈ o.operators, e.Ungrouped) :
    (d.opened = 0 ∧ d.closed = 0) ↔ d.Ungrouped := by
  have hnot {o : Expr} (ho : o.opened = 0 ∨ o.closed = 0) : o.isGroup = false := by
    refine eq_false_of_ne_true fun hg => ?_
    obtain ⟨hopened, hclosed⟩ := cut_of_isGroup hg
    exact ho.elim hopened hclosed
  cases d with
  | unary op operand =>
    have hsub := h operand List.mem_cons_self
    constructor
    · rintro ⟨-, hc⟩
      exact ungrouped_unary.mpr (hnot (.inr hc))
    · intro hungrouped
      refine uncut_of_ungrouped hd ?_ rfl
      rw [operators, List.forall_mem_append, List.forall_mem_singleton]
      exact ⟨hsub, hungrouped⟩
  | binary op left right =>
    have hsubl := h left List.mem_cons_self
    have hsubr := h right (List.mem_cons_of_mem left List.mem_cons_self)
    constructor
    · rintro ⟨ho, hc⟩
      exact ungrouped_binary.mpr ⟨hnot (.inl ho), hnot (.inr hc)⟩
    · intro hungrouped
      refine uncut_of_ungrouped hd ?_ rfl
      rw [operators, List.forall_mem_append, List.forall_mem_append, List.forall_mem_singleton]
      exact ⟨hsubl, hsubr, hungrouped⟩
  | _ => exact absurd rfl hop

end Expr

theorem Variable.balanced (v : Variable) : Balanced v.tokens := by
  refine .cons v.type.plain_token
    (.cons (plain_identifier v.name) (.append ?_ (.cons plain_semicolon .nil)))
  cases v.length with
  | none => exact .nil
  | some spelling =>
    have hlength : Balanced [.integer spelling] := .cons (fun _ => rfl) .nil
    exact hlength.enclosed rfl

mutual

def Stmt.operators : Stmt → List Expr
  | .assign name index value => (Expr.location name index).operators ++ value.operators
  | .call _ arguments => arguments.flatMap Expr.operators
  | .branch condition yes no =>
    condition.operators ++ (Block.operators yes ++ Block.elseOperators no)
  | .loop guard body => guard.operators ++ Block.operators body
  | .ret value => value.toList.flatMap Expr.operators
  | .jump _ => []

def Block.operators : Block → List Expr
  | .mk _ statements => Stmt.operatorsAll statements

def Block.elseOperators : Option Block → List Expr
  | none => []
  | some b => Block.operators b

def Stmt.operatorsAll : List Stmt → List Expr
  | [] => []
  | s :: rest => Stmt.operators s ++ Stmt.operatorsAll rest

end

theorem Stmt.operatorsAll_eq (ss : List Stmt) :
    Stmt.operatorsAll ss = ss.flatMap Stmt.operators := by
  induction ss with
  | nil => rfl
  | cons s ss ih => rw [Stmt.operatorsAll, ih, List.flatMap_cons]

/-- A statement's head: a word and something in parentheses. -/
theorem Expr.balanced_head {t : Token} (ht : t.Plain) {d : Expr} (hd : d.Proper) {ts : List Token}
    (hts : Balanced ts) :
    Balanced (t :: .mark .leftParen :: (d.tokens ++ .mark .rightParen :: ts)) := by
  have hgroup : Balanced (.mark .leftParen :: (d.tokens ++ [.mark .rightParen])) :=
    (balanced hd).enclosed rfl
  have happend := hgroup.append hts
  rw [List.cons_append, List.append_assoc] at happend
  exact .cons ht happend

mutual

theorem Stmt.balanced : ∀ {s : Stmt}, s.Proper → Balanced s.tokens
  | .assign name i v, .assign hi hv => by
    rw [Stmt.tokens_assign]
    have hlocation : (Expr.location name i).Proper := .location hi
    exact (Expr.balanced hlocation).append
      (.cons (fun _ => rfl) ((Expr.balanced hv).append (.cons plain_semicolon .nil)))
  | .call name ds, .call hds => by
    rw [Stmt.tokens_call]
    have hcall : (Expr.call name ds).Proper := .call hds
    exact (Expr.balanced hcall).append (.cons plain_semicolon .nil)
  | .branch d yes none, .branch hd hyes _ => by
    rw [Stmt.tokens]
    exact Expr.balanced_head (fun _ => rfl) hd ((Block.balanced hyes).append .nil)
  | .branch d yes (some no), .branch hd hyes hno => by
    rw [Stmt.tokens]
    exact Expr.balanced_head (fun _ => rfl) hd
      ((Block.balanced hyes).append (.cons (fun _ => rfl) (Block.balanced (hno no rfl))))
  | .loop d body, .loop hd hbody => by
    rw [Stmt.tokens]
    exact Expr.balanced_head (fun _ => rfl) hd (Block.balanced hbody)
  | .ret none, _ => .cons (fun _ => rfl) (.cons plain_semicolon .nil)
  | .ret (some d), .ret hd => by
    rw [Stmt.tokens]
    exact .cons (fun _ => rfl) ((Expr.balanced (hd d rfl)).append (.cons plain_semicolon .nil))
  | .jump j, _ => by
    cases j <;> exact .cons (fun _ => rfl) (.cons plain_semicolon .nil)

theorem Block.balanced : ∀ {b : Block}, b.Proper → Balanced b.tokens
  | .mk vars ss, .mk _ hss => by
    rw [Block.tokens_mk, ← List.append_assoc]
    have hvars : Balanced (Variable.form.many.tokens vars) :=
      Form.balanced_many fun v _ => v.balanced
    have hstatements : Balanced (Stmt.form.many.tokens ss) :=
      Form.balanced_many fun s hs => Stmt.balanced (hss s hs)
    exact (hvars.append hstatements).enclosed rfl

end

theorem Function.balanced {g : Function} (hg : g.Proper) : Balanced g.tokens := by
  have hparameters : Balanced (Parameter.form.parenthesized.tokens g.parameters) :=
    Form.balanced_parenthesized fun q _ => .cons q.type.plain_token
      (.cons (plain_identifier q.name) .nil)
  exact .cons (fun _ => rfl) (.cons g.returns.plain_token (.cons (plain_identifier g.name)
    (hparameters.append (Block.balanced hg))))

def Declaration.operators : Declaration → List Expr
  | .variable _ => []
  | .function g => g.body.operators

theorem Declaration.balanced {d : Declaration} (hd : d.Proper) : Balanced d.tokens := by
  rcases d with v | g
  · exact v.balanced
  · exact Function.balanced hd

/-- The operators in a program, with their operands. -/
def Program.operators (p : Program) : List Expr :=
  p.declarations.flatMap Declaration.operators

end Concrete

end DecafCheck
