import DecafCheck.Program.Parser
import DecafCheck.Proofs.Grammar.Expression

namespace DecafCheck

namespace Concrete

section Variable

open DecafCheck.Parser

variable {c c' : Cursor} {bound : Nat}

/-- A length in brackets or nothing. -/
def lengthForm : Form (Option String) Nat where
  Proper o := ∀ spelling ∈ o, Integer.value spelling < arrayBound
  tokens := Variable.lengthTokens
  along _ o := (o.map Integer.value).getD 1

theorem spells_length_none {n : Nat} : lengthForm.Spells c none n c' ↔ 1 = n ∧ c = c' := by
  simp [Form.Spells, lengthForm, Variable.lengthTokens]

theorem spells_length_some {spelling : String} {n : Nat} :
    lengthForm.Spells c (some spelling) n c' ↔ Integer.value spelling < arrayBound ∧
      c.current = some (.mark .leftBracket) ∧ (c.forward 1).current = some (.integer spelling) ∧
        ((c.forward 1).forward 1).current = some (.mark .rightBracket) ∧
        Integer.value spelling = n ∧
          ((c.forward 1).forward 1).forward 1 = c' := by
  simp only [Form.Spells, lengthForm, Variable.lengthTokens, Option.mem_some_iff, forall_eq',
    Cursor.cons_prefix_iff, Cursor.forward_cons, List.nil_prefix, and_true, Option.map_some,
    Option.getD_some, List.length_nil, Cursor.forward_zero, and_assoc]

theorem reads_arrayLength : lengthForm.Reads arrayLength (· ≠ some (.mark .leftBracket)) bound := by
  constructor
  · intro c c' n hy
    simp only [arrayLength, yields_bind, yields_accept, yields_ite, yields_pure] at hy
    obtain ⟨_, _, ⟨ht, rfl, -, rfl⟩ | ⟨ht, rfl, rfl⟩, hy⟩ := hy
    · obtain ⟨-, ⟨found, span⟩, b, hb, hy⟩ | ⟨hf, -⟩ := hy
      · obtain ⟨hadvance, hfound⟩ := yields_take.mp hb
        obtain ⟨rfl, rfl⟩ := Prod.mk.inj hfound
        split at hy
        · next spelling hs =>
          obtain ⟨-, rfl⟩ := (Cursor.advance_eq_ok_iff hs).mp hadvance
          simp only [yields_bind, yields_integer, yields_ite, yields_expect, yields_pure,
            yields_failAt] at hy
          obtain ⟨_, _, ⟨-, rfl, rfl⟩, ⟨hlt, _, _, ⟨hr, -, rfl⟩, rfl, rfl⟩ | ⟨-, hf⟩⟩ := hy
          · exact ⟨some spelling, spells_length_some.mpr ⟨hlt, ht, hs, hr, rfl, rfl⟩⟩
          · exact hf.elim
        · exact absurd hy yields_failAt
      · exact absurd rfl hf
    · obtain ⟨hf, -⟩ | ⟨-, rfl, rfl⟩ := hy
      · cases hf
      · exact ⟨none, spells_length_none.mpr ⟨rfl, rfl⟩⟩
  · intro c c' d n hc _ hs he
    simp only [arrayLength, yields_bind, yields_accept, yields_ite, yields_pure]
    cases d with
    | none =>
      obtain ⟨rfl, rfl⟩ := spells_length_none.mp hs
      exact ⟨false, c, .inr ⟨he, rfl, rfl⟩, .inr ⟨Bool.false_ne_true, rfl, rfl⟩⟩
    | some spelling =>
      obtain ⟨hlt, ht, hi, hr, rfl, rfl⟩ := spells_length_some.mp hs
      have hbound : arrayBound ≤ integerBound := by decide
      have htake := yields_take.mpr ⟨(Cursor.advance_eq_ok_iff hi).mpr ⟨hc.forward.passes, rfl⟩,
        rfl⟩
      refine ⟨true, _, .inl ⟨ht, rfl, hc.passes, rfl⟩, .inl ⟨rfl, _, _, htake, ?_⟩⟩
      simp only [hi, yields_bind, yields_integer, yields_ite, yields_expect, yields_pure]
      exact ⟨_, _, ⟨hlt.trans_le hbound, rfl, rfl⟩,
        .inl ⟨hlt, (), _, ⟨hr, hc.forward.forward.passes, rfl⟩, rfl, rfl⟩⟩

theorem spells_variable {v : Variable} {a : DecafCheck.Variable} :
    Variable.form.Spells c v a c' ↔ c.current = some v.type.token ∧
      (c.forward 1).current = some (.identifier v.name) ∧
        ∃ n b, lengthForm.Spells ((c.forward 1).forward 1) v.length n b ∧
        b.current = some (.mark .semicolon) ∧
          b.forward 1 = c' ∧ ⟨v.name, v.type, n, c.span.merge c'.previous⟩ = a := by
  rw [Form.spells_iff_span (fun _ => .mk v.name v.type ((v.length.map Integer.value).getD 1))
    (fun _ => rfl) (List.cons_ne_nil _ _)]
  simp only [Variable.form, Variable.tokens, Cursor.cons_prefix_iff, Cursor.append_prefix_iff,
    Cursor.forward_cons, Cursor.forward_append]
  constructor
  · rintro ⟨hp, ⟨ht, hname, hlength, hend, -⟩, rfl, rfl⟩
    exact ⟨ht, hname, _, _, ⟨hp, hlength, rfl, rfl⟩, hend, rfl, rfl⟩
  · rintro ⟨ht, hname, _, _, ⟨hp, hlength, rfl, rfl⟩, hend, rfl, rfl⟩
    exact ⟨hp, ⟨ht, hname, hlength, hend, List.nil_prefix⟩, rfl, rfl⟩

theorem reads_variable : Variable.form.Reads variableDeclaration (fun _ => True) bound := by
  constructor
  · intro c c' a hy
    simp only [variableDeclaration, yields_bind, yields_currentSpan, yields_dataType,
      yields_identifier, yields_expect, yields_spanFrom, yields_pure] at hy
    obtain ⟨_, _, ⟨rfl, rfl⟩, type, _, ⟨ht, -, rfl⟩, ⟨name, _⟩, _, ⟨hname, -, -, rfl⟩, n, b, hn, _,
        _, ⟨hend, -, rfl⟩,
      _, _, ⟨rfl, rfl⟩, rfl, rfl⟩ := hy
    obtain ⟨o, ho⟩ := (@reads_arrayLength 0).sound hn
    exact ⟨⟨type, name, o⟩, spells_variable.mpr ⟨ht, hname, n, b, ho, hend, rfl, rfl⟩⟩
  · intro c c' v a hc hb hs _
    obtain ⟨ht, hname, n, b, ho, hend, rfl, rfl⟩ := spells_variable.mp hs
    have hn := reads_arrayLength.complete hc.forward.forward (Nat.lt_succ_self _) ho
      (by rw [hend]; decide)
    simp only [variableDeclaration, yields_bind, yields_currentSpan, yields_dataType,
      yields_identifier, yields_expect, yields_spanFrom, yields_pure]
    exact ⟨_, _, ⟨rfl, rfl⟩, v.type, _, ⟨ht, hc.passes, rfl⟩, (v.name, _), _,
      ⟨hname, rfl, hc.forward.passes, rfl⟩, n, b, hn, (), _, ⟨hend, (ho.clean hc).passes, rfl⟩, _,
      _, ⟨rfl, rfl⟩, rfl, rfl⟩

end Variable

def Stmt.form : Form Stmt DecafCheck.Stmt :=
  ⟨Stmt.Proper, Stmt.tokens, Stmt.along⟩

def Block.form : Form Block DecafCheck.Block :=
  ⟨Block.Proper, Block.tokens, Block.along⟩

/-- A block behind `else` or nothing. -/
def elseForm : Form (Option Block) (Option DecafCheck.Block) :=
  ⟨fun no => ∀ b ∈ no, b.Proper, Block.elseTokens, Block.alongElse⟩

/-- A value that is returned or nothing. -/
def valueForm : Form (Option Expr) (Option DecafCheck.Expr) where
  Proper o := ∀ e ∈ o, (Expr.form 0).Proper e
  tokens
    | none => []
    | some e => e.tokens
  along ls o := o.map (Expr.along ls)

theorem Stmt.tokensAll_eq (ss : List Stmt) : Stmt.tokensAll ss = Stmt.form.many.tokens ss := by
  induction ss with
  | nil => rfl
  | cons s ss ih =>
    rw [Stmt.tokensAll, ih]
    rfl

theorem Stmt.alongAll_eq (ls : List Lexeme) (ss : List Stmt) :
    Stmt.alongAll ls ss = Stmt.form.many.along ls ss := by
  induction ss generalizing ls with
  | nil => rfl
  | cons s ss ih =>
    rw [Stmt.alongAll, ih]
    rfl

namespace Stmt

theorem proper_assign {name : String} {d : Option Expr} {v : Expr} :
    (assign name d v).Proper ↔ (Expr.form 0).Proper (.location name d) ∧
      (Expr.form 0).Proper v := by
  simp only [Expr.form, Nat.zero_le, and_true]
  constructor
  · intro h
    cases h with
    | assign hd hv => exact ⟨.location hd, hv⟩
  · rintro ⟨hd, hv⟩
    cases hd with
    | location hd => exact .assign hd hv

theorem proper_call {name : String} {ds : List Expr} :
    (call name ds).Proper ↔ (Expr.form 0).Proper (.call name ds) := by
  simp only [Expr.form, Nat.zero_le, and_true]
  constructor
  · intro h
    cases h with
    | call h => exact .call h
  · intro h
    cases h with
    | call h => exact .call h

theorem proper_branch {d : Expr} {yes : Block} {no : Option Block} :
    (branch d yes no).Proper ↔
      (Expr.form 0).Proper (.group d) ∧ Block.form.Proper yes ∧ elseForm.Proper no := by
  simp only [Expr.form, Nat.zero_le, and_true]
  constructor
  · intro h
    cases h with
    | branch hd hyes hno => exact ⟨.group hd, hyes, hno⟩
  · rintro ⟨hd, hyes, hno⟩
    cases hd with
    | group hd => exact .branch hd hyes hno

theorem proper_loop {d : Expr} {body : Block} :
    (loop d body).Proper ↔ (Expr.form 0).Proper (.group d) ∧ Block.form.Proper body := by
  simp only [Expr.form, Nat.zero_le, and_true]
  constructor
  · intro h
    cases h with
    | loop hd hbody => exact ⟨.group hd, hbody⟩
  · rintro ⟨hd, hbody⟩
    cases hd with
    | group hd => exact .loop hd hbody

theorem proper_ret {d : Option Expr} : (ret d).Proper ↔ valueForm.Proper d := by
  simp only [valueForm, Expr.form, Nat.zero_le, and_true]
  constructor
  · intro h
    cases h with
    | ret h => exact h
  · exact .ret

theorem tokens_assign (name : String) (d : Option Expr) (v : Expr) :
    tokens (.assign name d v) = (Expr.location name d).tokens ++ .mark .assign ::
      (v.tokens ++ [.mark .semicolon]) := by
  rw [tokens]

theorem tokens_call (name : String) (ds : List Expr) :
    tokens (.call name ds) = (Expr.call name ds).tokens ++ [.mark .semicolon] := by
  rw [tokens]

theorem tokens_branch (d : Expr) (yes : Block) (no : Option Block) :
    tokens (.branch d yes no) =
      .keyword .if_ ::
        ((Expr.group d).tokens ++ (Block.form.tokens yes ++ elseForm.tokens no)) := by
  simp [tokens, Expr.tokens, Block.form, elseForm]

theorem tokens_loop (d : Expr) (body : Block) :
    tokens (.loop d body) = .keyword .while_ ::
      ((Expr.group d).tokens ++ Block.form.tokens body) := by
  simp [tokens, Expr.tokens, Block.form]

theorem tokens_ret (d : Option Expr) :
    tokens (.ret d) = .keyword .return_ :: (valueForm.tokens d ++ [.mark .semicolon]) := by
  cases d <;> rfl

end Stmt

theorem Block.proper_mk {vars : List Variable} {ss : List Stmt} :
    (mk vars ss).Proper ↔ Variable.form.many.Proper vars ∧ Stmt.form.many.Proper ss := by
  constructor
  · intro h
    cases h with
    | mk hv hs => exact ⟨hv, hs⟩
  · rintro ⟨hv, hs⟩
    exact .mk hv hs

theorem Block.tokens_mk (vars : List Variable) (ss : List Stmt) :
    tokens (.mk vars ss) =
      .mark .leftBrace ::
        (Variable.form.many.tokens vars ++ (Stmt.form.many.tokens ss ++ [.mark .rightBrace])) := by
  rw [tokens, Stmt.tokensAll_eq]

theorem width_group (d : Expr) : 1 + (Expr.group d).tokens.length = d.tokens.length + 3 := by
  simp only [Expr.tokens_group, List.length_cons, List.length_append, List.length_nil]
  omega

section Spells

variable {c c' : Cursor}

theorem spells_assign {name : String} {d : Option Expr} {v : Expr} {a : DecafCheck.Stmt} :
    Stmt.form.Spells c (.assign name d v) a c' ↔
      ∃ i target b value e, (Expr.form 0).Spells c (.location name d) (.location name i target) b ∧
      b.current = some (.mark .assign) ∧
        (Expr.form 0).Spells (b.forward 1) v value e ∧ e.current = some (.mark .semicolon) ∧
        e.forward 1 = c' ∧
          .assign name i target value (c.span.merge c'.previous) = a := by
  rw [Form.spells_iff_span (fun ls => .assign name (Expr.index.along (ls.drop 1) d)
    (Lexeme.cover ls (Expr.location name d).tokens.length)
    (v.along (ls.drop ((Expr.location name d).tokens.length + 1))))]
  · simp only [Stmt.form, Stmt.proper_assign, Stmt.tokens, Cursor.append_prefix_iff,
      Cursor.cons_prefix_iff, Cursor.forward_append, Cursor.forward_cons]
    constructor
    · rintro ⟨⟨hd, hv⟩, ⟨htd, ht, htv, hend, -⟩, rfl, rfl⟩
      refine ⟨_, _, _, _, _, ⟨hd, htd, Expr.along_location name d _, rfl⟩, ht, ⟨hv, htv, rfl, rfl⟩,
        hend, rfl, ?_⟩
      simp only [Cursor.ahead_forward, List.drop_drop]
      rfl
    · rintro ⟨i, target, _, _, _, ⟨hd, htd, hl, rfl⟩, ht, ⟨hv, htv, rfl, rfl⟩, hend, rfl, rfl⟩
      obtain ⟨-, rfl, rfl⟩ := DecafCheck.Expr.location.inj
        ((Expr.along_location name d _).symm.trans hl)
      refine ⟨⟨hd, hv⟩, ⟨htd, ht, htv, hend, List.nil_prefix⟩, rfl, ?_⟩
      simp only [Cursor.ahead_forward, List.drop_drop]
      rfl
  · intro ls
    simp [Stmt.form, Stmt.along, Expr.index, -List.drop_one]
  · simp [Stmt.form, Stmt.tokens, Expr.tokens_location]

theorem spells_callStatement {name : String} {ds : List Expr} {a : DecafCheck.Stmt} :
    Stmt.form.Spells c (.call name ds) a c' ↔
      ∃ as span b, (Expr.form 0).Spells c (.call name ds) (.call name as span) b ∧
      b.current = some (.mark .semicolon) ∧
        b.forward 1 = c' ∧ .call name as (c.span.merge c'.previous) = a := by
  rw [Form.spells_iff_span (fun ls =>
    .call name ((Expr.form 0).parenthesized.along (ls.drop 1) ds))]
  · simp only [Stmt.form, Stmt.proper_call, Stmt.tokens, Cursor.append_prefix_iff,
      Cursor.cons_prefix_iff, Cursor.forward_append, Cursor.forward_cons]
    constructor
    · rintro ⟨hp, ⟨hd, hend, -⟩, rfl, rfl⟩
      exact ⟨_, _, _, ⟨hp, hd, Expr.along_call name ds _, rfl⟩, hend, rfl, rfl⟩
    · rintro ⟨as, span, _, ⟨hp, hd, hl, rfl⟩, hend, rfl, rfl⟩
      obtain ⟨-, rfl, rfl⟩ := DecafCheck.Expr.call.inj ((Expr.along_call name ds _).symm.trans hl)
      exact ⟨hp, ⟨hd, hend, List.nil_prefix⟩, rfl, rfl⟩
  · intro ls
    simp [Stmt.form, Stmt.along, Expr.alongRow_eq, Form.parenthesized, -List.drop_one]
  · simp [Stmt.form, Stmt.tokens, Expr.tokens_call]

theorem spells_branch {d : Expr} {yes : Block} {no : Option Block} {a : DecafCheck.Stmt} :
    Stmt.form.Spells c (.branch d yes no) a c' ↔ c.current = some (.keyword .if_) ∧ ∃ e b y b' n,
      (Expr.form 0).Spells (c.forward 1) (.group d) e b ∧ Block.form.Spells b yes y b' ∧
        elseForm.Spells b' no n c' ∧ .branch e y n (c.span.merge c'.previous) = a := by
  rw [Form.spells_iff_span (fun ls => .branch ((Expr.group d).along (ls.drop 1))
    (yes.along ((ls.drop 1).drop (Expr.group d).tokens.length))
    (Block.alongElse (((ls.drop 1).drop (Expr.group d).tokens.length).drop yes.tokens.length) no))]
  · simp only [Stmt.form, Stmt.proper_branch, Stmt.tokens_branch, Cursor.append_prefix_iff,
      Cursor.cons_prefix_iff, Cursor.forward_append, Cursor.forward_cons]
    constructor
    · rintro ⟨⟨hd, hyes, hno⟩, ⟨ht, htd, htyes, htno⟩, rfl, rfl⟩
      exact ⟨ht, _, _, _, _, _, ⟨hd, htd, rfl, rfl⟩, ⟨hyes, htyes, rfl, rfl⟩,
        ⟨hno, htno, rfl, rfl⟩, rfl⟩
    · rintro ⟨ht, _, _, _, _, _, ⟨hd, htd, rfl, rfl⟩, ⟨hyes, htyes, rfl, rfl⟩,
        ⟨hno, htno, rfl, rfl⟩, rfl⟩
      exact ⟨⟨hd, hyes, hno⟩, ⟨ht, htd, htyes, htno⟩, rfl, rfl⟩
  · intro ls
    simp only [Stmt.form, Stmt.along, Expr.along, List.drop_drop, width_group]
  · simp [Stmt.form, Stmt.tokens]

theorem spells_loop {d : Expr} {body : Block} {a : DecafCheck.Stmt} :
    Stmt.form.Spells c (.loop d body) a c' ↔ c.current = some (.keyword .while_) ∧
      ∃ e b y, (Expr.form 0).Spells (c.forward 1) (.group d) e b ∧ Block.form.Spells b body y c' ∧
        .loop e y (c.span.merge c'.previous) = a := by
  rw [Form.spells_iff_span (fun ls => .loop ((Expr.group d).along (ls.drop 1))
    (body.along ((ls.drop 1).drop (Expr.group d).tokens.length)))]
  · simp only [Stmt.form, Stmt.proper_loop, Stmt.tokens_loop, Cursor.append_prefix_iff,
      Cursor.cons_prefix_iff, Cursor.forward_append, Cursor.forward_cons]
    constructor
    · rintro ⟨⟨hd, hbody⟩, ⟨ht, htd, htbody⟩, rfl, rfl⟩
      exact ⟨ht, _, _, _, ⟨hd, htd, rfl, rfl⟩, ⟨hbody, htbody, rfl, rfl⟩, rfl⟩
    · rintro ⟨ht, _, _, _, ⟨hd, htd, rfl, rfl⟩, ⟨hbody, htbody, rfl, rfl⟩, rfl⟩
      exact ⟨⟨hd, hbody⟩, ⟨ht, htd, htbody⟩, rfl, rfl⟩
  · intro ls
    simp only [Stmt.form, Stmt.along, Expr.along, List.drop_drop, width_group]
  · simp [Stmt.form, Stmt.tokens]

theorem spells_ret {d : Option Expr} {a : DecafCheck.Stmt} :
    Stmt.form.Spells c (.ret d) a c' ↔ c.current = some (.keyword .return_) ∧
      ∃ v b, valueForm.Spells (c.forward 1) d v b ∧ b.current = some (.mark .semicolon) ∧
      b.forward 1 = c' ∧
        .ret v (c.span.merge c'.previous) = a := by
  rw [Form.spells_iff_span (fun ls => .ret (valueForm.along (ls.drop 1) d)) (fun ls => rfl)]
  · simp only [Stmt.form, Stmt.proper_ret, Stmt.tokens_ret, Cursor.append_prefix_iff,
      Cursor.cons_prefix_iff, Cursor.forward_append, Cursor.forward_cons]
    constructor
    · rintro ⟨hp, ⟨ht, hd, hend, -⟩, rfl, rfl⟩
      exact ⟨ht, _, _, ⟨hp, hd, rfl, rfl⟩, hend, rfl, rfl⟩
    · rintro ⟨ht, _, _, ⟨hp, hd, rfl, rfl⟩, hend, rfl, rfl⟩
      exact ⟨hp, ⟨ht, hd, hend, List.nil_prefix⟩, rfl, rfl⟩
  · simp [Stmt.form, Stmt.tokens_ret]

theorem spells_jump {j : Jump} {a : DecafCheck.Stmt} :
    Stmt.form.Spells c (.jump j) a c' ↔ c.current = some j.token ∧
      (c.forward 1).current = some (.mark .semicolon) ∧ (c.forward 1).forward 1 = c' ∧
        .jump j (c.span.merge c'.previous) = a := by
  have hproper : (Stmt.jump j).Proper := .jump
  rw [Form.spells_iff_span (fun ls => .jump j) (fun ls => rfl)]
  · simp only [Stmt.form, hproper, Stmt.tokens, Cursor.cons_prefix_iff, Cursor.forward_cons,
      List.nil_prefix, and_true, true_and, and_assoc, List.length_nil, Cursor.forward_zero]
  · simp [Stmt.form, Stmt.tokens]

theorem spells_block {vars : List Variable} {ss : List Stmt} {a : DecafCheck.Block} :
    Block.form.Spells c (.mk vars ss) a c' ↔ c.current = some (.mark .leftBrace) ∧ ∃ vs b as e,
      Variable.form.many.Spells (c.forward 1) vars vs b ∧ Stmt.form.many.Spells b ss as e ∧
        e.current = some (.mark .rightBrace) ∧ e.forward 1 = c' ∧
        .mk vs as (c.span.merge c'.previous) = a := by
  rw [Form.spells_iff_span (fun ls => .mk (Variable.form.many.along (ls.drop 1) vars)
    (Stmt.form.many.along ((ls.drop 1).drop (Variable.form.many.tokens vars).length) ss))]
  · simp only [Block.form, Block.proper_mk, Block.tokens_mk, Cursor.append_prefix_iff,
      Cursor.cons_prefix_iff, Cursor.forward_append, Cursor.forward_cons]
    constructor
    · rintro ⟨⟨hv, hs⟩, ⟨ht, htv, hts, hend, -⟩, rfl, rfl⟩
      exact ⟨ht, _, _, _, _, ⟨hv, htv, rfl, rfl⟩, ⟨hs, hts, rfl, rfl⟩, hend, rfl, rfl⟩
    · rintro ⟨ht, _, _, _, _, ⟨hv, htv, rfl, rfl⟩, ⟨hs, hts, rfl, rfl⟩, hend, rfl, rfl⟩
      exact ⟨⟨hv, hs⟩, ⟨ht, htv, hts, hend, List.nil_prefix⟩, rfl, rfl⟩
  · intro ls
    simp only [Block.form, Block.along, Stmt.alongAll_eq, List.drop_drop]
  · simp [Block.form, Block.tokens]

end Spells

section Statement

open DecafCheck.Parser

variable {B : Parser DecafCheck.Block} {bound : Nat} {c c' : Cursor}

theorem spells_else_none {o : Option DecafCheck.Block} :
    elseForm.Spells c none o c' ↔ none = o ∧ c = c' := by
  simp [Form.Spells, elseForm, Block.elseTokens, Block.alongElse]

theorem spells_else_some {d : Block} {o : Option DecafCheck.Block} :
    elseForm.Spells c (some d) o c' ↔ c.current = some (.keyword .else_) ∧
      ∃ b, Block.form.Spells (c.forward 1) d b c' ∧ some b = o := by
  have hproper : elseForm.Proper (some d) ↔ Block.form.Proper d := by
    simp only [elseForm, Option.mem_some_iff, forall_eq', Block.form]
  exact Form.spells_iff_led (fun b _ => some b) hproper rfl fun _ => rfl

theorem reads_else (h : Block.form.Reads B (fun _ => True) bound) :
    elseForm.Reads (otherwise? B) (· ≠ some (.keyword .else_)) bound := by
  constructor
  · intro c c' o hy
    simp only [otherwise?, yields_bind, yields_current, yields_ite, yields_pure, beq_iff_eq] at hy
    obtain ⟨_, _, ⟨rfl, rfl⟩, ⟨ht, _, _, hs, b, _, hb, rfl, rfl⟩ | ⟨-, rfl, rfl⟩⟩ := hy
    · obtain ⟨-, rfl⟩ := (yields_skip ht).mp hs
      obtain ⟨d, hd⟩ := h.sound hb
      exact ⟨some d, spells_else_some.mpr ⟨ht, b, hd, rfl⟩⟩
    · exact ⟨none, spells_else_none.mpr ⟨rfl, rfl⟩⟩
  · intro c c' d o hc hb hs he
    simp only [otherwise?, yields_bind, yields_current, yields_ite, yields_pure, beq_iff_eq]
    cases d with
    | none =>
      obtain ⟨rfl, rfl⟩ := spells_else_none.mp hs
      exact ⟨_, _, ⟨rfl, rfl⟩, .inr ⟨he, rfl, rfl⟩⟩
    | some d =>
      obtain ⟨ht, b, hd, rfl⟩ := spells_else_some.mp hs
      have hshort := Cursor.length_forward_lt ht
      have hblock := h.complete hc.forward (by omega) hd trivial
      exact ⟨_, _, ⟨rfl, rfl⟩, .inl ⟨ht, (), _, (yields_skip ht).mpr ⟨hc.passes, rfl⟩, b, c',
        hblock, rfl, rfl⟩⟩

theorem spells_value_none {o : Option DecafCheck.Expr} :
    valueForm.Spells c none o c' ↔ none = o ∧ c = c' := by
  simp [Form.Spells, valueForm]

theorem spells_value_some {d : Expr} {o : Option DecafCheck.Expr} :
    valueForm.Spells c (some d) o c' ↔ ∃ e, (Expr.form 0).Spells c d e c' ∧ some e = o := by
  simp only [Form.Spells, valueForm, Option.mem_some_iff, forall_eq', Option.map_some]
  constructor
  · rintro ⟨hp, hd, rfl, rfl⟩
    exact ⟨_, ⟨hp, hd, rfl, rfl⟩, rfl⟩
  · rintro ⟨_, ⟨hp, hd, rfl, rfl⟩, rfl⟩
    exact ⟨hp, hd, rfl, rfl⟩

theorem reads_value : valueForm.Reads returned? (· = some (.mark .semicolon)) bound := by
  have hE := Expr.reads_expression bound
  constructor
  · intro c c' o hy
    simp only [returned?, yields_bind, yields_sees, yields_ite, yields_pure] at hy
    obtain ⟨_, _, ⟨rfl, rfl⟩, ⟨-, rfl, rfl⟩ | ⟨-, e, _, he, rfl, rfl⟩⟩ := hy
    · exact ⟨none, spells_value_none.mpr ⟨rfl, rfl⟩⟩
    · obtain ⟨d, hd⟩ := hE.sound he
      exact ⟨some d, spells_value_some.mpr ⟨e, hd, rfl⟩⟩
  · intro c c' d o hc hb hs he
    simp only [returned?, yields_bind, yields_sees, yields_ite, yields_pure]
    cases d with
    | none =>
      obtain ⟨rfl, rfl⟩ := spells_value_none.mp hs
      exact ⟨_, _, ⟨rfl, rfl⟩, .inl ⟨beq_iff_eq.mpr he, rfl, rfl⟩⟩
    | some d =>
      obtain ⟨e, hd, rfl⟩ := spells_value_some.mp hs
      obtain ⟨t, ht, hbegins⟩ := hd.current (Expr.starts 0)
      have hne : t ≠ .mark .semicolon := by
        rintro rfl
        cases hbegins
      have hyields := hE.complete hc hb hd (he ▸ Expr.ends_mark (by decide))
      exact ⟨_, _, ⟨rfl, rfl⟩, .inr ⟨by simp [ht, hne], e, c', hyields, rfl, rfl⟩⟩

theorem condition_sound {e : DecafCheck.Expr} (hy : condition.Yields c e c') :
    ∃ d, (Expr.form 0).Spells c (.group d) e c' := by
  simp only [condition, yields_bind, yields_expect, yields_pure] at hy
  obtain ⟨_, _, ⟨ht, -, rfl⟩, e, b, he, _, _, ⟨hr, -, rfl⟩, rfl, rfl⟩ := hy
  obtain ⟨d, hd⟩ := (Expr.reads_expression 0).sound he
  exact ⟨d, (Expr.spells_group (Nat.zero_le _)).mpr ⟨ht, b, hd, hr, rfl⟩⟩

theorem condition_complete (hc : c.Clean) {d : Expr} {e : DecafCheck.Expr}
    (hs : (Expr.form 0).Spells c (.group d) e c') : condition.Yields c e c' := by
  obtain ⟨ht, b, hd, hr, rfl⟩ := (Expr.spells_group (Nat.zero_le _)).mp hs
  have he := (Expr.reads_expression _).complete hc.forward (Nat.lt_succ_self _) hd
    (hr ▸ Expr.ends_mark (by decide))
  simp only [condition, yields_bind, yields_expect, yields_pure]
  exact ⟨(), _, ⟨ht, hc.passes, rfl⟩, e, b, he, (), _, ⟨hr, (hd.clean hc.forward).passes, rfl⟩, rfl,
    rfl⟩

theorem assignmentOrCall_sound {a : DecafCheck.Stmt} (hy : assignmentOrCall.Yields c a c') :
    ∃ d, Stmt.form.Spells c d a c' := by
  have hE := Expr.reads_expression 0
  simp only [assignmentOrCall, yields_bind, yields_identifier, yields_sees, yields_ite,
    yields_expect, yields_spanFrom, yields_pure] at hy
  obtain ⟨⟨name, _⟩, _, ⟨ht, rfl, -, rfl⟩, _, _, ⟨rfl, rfl⟩, hy⟩ := hy
  rcases hy with ⟨-, as, b, has, _, _, ⟨hend, -, rfl⟩, _, _, ⟨rfl, rfl⟩, rfl, rfl⟩ |
    ⟨-, i, b, hi, _, _, ⟨rfl, rfl⟩, _,
    _, ⟨hassign, -, rfl⟩, v, d, hv, _, _, ⟨hend, -, rfl⟩, _, _, ⟨rfl, rfl⟩, rfl, rfl⟩
  · obtain ⟨ds, hds⟩ := (Expr.reads_arguments hE).sound has
    have hcall := (Expr.spells_call (Nat.zero_le _)).mpr ⟨ht, as, hds, rfl⟩
    exact ⟨.call name ds, spells_callStatement.mpr ⟨as, _, b, hcall, hend, rfl, rfl⟩⟩
  · obtain ⟨d, hd⟩ := (Expr.reads_index hE).sound hi
    obtain ⟨w, hw⟩ := hE.sound hv
    have htarget := (Expr.spells_location (Nat.zero_le _)).mpr ⟨ht, i, hd, rfl⟩
    exact ⟨.assign name d w, spells_assign.mpr ⟨i, _, b, v, _, htarget, hassign, hw,
      hend, rfl, rfl⟩⟩

theorem assignmentOrCall_call (hc : c.Clean) {name : String} {ds : List Expr} {a : DecafCheck.Stmt}
    (hs : Stmt.form.Spells c (.call name ds) a c') : assignmentOrCall.Yields c a c' := by
  obtain ⟨as, span, b, hcall, hend, rfl, rfl⟩ := spells_callStatement.mp hs
  obtain ⟨ht, bs, hds, hbs⟩ := (Expr.spells_call (Nat.zero_le _)).mp hcall
  obtain ⟨-, rfl, -⟩ := DecafCheck.Expr.call.inj hbs
  have hopen := (Form.spells_parenthesized.mp hds).1
  have hE := Expr.reads_expression (c.forward 1).tokens.length
  have has := (Expr.reads_arguments hE).complete hc.forward (Nat.lt_succ_self _) hds trivial
  simp only [assignmentOrCall, yields_bind, yields_identifier, yields_sees, yields_ite,
    yields_expect, yields_spanFrom, yields_pure]
  exact ⟨(name, c.span), _, ⟨ht, rfl, hc.passes, rfl⟩, _, _, ⟨rfl, rfl⟩,
    .inl ⟨beq_iff_eq.mpr hopen, bs, b, has, (), _, ⟨hend, (hcall.clean hc).passes, rfl⟩, _, _,
      ⟨rfl, rfl⟩, rfl, rfl⟩⟩

theorem assignmentOrCall_assign (hc : c.Clean) {name : String} {d : Option Expr} {v : Expr}
    {a : DecafCheck.Stmt} (hs : Stmt.form.Spells c (.assign name d v) a c') :
    assignmentOrCall.Yields c a c' := by
  obtain ⟨i, target, b, value, e, hl, hassign, hv, hend, rfl, rfl⟩ := spells_assign.mp hs
  obtain ⟨ht, o, hd, ho⟩ := (Expr.spells_location (Nat.zero_le _)).mp hl
  obtain ⟨-, rfl, rfl⟩ := DecafCheck.Expr.location.inj ho
  have hE := Expr.reads_expression (c.forward 1).tokens.length
  have hb : b.Clean := hl.clean hc
  have hi := (Expr.reads_index hE).complete hc.forward (Nat.lt_succ_self _) hd
    (by rw [hassign]; decide)
  have hvalue := (Expr.reads_expression _).complete hb.forward (Nat.lt_succ_self _) hv
    (hend ▸ Expr.ends_mark (by decide))
  -- Behind the name is the bracket of an index or, without one, the sign of the assignment.
  have hopen : (c.forward 1).current ≠ some (.mark .leftParen) := by
    cases d with
    | none =>
      obtain ⟨-, rfl⟩ := Expr.spells_index_none.mp hd
      rw [hassign]
      decide
    | some d =>
      rw [(Expr.spells_index_some.mp hd).1]
      decide
  simp only [assignmentOrCall, yields_bind, yields_identifier, yields_sees, yields_ite,
    yields_expect, yields_spanFrom, yields_pure]
  exact ⟨(name, c.span), _, ⟨ht, rfl, hc.passes, rfl⟩, _, _, ⟨rfl, rfl⟩,
    .inr ⟨by simpa using hopen, o, b, hi, _, _, ⟨rfl, rfl⟩, (), _, ⟨hassign, hb.passes, rfl⟩,
      value, e, hvalue, (), _, ⟨hend, (hv.clean hb.forward).passes, rfl⟩, _, _, ⟨rfl, rfl⟩, rfl,
      rfl⟩⟩

theorem statement_sound (h : Block.form.Reads B (fun _ => True) bound) {a : DecafCheck.Stmt}
    (hy : (statement B).Yields c a c') : ∃ d, Stmt.form.Spells c d a c' := by
  simp only [statement, yields_bind, yields_currentSpan, yields_current] at hy
  obtain ⟨_, _, ⟨rfl, rfl⟩, _, _, ⟨rfl, rfl⟩, hy⟩ := hy
  split at hy
  · exact assignmentOrCall_sound hy
  · next ht =>
    simp only [yields_bind, yields_spanFrom, yields_pure] at hy
    obtain ⟨_, _, hs, e, b, he, y, b', hyes, n, _, hno, _, _, ⟨rfl, rfl⟩, rfl, rfl⟩ := hy
    obtain ⟨-, rfl⟩ := (yields_skip ht).mp hs
    obtain ⟨d, hd⟩ := condition_sound he
    obtain ⟨yes, hyes⟩ := h.sound hyes
    obtain ⟨no, hno⟩ := (reads_else h).sound hno
    exact ⟨.branch d yes no, spells_branch.mpr ⟨ht, e, b, y, b', n, hd, hyes, hno, rfl⟩⟩
  · next ht =>
    simp only [yields_bind, yields_spanFrom, yields_pure] at hy
    obtain ⟨_, _, hs, e, b, he, y, _, hbody, _, _, ⟨rfl, rfl⟩, rfl, rfl⟩ := hy
    obtain ⟨-, rfl⟩ := (yields_skip ht).mp hs
    obtain ⟨d, hd⟩ := condition_sound he
    obtain ⟨body, hbody⟩ := h.sound hbody
    exact ⟨.loop d body, spells_loop.mpr ⟨ht, e, b, y, hd, hbody, rfl⟩⟩
  · next ht =>
    simp only [yields_bind, yields_expect, yields_spanFrom, yields_pure] at hy
    obtain ⟨_, _, hs, v, b, hv, _, _, ⟨hend, -, rfl⟩, _, _, ⟨rfl, rfl⟩, rfl, rfl⟩ := hy
    obtain ⟨-, rfl⟩ := (yields_skip ht).mp hs
    obtain ⟨d, hd⟩ := (@reads_value 0).sound hv
    exact ⟨.ret d, spells_ret.mpr ⟨ht, v, b, hd, hend, rfl, rfl⟩⟩
  · next ht =>
    simp only [yields_bind, yields_expect, yields_spanFrom, yields_pure] at hy
    obtain ⟨_, _, hs, _, _, ⟨hend, -, rfl⟩, _, _, ⟨rfl, rfl⟩, rfl, rfl⟩ := hy
    obtain ⟨-, rfl⟩ := (yields_skip ht).mp hs
    exact ⟨.jump .exit, spells_jump.mpr ⟨ht, hend, rfl, rfl⟩⟩
  · next ht =>
    simp only [yields_bind, yields_expect, yields_spanFrom, yields_pure] at hy
    obtain ⟨_, _, hs, _, _, ⟨hend, -, rfl⟩, _, _, ⟨rfl, rfl⟩, rfl, rfl⟩ := hy
    obtain ⟨-, rfl⟩ := (yields_skip ht).mp hs
    exact ⟨.jump .next, spells_jump.mpr ⟨ht, hend, rfl, rfl⟩⟩
  · exact absurd hy yields_fail

theorem statement_complete (h : Block.form.Reads B (fun _ => True) bound) (hc : c.Clean)
    (hb : c.tokens.length < bound + 1) {d : Stmt} {a : DecafCheck.Stmt}
    (hs : Stmt.form.Spells c d a c') (he : c'.current ≠ some (.keyword .else_)) :
    (statement B).Yields c a c' := by
  simp only [statement, yields_bind, yields_currentSpan, yields_current]
  refine ⟨_, _, ⟨rfl, rfl⟩, _, _, ⟨rfl, rfl⟩, ?_⟩
  cases d with
  | assign name d v =>
    obtain ⟨_, _, _, _, _, hl, -⟩ := spells_assign.mp hs
    simp only [((Expr.spells_location (Nat.zero_le _)).mp hl).1]
    exact assignmentOrCall_assign hc hs
  | call name ds =>
    obtain ⟨_, _, _, hcall, -⟩ := spells_callStatement.mp hs
    simp only [((Expr.spells_call (Nat.zero_le _)).mp hcall).1]
    exact assignmentOrCall_call hc hs
  | branch d yes no =>
    obtain ⟨ht, e, b, y, b', n, hd, hyes, hno, rfl⟩ := spells_branch.mp hs
    have hshort := Cursor.length_forward_lt ht
    have hlength := hd.length
    have hlength' := hyes.length
    have hb := hd.clean hc.forward
    have hblock := h.complete hb (by omega) hyes trivial
    have helse := (reads_else h).complete (hyes.clean hb) (by omega) hno he
    simp only [ht, yields_bind, yields_spanFrom, yields_pure]
    exact ⟨(), _, (yields_skip ht).mpr ⟨hc.passes, rfl⟩, e, b, condition_complete hc.forward hd, y,
      b', hblock, n, c', helse, _, _, ⟨rfl, rfl⟩, rfl, rfl⟩
  | loop d body =>
    obtain ⟨ht, e, b, y, hd, hbody, rfl⟩ := spells_loop.mp hs
    have hshort := Cursor.length_forward_lt ht
    have hlength := hd.length
    have hblock := h.complete (hd.clean hc.forward) (by omega) hbody trivial
    simp only [ht, yields_bind, yields_spanFrom, yields_pure]
    exact ⟨(), _, (yields_skip ht).mpr ⟨hc.passes, rfl⟩, e, b, condition_complete hc.forward hd, y,
      c', hblock, _, _, ⟨rfl, rfl⟩, rfl, rfl⟩
  | ret d =>
    obtain ⟨ht, v, b, hd, hend, rfl, rfl⟩ := spells_ret.mp hs
    have hv := reads_value.complete hc.forward (Nat.lt_succ_self _) hd hend
    simp only [ht, yields_bind, yields_expect, yields_spanFrom, yields_pure]
    exact ⟨(), _, (yields_skip ht).mpr ⟨hc.passes, rfl⟩, v, b, hv, (), _,
      ⟨hend, (hd.clean hc.forward).passes, rfl⟩, _, _, ⟨rfl, rfl⟩, rfl, rfl⟩
  | jump j =>
    obtain ⟨ht, hend, rfl, rfl⟩ := spells_jump.mp hs
    cases j <;> simp only [ht, Jump.token, yields_bind, yields_expect, yields_spanFrom,
      yields_pure] <;>
      exact ⟨(), _, (yields_skip ht).mpr ⟨hc.passes, rfl⟩, (), _, ⟨hend, hc.forward.passes, rfl⟩, _,
        _, ⟨rfl, rfl⟩, rfl, rfl⟩

theorem reads_statement (h : Block.form.Reads B (fun _ => True) bound) :
    Stmt.form.Reads (statement B) (· ≠ some (.keyword .else_)) (bound + 1) :=
  ⟨statement_sound h, fun hc hb hs he => statement_complete h hc hb hs he⟩

end Statement

section Block

open DecafCheck.Parser

variable {c c' : Cursor}

theorem starts_variable :
    Variable.form.Starts fun t => (some t).any Token.isType = true ∧ (fun _ => True) (some t) := by
  rintro ⟨type, name, length⟩ _
  exact ⟨_, _, rfl, by cases type <;> rfl, trivial⟩

/-- The token that a statement begins with. -/
def Stmt.first : Stmt → Token
  | .assign name _ _ | .call name _ => .identifier name
  | .branch _ _ _ => .keyword .if_
  | .loop _ _ => .keyword .while_
  | .ret _ => .keyword .return_
  | .jump j => j.token

theorem Stmt.exists_tokens_eq (d : Stmt) : ∃ ts, d.tokens = d.first :: ts := by
  cases d with
  | assign name d v => exact ⟨_, congrArg (· ++ _) (Expr.tokens_location name d)⟩
  | call name ds => exact ⟨_, congrArg (· ++ _) (Expr.tokens_call name ds)⟩
  | branch d yes no => exact ⟨_, rfl⟩
  | loop d body => exact ⟨_, rfl⟩
  | ret d => exact ⟨_, Stmt.tokens_ret d⟩
  | jump j => exact ⟨_, rfl⟩

theorem starts_statement :
    Stmt.form.Starts fun t => t ≠ .mark .rightBrace ∧ t ≠ .keyword .else_ ∧ t.isType = false := by
  intro d _
  obtain ⟨ts, ht⟩ := d.exists_tokens_eq
  refine ⟨d.first, ts, ht, ?_⟩
  cases d with
  | assign name d v => simp [Stmt.first, Token.isType]
  | call name ds => simp [Stmt.first, Token.isType]
  | branch d yes no => simp [Stmt.first, Token.isType]
  | loop d body => simp [Stmt.first, Token.isType]
  | ret d => simp [Stmt.first, Token.isType]
  | jump j => cases j <;> decide

/-- Whether a list of statements goes on. -/
def Stmt.goesOn (t : Option Token) : Bool :=
  t.isSome && t != some (.mark .rightBrace)

theorem starts_statements :
    Stmt.form.Starts fun t => Stmt.goesOn (some t) = true ∧ some t ≠ some (.keyword .else_) := by
  intro d hd
  obtain ⟨t, ts, ht, hbrace, helse, -⟩ := starts_statement d hd
  exact ⟨t, ts, ht, by simp [Stmt.goesOn, hbrace], by simp [helse]⟩

/-- Behind the variables of a block there is no type. -/
theorem not_isType_of_statements {ss : List Stmt} {as : List DecafCheck.Stmt}
    (h : Stmt.form.many.Spells c ss as c') (hend : c'.current = some (.mark .rightBrace)) :
    c.current.any Token.isType = false :=
  Form.current_many (fun t => t.any Token.isType = false) starts_statement (fun _ ht => ht.2.2) h
    (by rw [hend]; rfl)

theorem reads_nestedBlock (depth : Nat) :
    Block.form.Reads (nestedBlock depth) (fun _ => True) depth := by
  induction depth with
  | zero =>
    constructor
    · intro c c' a hy
      simp [nestedBlock] at hy
    · intro c c' d a _ hb
      exact absurd hb (Nat.not_lt_zero _)
  | succ depth ih =>
    have hvars : Variable.form.many.Reads (many (fun t => t.any Token.isType) variableDeclaration)
        (fun t => True ∧ t.any Token.isType = false) depth :=
      Form.reads_many (fun _ => (@reads_variable depth).sound) reads_variable.complete
        starts_variable
    have hstatements : Stmt.form.many.Reads (many Stmt.goesOn (statement (nestedBlock depth)))
        (fun t => t ≠ some (.keyword .else_) ∧ Stmt.goesOn t = false) (depth + 1) :=
      Form.reads_many (fun _ => (reads_statement ih).sound)
        (reads_statement ih).complete starts_statements
    constructor
    · intro c c' a hy
      simp only [nestedBlock, yields_bind, yields_currentSpan, yields_expect, yields_spanFrom,
        yields_pure] at hy
      obtain ⟨_, _, ⟨rfl, rfl⟩, _, _, ⟨ht, -, rfl⟩, vs, b, hvs, as, e, has, _, _, ⟨hend, -, rfl⟩, _,
          _, ⟨rfl, rfl⟩, rfl,
        rfl⟩ := hy
      obtain ⟨vars, hvars⟩ := hvars.sound hvs
      obtain ⟨ss, hss⟩ := hstatements.sound has
      exact ⟨.mk vars ss, spells_block.mpr ⟨ht, vs, b, as, e, hvars, hss, hend, rfl, rfl⟩⟩
    · rintro c c' ⟨vars, ss⟩ a hc hb hs _
      obtain ⟨ht, vs, b, as, e, hv, hss, hend, rfl, rfl⟩ := spells_block.mp hs
      have hshort := Cursor.length_forward_lt ht
      have hlength := hv.length
      have hclean := hv.clean hc.forward
      have hvs := hvars.complete hc.forward (by omega) hv
        ⟨trivial, not_isType_of_statements hss hend⟩
      have has := hstatements.complete hclean (by omega) hss
        (by rw [hend]; exact ⟨by decide, by decide⟩)
      simp only [nestedBlock, yields_bind, yields_currentSpan, yields_expect,
        yields_spanFrom, yields_pure]
      exact ⟨_, _, ⟨rfl, rfl⟩, (), _, ⟨ht, hc.passes, rfl⟩, vs, b, hvs, as, e, has, (), _,
        ⟨hend, (hss.clean hclean).passes, rfl⟩, _, _, ⟨rfl, rfl⟩, rfl, rfl⟩

/-- The parser of blocks reads blocks, however many tokens there are. -/
theorem reads_block (bound : Nat) : Block.form.Reads block (fun _ => True) bound := by
  constructor
  · intro c c' a hy
    simp only [block, yields_bind, yields_remaining] at hy
    obtain ⟨_, _, ⟨rfl, rfl⟩, hy⟩ := hy
    exact (reads_nestedBlock _).sound hy
  · intro c c' d a hc _ hs he
    simp only [block, yields_bind, yields_remaining]
    exact ⟨_, _, ⟨rfl, rfl⟩, (reads_nestedBlock _).complete hc (Nat.lt_succ_self _) hs he⟩

end Block

end Concrete

end DecafCheck
