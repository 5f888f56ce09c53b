import DecafCheck.Proofs.Grammar.Program

namespace DecafCheck

namespace Concrete.Expr

section Unique

variable {bound : Nat}

theorem unique_index (h : (form 0).Unique (Ends 0) bound) :
    index.Unique (· ≠ some (.mark .leftBracket)) (bound + 1) := by
  apply Form.Unique.of_option rfl
  · intro d ts _ he
    exact he rfl
  · intro d d' ts ts' hd hd' hb ht _ _
    simp only [index, List.cons_append, List.append_assoc, List.nil_append,
      List.length_cons] at ht hb
    have hclose : Ends 0 (some (.mark .rightBracket)) := ends_mark (by decide)
    obtain ⟨rfl, hts⟩ := h.eq (hd d rfl) (hd' d' rfl) (Nat.lt_of_succ_lt_succ hb)
      (List.cons.inj ht).2 hclose hclose
    exact ⟨rfl, (List.cons.inj hts).2⟩

theorem unique_arguments (h : (form 0).Unique (Ends 0) bound) :
    (form 0).parenthesized.Unique (fun _ => True) (bound + 1) :=
  h.parenthesized (ends_mark (by decide)) (ends_mark (by decide)) starts_argument

theorem primary_cases {d : Expr} (hd : (form (UnaryOp.stratum + 1)).Proper d) :
    (∃ spelling, d = .integer spelling) ∨ (∃ value, d = .truth value) ∨
      (∃ name i, d = .location name i ∧ index.Proper i) ∨
        (∃ name ds, d = .call name ds ∧ (form 0).parenthesized.Proper ds) ∨
          ∃ e, d = .group e ∧ (form 0).Proper e := by
  obtain ⟨hd, hs⟩ := hd
  cases hd with
  | integer => exact .inl ⟨_, rfl⟩
  | truth => exact .inr (.inl ⟨_, rfl⟩)
  | location h => exact .inr (.inr (.inl ⟨_, _, rfl, fun i hi => ⟨h i hi, Nat.zero_le _⟩⟩))
  | call h => exact .inr (.inr (.inr (.inl ⟨_, _, rfl, fun a ha => ⟨h a ha, Nat.zero_le _⟩⟩)))
  | group h => exact .inr (.inr (.inr (.inr ⟨_, rfl, h, Nat.zero_le _⟩)))
  | unary => exact absurd hs (Nat.not_succ_le_self _)
  | @binary op => exact absurd hs (Nat.not_le_of_lt (Nat.lt_succ_of_lt op.stratum_lt))

theorem tokens_integer (spelling : String) : tokens (.integer spelling) = [.integer spelling] := rfl

theorem tokens_truth (value : Bool) :
    tokens (.truth value) = [.keyword (if value then .true_ else .false_)] := by
  cases value <;> rfl

theorem unique_primary (h : (form 0).Unique (Ends 0) bound) :
    (form (UnaryOp.stratum + 1)).Unique (Ends (UnaryOp.stratum + 1)) (bound + 1) := by
  -- A name with a parenthesis behind it is the beginning of a call and of nothing else.
  have hopen {i : Option Expr} {ds : List Expr} {ts ts' : List Token}
      (he : Ends (UnaryOp.stratum + 1) ts.head?)
      (ht : index.tokens i ++ ts = (form 0).parenthesized.tokens ds ++ ts') : False := by
    cases i with
    | none =>
      obtain rfl : ts = (form 0).parenthesized.tokens ds ++ ts' := ht
      exact he.1 rfl
    | some i => cases (List.cons.inj ht).1
  constructor
  intro d d' ts ts' hd hd' hb ht he he'
  rcases primary_cases hd with ⟨s, rfl⟩ | ⟨v, rfl⟩ | ⟨name, i, rfl, hi⟩ | ⟨name, ds, rfl, hds⟩ |
    ⟨e, rfl, hp⟩ <;>
    rcases primary_cases hd' with
      ⟨s', rfl⟩ | ⟨v', rfl⟩ | ⟨name', i', rfl, hi'⟩ | ⟨name', ds', rfl, hds'⟩ | ⟨e', rfl, hp'⟩ <;>
    simp only [form, tokens_integer, tokens_truth, tokens_location, tokens_call, tokens_group,
      List.cons_append, List.cons.injEq, List.length_cons, reduceCtorEq, false_and] at ht hb
  · simpa using ht
  · cases v <;> cases v' <;> simp_all
  · obtain ⟨rfl, hts⟩ := (unique_index h).eq hi hi' (Nat.lt_of_succ_lt hb) ht.2 he.2.1 he'.2.1
    exact ⟨by rw [Token.identifier.inj ht.1], hts⟩
  · exact (hopen he ht.2).elim
  · exact (hopen he' ht.2.symm).elim
  · obtain ⟨rfl, hts⟩ := (unique_arguments h).eq hds hds'
      (Nat.lt_of_succ_lt hb) ht.2 trivial trivial
    exact ⟨by rw [Token.identifier.inj ht.1], hts⟩
  · have hclose : Ends 0 (some (.mark .rightParen)) := ends_mark (by decide)
    simp only [List.append_assoc, List.cons_append, List.nil_append] at ht hb
    obtain ⟨rfl, hts⟩ := h.eq hp hp' (Nat.lt_of_succ_lt_succ hb) ht.2 hclose hclose
    exact ⟨rfl, (List.cons.inj hts).2⟩

theorem tokens_signs (ops : List UnaryOp) (p : Expr) :
    tokens (ops.foldr .unary p) = signForm.many.tokens ops ++ tokens p := by
  induction ops with
  | nil => rfl
  | cons op ops ih =>
    rw [List.foldr_cons, tokens, ih]
    rfl

theorem unique_unary (h : (form (UnaryOp.stratum + 1)).Unique (Ends (UnaryOp.stratum + 1)) bound) :
    (form UnaryOp.stratum).Unique (Ends UnaryOp.stratum) bound := by
  have hsign : signForm.Unique (fun _ => True) bound := by
    constructor
    intro op op' ts ts' _ _ _ ht _ _
    obtain ⟨hop, rfl⟩ := List.cons.inj ht
    exact ⟨UnaryOp.token_injective hop, rfl⟩
  have hsigns : signForm.many.Unique
      (fun t => True ∧ (t.bind UnaryOp.ofToken?).isSome = false) bound :=
    hsign.many starts_sign
  have hfirst {p : Expr} (hp : (form (UnaryOp.stratum + 1)).Proper p) (ts : List Token) :
      True ∧ ((tokens p ++ ts).head?.bind UnaryOp.ofToken?).isSome = false := by
    obtain ⟨t, us, hus, hfirst⟩ := starts_primary p hp
    have hus : tokens p = t :: us := hus
    simp [hus, hfirst]
  have hends {t : Option Token} (he : Ends UnaryOp.stratum t) : Ends (UnaryOp.stratum + 1) t :=
    ⟨he.1, he.2.1, fun op hop => he.2.2 op (Nat.le_of_succ_le hop)⟩
  constructor
  intro d d' ts ts' hd hd' hb ht he he'
  obtain ⟨ops, p, rfl, hp⟩ := exists_signs hd
  obtain ⟨ops', p', rfl, hp'⟩ := exists_signs hd'
  simp only [form, tokens_signs, List.append_assoc] at ht hb
  obtain ⟨rfl, hts⟩ := hsigns.eq (fun _ _ => trivial) (fun _ _ => trivial) hb ht (hfirst hp ts)
    (hfirst hp' ts')
  have hshort : ((form (UnaryOp.stratum + 1)).tokens p ++ ts).length < bound := by
    rw [List.length_append] at hb
    exact Nat.lt_of_le_of_lt (Nat.le_add_left _ _) hb
  obtain ⟨rfl, rfl⟩ := h.eq hp hp' hshort hts (hends he) (hends he')
  exact ⟨rfl, rfl⟩

theorem tokens_chain (k : Nat) (first : Expr) (rest : List (BinaryOp × Expr)) :
    tokens (chain first rest) = tokens first ++ (rightForm k).many.tokens rest := by
  induction rest generalizing first with
  | nil => exact (List.append_nil _).symm
  | cons x rest ih =>
    rw [Form.tokens_many_cons, ← List.append_assoc]
    exact ih _

theorem unique_binary {k : Nat} (hk : k < UnaryOp.stratum)
    (h : (form (k + 1)).Unique (Ends (k + 1)) bound) :
    (form k).Unique (Ends k) bound := by
  have hright : (rightForm k).Unique (Ends (k + 1)) bound := by
    constructor
    rintro ⟨op, d⟩ ⟨op', d'⟩ ts ts' ⟨-, hd⟩ ⟨-, hd'⟩ hb ht he he'
    obtain ⟨hop, ht⟩ := List.cons.inj ht
    obtain rfl := BinaryOp.token_injective hop
    obtain ⟨rfl, hts⟩ := h.eq hd hd' (Nat.lt_of_succ_lt hb) ht he he'
    exact ⟨rfl, hts⟩
  have hrest : (rightForm k).many.Unique
      (fun t => Ends (k + 1) t ∧ (t.bind (BinaryOp.ofToken? BinaryOp.strata[k])).isSome = false)
      bound :=
    hright.many (starts_right hk)
  have hbetween {rest : List (BinaryOp × Expr)} (hr : (rightForm k).many.Proper rest)
      {ts : List Token}
      (he : Ends k ts.head?) : Ends (k + 1) ((rightForm k).many.tokens rest ++ ts).head? :=
    Form.ends_head?_many (Ends (k + 1)) (starts_right hk) (fun t h => h.2) hr
      ((ends_iff hk).mp he).1
  constructor
  intro d d' ts ts' hd hd' hb ht he he'
  obtain ⟨first, rest, rfl, hf, hr⟩ := exists_chain hk hd
  obtain ⟨first', rest', rfl, hf', hr'⟩ := exists_chain hk hd'
  simp only [form, tokens_chain k, List.append_assoc] at ht hb
  obtain ⟨rfl, hts⟩ := h.eq hf hf' hb ht (hbetween hr he) (hbetween hr' he')
  have hshort : ((rightForm k).many.tokens rest ++ ts).length < bound := by
    rw [List.length_append] at hb
    exact Nat.lt_of_le_of_lt (Nat.le_add_left _ _) hb
  obtain ⟨rfl, rfl⟩ := hrest.eq hr hr' hshort hts ((ends_iff hk).mp he) ((ends_iff hk).mp he')
  exact ⟨rfl, rfl⟩

/-- Tokens have at most one derivation as an expression. -/
theorem unique_expression (bound : Nat) : (form 0).Unique (Ends 0) bound := by
  induction bound with
  | zero => exact ⟨fun _ _ hb => absurd hb (Nat.not_lt_zero _)⟩
  | succ bound ih =>
    have hstrata : ∀ j k, k + j = UnaryOp.stratum → (form k).Unique (Ends k) (bound + 1) := by
      intro j
      induction j with
      | zero =>
        rintro k rfl
        exact unique_unary (unique_primary ih)
      | succ j ihj => exact fun k hk => unique_binary (by omega) (ihj (k + 1) (by omega))
    exact hstrata UnaryOp.stratum 0 (Nat.zero_add _)

end Unique

end Concrete.Expr

namespace Concrete

variable {bound : Nat}

theorem unique_length : lengthForm.Unique (· ≠ some (.mark .leftBracket)) bound := by
  apply Form.Unique.of_option rfl
  · intro spelling ts _ he
    exact he rfl
  · intro spelling spelling' ts ts' _ _ _ ht _ _
    simpa [lengthForm, Variable.lengthTokens] using ht

theorem token_dataType_injective {a b : DataType} (h : a.token = b.token) : a = b := by
  cases a <;> cases b <;> simp [DataType.token] at h ⊢

theorem unique_variable : Variable.form.Unique (fun _ => True) bound := by
  constructor
  rintro ⟨type, name, length⟩ ⟨type', name', length'⟩ ts ts' hd hd' hb ht _ _
  simp only [Variable.form, Variable.tokens, List.cons_append, List.append_assoc, List.nil_append,
    List.cons.injEq, Token.identifier.injEq] at ht
  obtain ⟨htype, rfl, ht⟩ := ht
  obtain rfl := token_dataType_injective htype
  obtain ⟨rfl, hts⟩ := unique_length.eq hd hd' (Nat.lt_succ_self _) ht (by simp) (by simp)
  exact ⟨rfl, (List.cons.inj hts).2⟩

theorem unique_value : valueForm.Unique (· = some (.mark .semicolon)) bound := by
  apply Form.Unique.of_option rfl
  · -- A value does not begin with the semicolon that ends the statement.
    intro e ts he hhead
    obtain ⟨t, us, hus, hb⟩ := Expr.starts 0 e (he e rfl)
    have htokens : valueForm.tokens (some e) = t :: us := hus
    rw [htokens] at hhead
    cases hhead
    cases hb
  · intro e e' ts ts' hd hd' hb ht he he'
    exact (Expr.unique_expression bound).eq (hd e rfl) (hd' e' rfl) hb ht
      (he ▸ Expr.ends_mark (by decide)) (he' ▸ Expr.ends_mark (by decide))

theorem unique_else (h : Block.form.Unique (fun _ => True) bound) :
    elseForm.Unique (· ≠ some (.keyword .else_)) bound := by
  apply Form.Unique.of_option rfl
  · intro d ts _ he
    exact he rfl
  · intro d d' ts ts' hd hd' hb ht _ _
    exact h.eq (hd d rfl) (hd' d' rfl) (Nat.lt_of_succ_lt hb) (List.cons.inj ht).2 trivial trivial

/-- A condition ends at the parenthesis that closes it. -/
theorem unique_condition {e e' : Expr} {ts ts' : List Token} (he : (Expr.form 0).Proper (.group e))
    (he' : (Expr.form 0).Proper (.group e'))
    (ht : (Expr.group e).tokens ++ ts = (Expr.group e').tokens ++ ts') :
    e = e' ∧ ts = ts' := by
  have hclose : Expr.Ends 0 (some (.mark .rightParen)) := Expr.ends_mark (by decide)
  have hinner {d : Expr} (hd : (Expr.form 0).Proper (.group d)) : (Expr.form 0).Proper d := by
    obtain ⟨hd, -⟩ := hd
    cases hd with
    | group hd => exact ⟨hd, Nat.zero_le _⟩
  simp only [Expr.tokens_group, List.cons_append, List.append_assoc, List.nil_append,
    List.cons.injEq, true_and] at ht
  obtain ⟨rfl, hts⟩ :=
    (Expr.unique_expression _).eq (hinner he) (hinner he') (Nat.lt_succ_self _) ht hclose hclose
  exact ⟨rfl, (List.cons.inj hts).2⟩

theorem unique_statement (h : Block.form.Unique (fun _ => True) bound) :
    Stmt.form.Unique (· ≠ some (.keyword .else_)) (bound + 1) := by
  have hassign : Expr.Ends 0 (some (.mark .assign)) := Expr.ends_mark (by decide)
  have hsemicolon : Expr.Ends 0 (some (.mark .semicolon)) := Expr.ends_mark (by decide)
  constructor
  intro d d' ts ts' hd hd' hb ht he he'
  have hfirst : d.first = d'.first := by
    obtain ⟨us, hus⟩ := d.exists_tokens_eq
    obtain ⟨us', hus'⟩ := d'.exists_tokens_eq
    simp only [Stmt.form, hus, hus', List.cons_append, List.cons.injEq] at ht
    exact ht.1
  -- Statements of different kinds begin with different tokens, except for assignments and calls.
  rcases d with ⟨name, i, v⟩ | ⟨name, ds⟩ | ⟨e, yes, no⟩ | ⟨e, body⟩ | ⟨v⟩ | (_ | _) <;>
    rcases d' with ⟨name', i', v'⟩ | ⟨name', ds'⟩ | ⟨e', yes', no'⟩ | ⟨e', body'⟩ |
      ⟨v'⟩ | (_ | _) <;>
    simp only [Stmt.first, Jump.token, Token.keyword.injEq, reduceCtorEq] at hfirst <;>
    simp only [Stmt.form, Stmt.tokens_assign, Stmt.tokens_call, Stmt.tokens_branch,
      Stmt.tokens_loop, Stmt.tokens_ret, Stmt.proper_assign, Stmt.proper_call, Stmt.proper_branch,
      Stmt.proper_loop, Stmt.proper_ret, List.append_assoc,
      List.cons_append, List.nil_append, List.cons.injEq, true_and] at ht hb hd hd'
  · obtain ⟨hl, hv⟩ := (Expr.unique_expression _).eq hd.1 hd'.1
      (Nat.lt_succ_self _) ht hassign hassign
    obtain ⟨rfl, rfl⟩ := Expr.location.inj hl
    obtain ⟨rfl, hts⟩ :=
      (Expr.unique_expression _).eq hd.2 hd'.2 (Nat.lt_succ_self _)
        (List.cons.inj hv).2 hsemicolon hsemicolon
    exact ⟨rfl, (List.cons.inj hts).2⟩
  · obtain ⟨hl, -⟩ := (Expr.unique_expression _).eq hd.1 hd'
      (Nat.lt_succ_self _) ht hassign hsemicolon
    cases hl
  · obtain ⟨hl, -⟩ := (Expr.unique_expression _).eq hd hd'.1
      (Nat.lt_succ_self _) ht hsemicolon hassign
    cases hl
  · obtain ⟨hl, hts⟩ := (Expr.unique_expression _).eq hd hd'
      (Nat.lt_succ_self _) ht hsemicolon hsemicolon
    obtain ⟨rfl, rfl⟩ := Expr.call.inj hl
    exact ⟨rfl, (List.cons.inj hts).2⟩
  · obtain ⟨rfl, hbody⟩ := unique_condition hd.1 hd'.1 ht
    have hrest : (Block.form.tokens yes ++ (elseForm.tokens no ++ ts)).length < bound := by
      simp only [List.length_cons, List.length_append] at hb ⊢
      omega
    have hlast : (elseForm.tokens no ++ ts).length < bound := by
      rw [List.length_append] at hrest
      omega
    obtain ⟨rfl, helse⟩ := h.eq hd.2.1 hd'.2.1 hrest hbody trivial trivial
    obtain ⟨rfl, hts⟩ := (unique_else h).eq hd.2.2 hd'.2.2 hlast helse he he'
    exact ⟨rfl, hts⟩
  · obtain ⟨rfl, hbody⟩ := unique_condition hd.1 hd'.1 ht
    have hrest : (Block.form.tokens body ++ ts).length < bound := by
      simp only [List.length_cons, List.length_append] at hb ⊢
      omega
    obtain ⟨rfl, hts⟩ := h.eq hd.2 hd'.2 hrest hbody trivial trivial
    exact ⟨rfl, hts⟩
  · obtain ⟨rfl, hts⟩ := unique_value.eq hd hd' (Nat.lt_succ_self _) ht rfl rfl
    exact ⟨rfl, (List.cons.inj hts).2⟩
  · simpa [Stmt.tokens] using ht
  · simpa [Stmt.tokens] using ht

theorem unique_block (bound : Nat) : Block.form.Unique (fun _ => True) bound := by
  induction bound with
  | zero => exact ⟨fun _ _ hb => absurd hb (Nat.not_lt_zero _)⟩
  | succ bound ih =>
    have hvars (n : Nat) :
        Variable.form.many.Unique (fun t => True ∧ t.any Token.isType = false) n :=
      unique_variable.many starts_variable
    have hstatements :
        Stmt.form.many.Unique (fun t => t ≠ some (.keyword .else_) ∧ Stmt.goesOn t = false)
        (bound + 1) :=
      (unique_statement ih).many starts_statements
    have hbetween {ss : List Stmt} (hs : Stmt.form.many.Proper ss) (ts : List Token) :
        True ∧ (Stmt.form.many.tokens ss ++ .mark .rightBrace :: ts).head?.any Token.isType =
        false :=
      Form.ends_head?_many (fun t => True ∧ t.any Token.isType = false) starts_statement
        (fun _ ht => ⟨trivial, ht.2.2⟩) hs ⟨trivial, rfl⟩
    have hend : some (.mark .rightBrace) ≠ some (Token.keyword .else_) ∧
        Stmt.goesOn (some (.mark .rightBrace)) = false := by
      decide
    constructor
    rintro ⟨vars, ss⟩ ⟨vars', ss'⟩ ts ts' hd hd' hb ht _ _
    simp only [Block.form, Block.proper_mk, Block.tokens_mk, List.cons_append, List.append_assoc,
      List.nil_append, List.cons.injEq, true_and] at hd hd' hb ht
    obtain ⟨rfl, hss⟩ := (hvars _).eq hd.1 hd'.1 (Nat.lt_succ_self _) ht (hbetween hd.2 ts)
      (hbetween hd'.2 ts')
    have hrest : (Stmt.form.many.tokens ss ++ .mark .rightBrace :: ts).length < bound + 1 := by
      simp only [List.length_cons, List.length_append] at hb ⊢
      omega
    obtain ⟨rfl, hts⟩ := hstatements.eq hd.2 hd'.2 hrest hss hend hend
    exact ⟨rfl, (List.cons.inj hts).2⟩

theorem unique_parameters : Parameter.form.parenthesized.Unique (fun _ => True) (bound + 1) := by
  have hone : Parameter.form.Unique (fun _ => True) bound := by
    constructor
    rintro ⟨type, name⟩ ⟨type', name'⟩ ts ts' _ _ _ ht _ _
    simp only [Parameter.form, List.cons_append, List.nil_append, List.cons.injEq,
      Token.identifier.injEq] at ht
    obtain ⟨htype, rfl, rfl⟩ := ht
    obtain rfl := token_dataType_injective htype
    exact ⟨rfl, rfl⟩
  exact hone.parenthesized trivial trivial starts_parameter

theorem unique_function : Function.form.Unique (fun _ => True) bound := by
  constructor
  rintro ⟨returns, name, ps, body⟩ ⟨returns', name', ps', body'⟩ ts ts' hd hd' _ ht _ _
  simp only [Function.form, Function.tokens, List.cons_append, List.append_assoc, List.cons.injEq,
    Token.identifier.injEq, true_and] at ht
  obtain ⟨hreturns, rfl, ht⟩ := ht
  obtain rfl := token_dataType_injective hreturns
  obtain ⟨rfl, hbody⟩ :=
    unique_parameters.eq (fun _ _ => trivial) (fun _ _ => trivial)
      (Nat.lt_succ_self _) ht trivial trivial
  obtain ⟨rfl, hts⟩ := (unique_block _).eq hd hd' (Nat.lt_succ_self _) hbody trivial trivial
  exact ⟨rfl, hts⟩

theorem unique_declaration : Declaration.form.Unique (fun _ => True) bound := by
  -- A function begins with a keyword that is no type.
  have hclash {v : Variable} {g : Function} {ts ts' : List Token}
      (ht : v.tokens ++ ts = g.tokens ++ ts') : False := by
    have htype : v.type.token = .keyword .def_ := (List.cons.inj ht).1
    revert htype
    cases v.type <;> simp [DataType.token]
  constructor
  intro d d' ts ts' hd hd' hb ht he he'
  rcases d with v | g <;> rcases d' with v' | g'
  · obtain ⟨rfl, hts⟩ := unique_variable.eq hd hd' hb ht he he'
    exact ⟨rfl, hts⟩
  · exact (hclash ht).elim
  · exact (hclash ht.symm).elim
  · obtain ⟨rfl, hts⟩ := unique_function.eq hd hd' hb ht he he'
    exact ⟨rfl, hts⟩

/-- Tokens have at most one derivation as a program. -/
theorem Program.eq_of_tokens_eq {d d' : Program} (hd : d.Proper) (hd' : d'.Proper)
    (ht : d.tokens = d'.tokens) :
    d = d' := by
  have hdeclarations (n : Nat) :
      Declaration.form.many.Unique (fun t => True ∧ t.isSome = false) n :=
    unique_declaration.many starts_declaration
  have ht : Declaration.form.many.tokens d.declarations ++ [] =
      Declaration.form.many.tokens d'.declarations ++ [] := by
    rw [List.append_nil, List.append_nil]
    exact ht
  obtain ⟨hds, -⟩ := (hdeclarations _).eq hd hd' (Nat.lt_succ_self _) ht ⟨trivial, rfl⟩
    ⟨trivial, rfl⟩
  exact congrArg Program.mk hds

end Concrete

end DecafCheck
