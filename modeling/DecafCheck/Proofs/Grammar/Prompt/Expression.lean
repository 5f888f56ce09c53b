import DecafCheck.Proofs.Grammar.Prompt.Basic

namespace DecafCheck.Concrete

open DecafCheck.Parser Token

variable {A : Cursor → Prop} {b : Nat} {before : List Token}

namespace Expr

theorem quiet_heads {es : List Expr} (h : ∀ e ∈ es, Quiet e.tokens) :
    Quiet ((form 0).heads es) := by
  intro t ht
  obtain ⟨e, he, ht⟩ := List.mem_flatMap.mp ht
  rcases List.mem_append.mp ht with ht | ht
  · exact h e he t ht
  · obtain rfl := List.mem_singleton.mp ht
    rfl

theorem quiet_row {es : List Expr} (h : ∀ e ∈ es, Quiet e.tokens) :
    Quiet ((form 0).row.tokens es) := by
  rcases List.eq_nil_or_concat es with rfl | ⟨es, e, rfl⟩
  · exact quiet_nil
  · rw [List.concat_eq_append] at h ⊢
    obtain ⟨hes, he⟩ := List.forall_mem_append.mp h
    rw [Form.row_concat]
    exact quiet_append.mpr ⟨quiet_heads hes, he e List.mem_cons_self⟩

theorem Proper.quiet {e : Expr} (h : e.Proper) : Quiet e.tokens := by
  induction h with
  | integer => simp [tokens, declares, isType]
  | @truth value => cases value <;> simp [tokens, Literal.token, declares, isType]
  | @location name index _ ih =>
    rw [tokens_location]
    cases index with
    | none => simp [Expr.index, declares, isType]
    | some i => simpa [Expr.index, declares, isType] using ih i rfl
  | @call name arguments _ ih =>
    rw [tokens_call, Form.tokens_parenthesized]
    simpa [declares, isType] using quiet_row ih
  | group _ ih => simpa [tokens, declares, isType] using ih
  | @unary op _ _ _ ih =>
    rw [tokens]
    cases op <;> simpa [UnaryOp.token, declares, isType] using ih
  | @binary op _ _ _ _ _ _ ihl ihr =>
    rw [tokens]
    cases op <;> simpa [BinaryOp.token, declares, isType] using ⟨ihl, ihr⟩

/-- An expression that is always at hand to complete a text. -/
theorem exists_form (k : Nat) (hk : k ≤ UnaryOp.stratum + 1) :
    ∃ d, (form k).Proper d ∧ AllGenuine ((form k).tokens d) :=
  ⟨.truth true, ⟨.truth, hk⟩, by simp [form, tokens, Literal.token]⟩

section Primary

variable {E : Parser DecafCheck.Expr}

theorem guides_index (h : (form 0).Guides Calm b E) : index.Guides Calm b (index? E) where
  sound := (reads_index (.of_sound h.sound)).sound
  near := local_index? h.near
  prompt {before} hallow hcalm := by
    have hsome {e : Expr} (he : (form 0).Proper e) (he' : AllGenuine e.tokens) :
        Begins (before ++ [Token.mark .leftBracket] ++ e.tokens ++ [Token.mark .rightBracket]) := by
      have hindex := hallow (some e) (by simpa [index] using he) (by simpa [index] using he')
      simpa [index] using hindex
    have hinner : (form 0).Allows (before ++ [Token.mark .leftBracket]) :=
      fun e he he' => (hsome he he').left
    have hcalm : Calm (before ++ [Token.mark .leftBracket]) :=
      hcalm.append (by simp [declares, isType])
    unfold index?
    refine prompt_accept (hinner.begins_before (exists_form 0 (Nat.zero_le _))) ?_ prompt_pure
    refine h.bind hinner hcalm fun e d hd hd' => ?_
    refine (prompt_expect (hsome hd hd') (hcalm.append hd.1.quiet).judged ?_).shorten
      (Nat.le_succ b)
    exact prompt_pure

theorem guides_arguments (h : (form 0).Guides Calm b E) :
    (form 0).parenthesized.Guides Calm b (parenthesized E) where
  sound := (reads_arguments (.of_sound h.sound)).sound
  near := (local_parenthesized h.near).weaken (Nat.zero_le 1)
  prompt {before} hallow hcalm := by
    have hquiet {ds : List Expr} (hds : (form 0).row.Proper ds) : ∀ d ∈ ds, Quiet d.tokens :=
      fun d hd => (hds d hd).1.quiet
    refine prompt_parenthesized h.sound h.near (fun ds hds hds' => ?_) hallow
      (exists_form 0 (Nat.zero_le _)) hcalm.judged fun d ds hds hds' => ?_
    · exact h.prompt (hallow.row_item hds hds')
        (hcalm.append (quiet_cons.mpr ⟨rfl, quiet_heads (hquiet hds)⟩))
    · exact (hcalm.append (quiet_cons.mpr ⟨rfl, quiet_row (hquiet hds)⟩)).judged

theorem prompt_reference (h : (form 0).Guides Calm b E)
    (hallow : (form (UnaryOp.stratum + 1)).Allows before) (hcalm : Calm before) :
    Prompt (fun c => ∃ name, c.current = some (.identifier name)) (b + 1) before (reference E) := by
  unfold reference
  refine prompt_name fun name start hname => ⟨?_, ?_⟩
  · exact hallow (.location name none) ⟨.location (by simp), le_rfl⟩
      (by simpa [form, tokens] using hname)
  · have hcalm : Calm (before ++ [Token.identifier name]) :=
      hcalm.append (by simp [declares, isType])
    apply prompt_sees
    intro found
    cases found with
    | true =>
      refine (guides_arguments h).bind (fun ds hds hds' => ?_) hcalm fun as ds _ _ =>
        prompt_spanFrom fun _ => prompt_pure
      have hcall := hallow (.call name ds) ⟨.call fun d hd => (hds d hd).1, le_rfl⟩
      have htokens : (form (UnaryOp.stratum + 1)).tokens (.call name ds) = _ := tokens_call name ds
      rw [htokens] at hcall
      simpa using hcall (allGenuine_cons.mpr ⟨hname, hds'⟩)
    | false =>
      refine (guides_index h).bind (fun i hi hi' => ?_) hcalm fun as ds _ _ =>
        prompt_spanFrom fun _ => prompt_pure
      have hlocation := hallow (.location name i) ⟨.location fun d hd => (hi d hd).1, le_rfl⟩
      have htokens : (form (UnaryOp.stratum + 1)).tokens (.location name i) = _ :=
        tokens_location name i
      rw [htokens] at hlocation
      simpa using hlocation (allGenuine_cons.mpr ⟨hname, hi'⟩)

theorem guides_primary (h : (form 0).Guides Calm b E) :
    (form (UnaryOp.stratum + 1)).Guides Calm (b + 1) (primary E) where
  sound := (reads_primary (.of_sound h.sound)).sound
  near := (local_primary h.near).unmirrored.weaken (Nat.zero_le 1)
  prompt {before} hallow hcalm := by
    have hbefore : Begins before := hallow.begins_before (exists_form _ le_rfl)
    have htruth (value : Bool) : Begins (before ++ [(Literal.bool value).token]) :=
      hallow (.truth value) ⟨.truth, le_rfl⟩ (by cases value <;> simp [form, tokens, Literal.token])
    unfold primary
    apply prompt_currentSpan
    intro span
    apply prompt_current
    intro found
    split
    · next spelling =>
      -- The literal is judged where it stands.
      by_cases hlt : Integer.value spelling < integerBound
      · simp only [Parser.integer, if_pos hlt, pure_bind]
        apply prompt_past
        intro c hc
        refine ⟨_, (), hc.2, consumes_skip hc.2, fun hgenuine => ⟨?_, prompt_pure⟩⟩
        exact hallow (.integer spelling) ⟨.integer hlt, le_rfl⟩
          (by simpa [form, tokens] using hgenuine)
      · simp only [Parser.integer, if_neg hlt, failAt_bind]
        exact (prompt_failAt hbefore hcalm.judged).mono fun c hc => hc.1.2
    · exact prompt_skip (fun c hc => hc.2) (htruth true) prompt_pure
    · exact prompt_skip (fun c hc => hc.2) (htruth false) prompt_pure
    · exact (prompt_reference h hallow hcalm).mono fun c hc => ⟨_, hc.2⟩
    · have hgroup {e : Expr} (he : (form 0).Proper e) (he' : AllGenuine e.tokens) :
          Begins (before ++ [Token.mark .leftParen] ++ e.tokens ++ [Token.mark .rightParen]) := by
        have hgroup := hallow (.group e) ⟨.group he.1, le_rfl⟩ (by simpa [form, tokens] using he')
        simpa [form, tokens] using hgroup
      have hinner : (form 0).Allows (before ++ [Token.mark .leftParen]) :=
        fun e he he' => (hgroup he he').left
      have hcalm : Calm (before ++ [Token.mark .leftParen]) :=
        hcalm.append (by simp [declares, isType])
      refine prompt_skip (fun c hc => hc.2)
        (hinner.begins_before (exists_form 0 (Nat.zero_le _))) ?_
      refine h.bind hinner hcalm fun e d hd hd' => ?_
      refine (prompt_expect (hgroup hd hd') (hcalm.append hd.1.quiet).judged ?_).shorten
        (Nat.le_succ b)
      exact prompt_pure
    · exact prompt_fail hbefore hcalm.judged

end Primary

section Unary

variable {E : Parser DecafCheck.Expr}

theorem proper_signs {p : Expr} (hp : (form UnaryOp.stratum).Proper p) (ops : List UnaryOp) :
    (form UnaryOp.stratum).Proper (ops.foldr .unary p) := by
  induction ops with
  | nil => exact hp
  | cons op ops ih => exact ⟨.unary ih.2 ih.1, le_rfl⟩

theorem prompt_sign (hallow : signForm.Allows before) :
    Prompt (fun c => (c.current.bind UnaryOp.ofToken?).isSome = true) (b + 1) before sign := by
  rw [sign_eq, ← bind_pure (takeAs _)]
  apply prompt_past
  intro c hc
  obtain ⟨op, hop⟩ := Option.isSome_iff_exists.mp hc
  obtain ⟨t, ht, htoken⟩ := Option.bind_eq_some_iff.mp hop
  obtain rfl := UnaryOp.ofToken?_eq_some_iff.mp htoken
  refine ⟨_, (op, c.span), ht, consumes_takeAs (by rw [hop]), fun hgenuine => ⟨?_, prompt_pure⟩⟩
  exact hallow op trivial (by simpa [signForm] using hgenuine)

theorem guides_unary (h : (form 0).Guides Calm b E) :
    (form UnaryOp.stratum).Guides Calm (b + 1) (Parser.unary E) where
  sound := (reads_unary (.of_sound h.sound)).sound
  near := (local_unary h.near).unmirrored.weaken (Nat.zero_le 1)
  prompt {before} hallow hcalm := by
    have hsigns (ops : List UnaryOp) {p : Expr} (hp : (form (UnaryOp.stratum + 1)).Proper p)
        (hops : AllGenuine (signForm.many.tokens ops)) (hp' : AllGenuine p.tokens) :
        Begins (before ++ signForm.many.tokens ops ++ p.tokens) := by
      have hsigns := hallow _ (proper_signs ⟨hp.1, Nat.le_of_succ_le hp.2⟩ ops)
      have htokens : (form UnaryOp.stratum).tokens (ops.foldr .unary p) = _ := tokens_signs ops p
      rw [htokens] at hsigns
      simpa using hsigns (allGenuine_append.mpr ⟨hops, hp'⟩)
    have hmany : signForm.many.Allows before := by
      intro ops _ hops
      obtain ⟨p, hp, hp'⟩ := exists_form (UnaryOp.stratum + 1) le_rfl
      exact (hsigns ops hp hops hp').of_isPrefix ⟨p.tokens, rfl⟩
    have hquiet (ops : List UnaryOp) : Quiet (signForm.many.tokens ops) := by
      have htruth : (form UnaryOp.stratum).Proper (.truth true) := ⟨.truth, Nat.le_succ _⟩
      have hquiet := (proper_signs htruth ops).1.quiet
      rw [tokens_signs] at hquiet
      exact (quiet_append.mp hquiet).1
    unfold Parser.unary
    refine prompt_bind_many rfl (fun _ => (reads_sign 0).sound) local_sign ?_ ?_
    · intro ops hops hops'
      exact (prompt_sign (hmany.item hops hops')).shorten (Nat.le_succ _)
    · intro signs ops _ hops
      refine (guides_primary h).bind (fun p hp hp' => hsigns ops hp hops hp')
        (hcalm.append (hquiet ops)) ?_
      intro _ _ _ _
      exact prompt_pure

end Unary

section Binary

variable {operand : Parser DecafCheck.Expr} {k : Nat}

theorem proper_chain {first : Expr} (hfirst : (form k).Proper first) {rest : List (BinaryOp × Expr)}
    (hrest : (rightForm k).many.Proper rest) : (form k).Proper (chain first rest) := by
  induction rest generalizing first with
  | nil => exact hfirst
  | cons x rest ih =>
    obtain ⟨⟨rfl, hx⟩, hrest⟩ := List.forall_mem_cons.mp hrest
    exact ih ⟨.binary hfirst.2 hx.2 hfirst.1 hx.1, le_rfl⟩ hrest

theorem prompt_rightSide (h : (form (k + 1)).Guides Calm b operand) (hk : k < UnaryOp.stratum)
    (hallow : (rightForm k).Allows before) (hcalm : Calm before) :
    Prompt (fun c => (c.current.bind (BinaryOp.ofToken? BinaryOp.strata[k])).isSome = true)
      (b + 1) before (rightSide BinaryOp.strata[k] operand) := by
  rw [rightSide_eq]
  apply prompt_past
  intro c hc
  obtain ⟨op, hop⟩ := Option.isSome_iff_exists.mp hc
  obtain ⟨t, ht, htoken⟩ := Option.bind_eq_some_iff.mp hop
  obtain ⟨rfl, hs⟩ := (BinaryOp.ofToken?_eq_some_iff hk).mp htoken
  refine ⟨_, op, ht, consumes_takeAs (by rw [hop]), fun hgenuine => ?_⟩
  have hoperand : (form (k + 1)).Allows (before ++ [op.token]) := by
    intro e he he'
    have hright := hallow (op, e) ⟨hs, he⟩ (allGenuine_cons.mpr ⟨hgenuine, he'⟩)
    simpa [rightForm, form] using hright
  refine ⟨hoperand.begins_before (exists_form _ (by omega)),
    h.bind hoperand ?_ fun _ _ _ _ => prompt_pure⟩
  exact hcalm.append (by cases op <;> simp [BinaryOp.token, declares, isType])

theorem guides_binary (h : (form UnaryOp.stratum).Guides Calm b operand) {j : Nat}
    (hj : k + j = UnaryOp.stratum) :
    (form k).Guides Calm b (Parser.binary operand (BinaryOp.strata.drop k)) := by
  -- From the tightest stratum outwards.
  induction j generalizing k with
  | zero =>
    obtain rfl : k = UnaryOp.stratum := hj
    exact h
  | succ j ih =>
    have hk : k < UnaryOp.stratum := by omega
    have hfirst := ih (k := k + 1) (by omega)
    refine ⟨(reads_binary (.of_sound h.sound) hj).sound, local_binary h.near _,
      fun {before} hallow hcalm => ?_⟩
    have hloose {d : Expr} (hd : (form (k + 1)).Proper d) : (form k).Proper d :=
      ⟨hd.1, Nat.le_of_succ_le hd.2⟩
    rw [List.drop_eq_getElem_cons hk]
    unfold Parser.binary
    refine hfirst.bind (fun d hd hd' => hallow d (hloose hd) hd') hcalm fun first d hd hd' => ?_
    have hchain : (rightForm k).many.Allows (before ++ d.tokens) := by
      intro rest hrest hrest'
      have hchain := hallow _ (proper_chain (hloose hd) hrest)
      have htokens : (form k).tokens (chain d rest) = _ := tokens_chain k d rest
      rw [htokens] at hchain
      simpa using hchain (allGenuine_append.mpr ⟨hd', hrest'⟩)
    have hquiet {rest : List (BinaryOp × Expr)} (hrest : (rightForm k).many.Proper rest) :
        Quiet (d.tokens ++ (rightForm k).many.tokens rest) := by
      rw [← tokens_chain]
      exact (proper_chain (hloose hd) hrest).1.quiet
    refine prompt_bind_many rfl (fun _ => (reads_right hk (.of_sound hfirst.sound)).sound)
      (local_rightSide hfirst.near _) ?_ fun _ _ _ _ => prompt_pure
    intro rest hrest hrest'
    refine (prompt_rightSide hfirst hk (hchain.item hrest hrest') ?_).shorten (Nat.le_succ b)
    rw [List.append_assoc]
    exact hcalm.append (hquiet hrest)

end Binary

section Expression

theorem guides_nested (depth : Nat) : (form 0).Guides Calm depth (nested depth) := by
  induction depth with
  | zero =>
    refine ⟨(reads_nested 0).sound, (local_nested 0 0).weaken (Nat.zero_le 1),
      fun _ _ => ⟨fun _ _ _ hb => ?_⟩⟩
    exact absurd hb (Nat.not_lt_zero _)
  | succ depth ih => exact guides_binary (guides_unary ih) (Nat.zero_add _)

/-- The depth that the number of tokens allows is always enough. -/
theorem guides_expression : (form 0).Guides Calm b expression where
  sound := (reads_expression 0).sound
  near := local_expression.weaken (Nat.zero_le 1)
  prompt hallow hcalm := by
    constructor
    intro c e hA hg hc _ hrun
    rw [expression, run_bind, run_remaining] at hrun
    exact ((guides_nested _).prompt hallow hcalm).stops hA hg hc (Nat.lt_succ_self _) hrun

end Expression

end Expr

end DecafCheck.Concrete
