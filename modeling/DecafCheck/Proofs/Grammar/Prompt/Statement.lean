import DecafCheck.Proofs.Grammar.Prompt.Expression

namespace DecafCheck.Concrete

open DecafCheck.Parser Token

variable {A : Cursor → Prop} {b : Nat} {before : List Token}

section Variable

theorem genuine_letter : (Token.identifier "a").Genuine :=
  genuine_identifier_iff.mpr (by decide)

theorem exists_of_judgeLength {t : Token} {span : Span} {n : Nat}
    (h : judgeLength (some t) span = .ok n) :
    ∃ spelling, t = .integer spelling ∧ Integer.value spelling < arrayBound := by
  cases t with
  | integer spelling =>
    refine ⟨spelling, rfl, ?_⟩
    by_contra hlt
    simp only [judgeLength, if_neg hlt] at h
    split at h <;> cases h
  | keyword | identifier | mark => cases h

/-- Tokens that end in a type and the name declared with it. -/
def Declared (ts : List Token) : Prop :=
  ∃ us, ∃ type : DataType, ∃ name : String, ts = us ++ [type.token, .identifier name]

theorem guides_arrayLength : lengthForm.Guides Declared b arrayLength where
  sound := (@reads_arrayLength 0).sound
  near := local_arrayLength
  prompt {before} hallow hdeclared := by
    obtain ⟨us, type, name, hbefore⟩ := hdeclared
    have hsome {spelling : String} (hlt : Integer.value spelling < arrayBound)
        (hgenuine : (Token.integer spelling).Genuine) :
        Begins (before ++ [Token.mark .leftBracket] ++ [Token.integer spelling] ++
          [Token.mark .rightBracket]) := by
      have hlength := hallow (some spelling) (by simpa [lengthForm] using hlt)
      simpa [lengthForm, Variable.lengthTokens, hgenuine] using hlength
    have hopen : Begins (before ++ [Token.mark .leftBracket]) :=
      (hsome (by decide +kernel) (genuine_decimal 1)).left.left
    have htaken : TakenAs .arrayLength (before ++ [Token.mark .leftBracket]) := by
      rw [hbefore]
      simpa using TakenAs.length us type name
    rw [arrayLength_eq]
    refine prompt_accept hopen ?_ prompt_pure
    refine (prompt_takeAs hopen htaken (by simp [judgeLength]) fun t span n hn hgenuine =>
      ?_).shorten (Nat.le_succ b)
    obtain ⟨spelling, rfl, hlt⟩ := exists_of_judgeLength hn
    refine ⟨(hsome hlt hgenuine).left, ?_⟩
    refine (prompt_expect (hsome hlt hgenuine) (judged_concat rfl (by simp)) ?_).shorten
      (Nat.le_succ b)
    exact prompt_pure

/-- The type of a variable has been seen when its declaration is read. -/
theorem prompt_variable (hallow : Variable.form.Allows before) :
    Prompt (fun c => c.current.any Token.isType = true) b before variableDeclaration := by
  have hvariable (type : DataType) {name : String} (hname : (Token.identifier name).Genuine)
      {o : Option String} (ho : lengthForm.Proper o) (ho' : AllGenuine (lengthForm.tokens o)) :
      Begins (before ++ [type.token] ++ [Token.identifier name] ++ lengthForm.tokens o ++
        [Token.mark .semicolon]) := by
    have hv := hallow ⟨type, name, o⟩ ho
    have htokens : Variable.form.tokens ⟨type, name, o⟩
      = type.token :: .identifier name :: (lengthForm.tokens o ++ [Token.mark .semicolon]) := rfl
    rw [htokens] at hv
    simpa using hv (by simpa [type.genuine_token, hname] using ho')
  have hnone : lengthForm.Proper none := by simp [lengthForm]
  unfold variableDeclaration
  apply prompt_currentSpan
  intro start
  refine ((prompt_type fun type => ?_).shorten (Nat.le_succ b)).mono fun c hc => hc.1
  have htype : Begins (before ++ [type.token]) :=
    (hvariable type genuine_letter hnone allGenuine_nil).left.left.left
  refine ⟨htype, (prompt_identifier htype (.name before type) fun name span hname => ?_).shorten
    (Nat.le_succ b)⟩
  refine ⟨(hvariable type hname hnone allGenuine_nil).left.left, ?_⟩
  have hdeclared : Declared (before ++ [type.token] ++ [Token.identifier name]) :=
    ⟨before, type, name, by simp⟩
  refine guides_arrayLength.bind (fun o ho ho' => (hvariable type hname ho ho').left) hdeclared
    fun n o ho ho' => ?_
  refine (prompt_expect (hvariable type hname ho ho') ?_ ?_).shorten (Nat.le_succ b)
  · -- The last token is a name, or the bracket behind a length.
    cases o with
    | none =>
      have hjudged : Judged (before ++ [type.token] ++ [Token.identifier name]) :=
        judged_concat rfl (by simp)
      simpa [lengthForm, Variable.lengthTokens] using hjudged
    | some spelling =>
      have hjudged : Judged (before ++ [type.token, .identifier name, .mark .leftBracket,
          .integer spelling] ++ [.mark .rightBracket]) := judged_concat rfl (by simp)
      simpa [lengthForm, Variable.lengthTokens] using hjudged
  · exact prompt_spanFrom fun _ => prompt_pure

end Variable

section Statement

variable {B : Parser DecafCheck.Block}

/-- An expression in parentheses. -/
def groupForm : Form Expr DecafCheck.Expr where
  Proper e := (Expr.form 0).Proper (.group e)
  tokens e := (Expr.group e).tokens
  along ls e := (Expr.group e).along ls

theorem proper_group {e : Expr} : groupForm.Proper e ↔ (Expr.form 0).Proper e := by
  simp only [groupForm, Expr.form, Nat.zero_le, and_true]
  constructor
  · intro h
    cases h with
    | group h => exact h
  · exact .group

theorem tokens_groupForm (e : Expr) :
    groupForm.tokens e = .mark .leftParen :: (e.tokens ++ [Token.mark .rightParen]) := rfl

theorem quiet_group {e : Expr} (h : groupForm.Proper e) : Quiet (groupForm.tokens e) :=
  h.1.quiet

theorem guides_condition : groupForm.Guides Calm b condition where
  sound := condition_sound
  near := local_condition.weaken (Nat.zero_le 1)
  prompt {before} hallow hcalm := by
    have hgroup {e : Expr} (he : (Expr.form 0).Proper e) (he' : AllGenuine e.tokens) :
        Begins (before ++ [Token.mark .leftParen] ++ e.tokens ++ [Token.mark .rightParen]) := by
      have hgroup := hallow e (proper_group.mpr he)
      rw [tokens_groupForm] at hgroup
      simpa using hgroup (by simpa using he')
    have hinner : (Expr.form 0).Allows (before ++ [Token.mark .leftParen]) :=
      fun e he he' => (hgroup he he').left
    have hcalm' : Calm (before ++ [Token.mark .leftParen]) :=
      hcalm.append (by simp [declares, isType])
    unfold condition
    refine (prompt_expect (hinner.begins_before (Expr.exists_form 0 (Nat.zero_le _)))
      hcalm.judged ?_).shorten (Nat.le_succ b)
    refine Expr.guides_expression.bind hinner hcalm' fun e d hd hd' => ?_
    refine (prompt_expect (hgroup hd hd') (hcalm'.append hd.1.quiet).judged ?_).shorten
      (Nat.le_succ b)
    exact prompt_pure

theorem begins_call (hallow : Stmt.form.Allows before) {name : String}
    (hname : (Token.identifier name).Genuine) (ds : List Expr)
    (hds : (Expr.form 0).parenthesized.Proper ds)
    (hds' : AllGenuine ((Expr.form 0).parenthesized.tokens ds)) :
    Begins (before ++ [Token.identifier name] ++ (Expr.form 0).parenthesized.tokens ds ++
      [Token.mark .semicolon]) := by
  have hcall := hallow (.call name ds) (.call fun d hd => (hds d hd).1)
  have htokens : Stmt.form.tokens (.call name ds) = _ := Stmt.tokens_call name ds
  rw [htokens, Expr.tokens_call] at hcall
  simpa using hcall (by simpa using ⟨hname, hds'⟩)

theorem begins_assign (hallow : Stmt.form.Allows before) {name : String}
    (hname : (Token.identifier name).Genuine) {i : Option Expr} (hi : Expr.index.Proper i)
    (hi' : AllGenuine (Expr.index.tokens i)) {v : Expr} (hv : (Expr.form 0).Proper v)
    (hv' : AllGenuine v.tokens) :
    Begins (before ++ [Token.identifier name] ++ Expr.index.tokens i ++ [Token.mark .assign] ++
      v.tokens ++ [.mark .semicolon]) := by
  have hassign := hallow (.assign name i v) (.assign (fun d hd => (hi d hd).1) hv.1)
  have htokens : Stmt.form.tokens (.assign name i v) = _ := Stmt.tokens_assign name i v
  rw [htokens, Expr.tokens_location] at hassign
  simpa using hassign (by simpa using ⟨hname, hi', hv'⟩)

/-- The name that an assignment or a call begins with has been seen. -/
theorem prompt_assignmentOrCall (hallow : Stmt.form.Allows before) (hcalm : Calm before) :
    Prompt (fun c => ∃ name, c.current = some (.identifier name)) b before assignmentOrCall := by
  unfold assignmentOrCall
  refine (prompt_name fun name start hname => ?_).shorten (Nat.le_succ b)
  have hcalm : Calm (before ++ [Token.identifier name]) := hcalm.append (by simp [declares, isType])
  have hcall := begins_call hallow hname
  have hempty := hcall [] (List.forall_mem_nil _) (by simp [Form.tokens_parenthesized])
  refine ⟨hempty.left.left, ?_⟩
  -- The token behind the name tells a call from an assignment.
  apply prompt_sees
  intro found
  cases found with
  | true =>
    refine (Expr.guides_arguments Expr.guides_expression).bind
      (fun ds hds hds' => (hcall ds hds hds').left) hcalm ?_
    intro as ds hds hds'
    have hproper : (Expr.call name ds).Proper := .call fun d hd => (hds d hd).1
    have hquiet := hproper.quiet
    rw [Expr.tokens_call, quiet_cons] at hquiet
    refine (prompt_expect (hcall ds hds hds') (hcalm.append hquiet.2).judged ?_).shorten
      (Nat.le_succ b)
    exact prompt_spanFrom fun _ => prompt_pure
  | false =>
    have hvalue {i : Option Expr} (hi : Expr.index.Proper i)
        (hi' : AllGenuine (Expr.index.tokens i)) :
        (Expr.form 0).Allows (before ++ [Token.identifier name] ++ Expr.index.tokens i ++
          [Token.mark .assign]) :=
      fun v hv hv' => (begins_assign hallow hname hi hi' hv hv').left
    have hsign {i : Option Expr} (hi : Expr.index.Proper i)
        (hi' : AllGenuine (Expr.index.tokens i)) :
        Begins (before ++ [Token.identifier name] ++ Expr.index.tokens i ++ [Token.mark .assign]) :=
      (hvalue hi hi').begins_before (Expr.exists_form 0 (Nat.zero_le _))
    refine (Expr.guides_index Expr.guides_expression).bind
      (fun i hi hi' => (hsign hi hi').left) hcalm ?_
    intro _ i hi hi'
    have hproper : (Expr.location name i).Proper := .location fun d hd => (hi d hd).1
    have hquiet := hproper.quiet
    rw [Expr.tokens_location, quiet_cons] at hquiet
    have hcalm := hcalm.append hquiet.2
    apply prompt_spanFrom
    intro target
    refine (prompt_expect (hsign hi hi') hcalm.judged ?_).shorten (Nat.le_succ b)
    have hcalm : Calm (before ++ [Token.identifier name] ++ Expr.index.tokens i ++
        [Token.mark .assign]) :=
      hcalm.append (by simp [declares, isType])
    refine Expr.guides_expression.bind (hvalue hi hi') hcalm fun v d hd hd' => ?_
    refine (prompt_expect (begins_assign hallow hname hi hi' hd hd')
      (hcalm.append hd.1.quiet).judged ?_).shorten (Nat.le_succ b)
    exact prompt_spanFrom fun _ => prompt_pure

theorem exists_block : ∃ d, Block.form.Proper d ∧ AllGenuine (Block.form.tokens d) :=
  ⟨.mk [] [], .mk (List.forall_mem_nil _) (List.forall_mem_nil _),
    by simp [Block.form, Block.tokens_mk]⟩

theorem guides_else (h : Block.form.Guides Judged b B) :
    elseForm.Guides (fun _ => True) b (otherwise? B) where
  sound := (reads_else (.of_sound h.sound)).sound
  near := local_otherwise? h.near
  prompt {before} hallow _ := by
    have hblock : Block.form.Allows (before ++ [Token.keyword .else_]) := by
      intro d hd hd'
      have helse := hallow (some d) fun e he => Option.some.inj he ▸ hd
      have htokens : elseForm.tokens (some d) = .keyword .else_ :: Block.form.tokens d := by
        simp [elseForm, Block.elseTokens, Block.form]
      rw [htokens] at helse
      simpa using helse (by simpa using hd')
    unfold otherwise?
    apply prompt_current
    intro found
    split
    · next hfound =>
      refine (prompt_skip (fun c hc => hc.2.trans (beq_iff_eq.mp hfound))
        (hblock.begins_before exists_block) ?_).shorten (Nat.le_succ b)
      exact h.bind hblock (judged_concat rfl (by simp)) fun _ _ _ _ => prompt_pure
    · exact prompt_pure

theorem guides_value : valueForm.Guides Calm b returned? where
  sound := (@reads_value 0).sound
  near := local_returned?
  prompt {before} hallow hcalm := by
    have hvalue : (Expr.form 0).Allows before := by
      intro e he he'
      exact hallow (some e) (fun v hv => Option.some.inj hv ▸ he) he'
    unfold returned?
    apply prompt_sees
    intro found
    cases found with
    | true => exact prompt_pure
    | false => exact Expr.guides_expression.bind hvalue hcalm fun _ _ _ _ => prompt_pure

theorem exists_group : ∃ e, groupForm.Proper e ∧ AllGenuine (groupForm.tokens e) :=
  ⟨.truth true, proper_group.mpr ⟨.truth, Nat.zero_le _⟩,
    by simp [tokens_groupForm, Expr.tokens, Literal.token]⟩

theorem prompt_branch (h : Block.form.Guides Judged b B) (hallow : Stmt.form.Allows before)
    (hcalm : Calm before) {start : Span} :
    Prompt (fun c => c.current = some (.keyword .if_)) b before (do
      skip
      let test ← condition
      let yes ← B
      let no ← otherwise? B
      return .branch test yes no (← spanFrom start) : Parser DecafCheck.Stmt) := by
  have hbranch {e : Expr} (he : groupForm.Proper e)
      (he' : AllGenuine (groupForm.tokens e)) {yes : Block}
      (hyes : Block.form.Proper yes) (hyes' : AllGenuine (Block.form.tokens yes))
      (no : Option Block) (hno : elseForm.Proper no) (hno' : AllGenuine (elseForm.tokens no)) :
      Begins (before ++ [Token.keyword .if_] ++ groupForm.tokens e ++ Block.form.tokens yes ++
        elseForm.tokens no) := by
    have hbranch := hallow (.branch e yes no) (Stmt.proper_branch.mpr ⟨he, hyes, hno⟩)
    have htokens : Stmt.form.tokens (.branch e yes no)
      = .keyword .if_ :: (groupForm.tokens e ++ (Block.form.tokens yes ++ elseForm.tokens no)) :=
      Stmt.tokens_branch e yes no
    rw [htokens] at hbranch
    simpa using hbranch (by simpa using ⟨he', hyes', hno'⟩)
  have hnone : elseForm.Proper none := by simp [elseForm]
  have hyes {e : Expr} (he : groupForm.Proper e) (he' : AllGenuine (groupForm.tokens e)) :
      Block.form.Allows (before ++ [Token.keyword .if_] ++ groupForm.tokens e) :=
    fun yes hyes hyes' => (hbranch he he' hyes hyes' none hnone allGenuine_nil).left
  have htest : groupForm.Allows (before ++ [Token.keyword .if_]) :=
    fun e he he' => (hyes he he').begins_before exists_block
  have hcalm : Calm (before ++ [Token.keyword .if_]) := hcalm.append (by simp [declares, isType])
  refine (prompt_skip (fun c hc => hc) (htest.begins_before exists_group) ?_).shorten
    (Nat.le_succ b)
  refine guides_condition.bind htest hcalm fun _ e he he' => ?_
  refine h.bind (hyes he he') (hcalm.append (quiet_group he)).judged fun _ yes hyes hyes' => ?_
  refine (guides_else h).bind (hbranch he he' hyes hyes') trivial fun _ _ _ _ => ?_
  exact prompt_spanFrom fun _ => prompt_pure

theorem prompt_loop (h : Block.form.Guides Judged b B) (hallow : Stmt.form.Allows before)
    (hcalm : Calm before) {start : Span} :
    Prompt (fun c => c.current = some (.keyword .while_)) b before (do
      skip
      let guard ← condition
      let body ← B
      return .loop guard body (← spanFrom start) : Parser DecafCheck.Stmt) := by
  have hbody {e : Expr} (he : groupForm.Proper e) (he' : AllGenuine (groupForm.tokens e)) :
      Block.form.Allows (before ++ [Token.keyword .while_] ++ groupForm.tokens e) := by
    intro body hbody hbody'
    have hloop := hallow (.loop e body) (Stmt.proper_loop.mpr ⟨he, hbody⟩)
    have htokens : Stmt.form.tokens (.loop e body) = .keyword .while_ ::
        (groupForm.tokens e ++ Block.form.tokens body) :=
      Stmt.tokens_loop e body
    rw [htokens] at hloop
    simpa using hloop (by simpa using ⟨he', hbody'⟩)
  have htest : groupForm.Allows (before ++ [Token.keyword .while_]) :=
    fun e he he' => (hbody he he').begins_before exists_block
  have hcalm : Calm (before ++ [Token.keyword .while_]) := hcalm.append (by simp [declares, isType])
  refine (prompt_skip (fun c hc => hc) (htest.begins_before exists_group) ?_).shorten
    (Nat.le_succ b)
  refine guides_condition.bind htest hcalm fun _ e he he' => ?_
  refine h.bind (hbody he he') (hcalm.append (quiet_group he)).judged fun _ _ _ _ => ?_
  exact prompt_spanFrom fun _ => prompt_pure

theorem prompt_ret (hallow : Stmt.form.Allows before) (hcalm : Calm before) {start : Span} :
    Prompt (fun c => c.current = some (.keyword .return_)) b before (do
      skip
      let value ← returned?
      expect .semicolon
      return .ret value (← spanFrom start) : Parser DecafCheck.Stmt) := by
  have hret (o : Option Expr) (ho : valueForm.Proper o) (ho' : AllGenuine (valueForm.tokens o)) :
      Begins (before ++ [Token.keyword .return_] ++ valueForm.tokens o ++
        [Token.mark .semicolon]) := by
    have hret := hallow (.ret o) (Stmt.proper_ret.mpr ho)
    have htokens : Stmt.form.tokens (.ret o) = _ := Stmt.tokens_ret o
    rw [htokens] at hret
    simpa using hret (by simpa using ho')
  have hquiet {o : Option Expr} (ho : valueForm.Proper o) : Quiet (valueForm.tokens o) := by
    cases o with
    | none => exact quiet_nil
    | some e => exact (ho e rfl).1.quiet
  have hcalm : Calm (before ++ [Token.keyword .return_]) :=
    hcalm.append (by simp [declares, isType])
  have hnone : valueForm.Proper none := by simp [valueForm]
  refine (prompt_skip (fun c hc => hc) (hret none hnone allGenuine_nil).left.left ?_).shorten
    (Nat.le_succ b)
  refine guides_value.bind (fun o ho ho' => (hret o ho ho').left) hcalm fun _ o ho ho' => ?_
  refine (prompt_expect (hret o ho ho') (hcalm.append (hquiet ho)).judged ?_).shorten
    (Nat.le_succ b)
  exact prompt_spanFrom fun _ => prompt_pure

theorem prompt_jump (hallow : Stmt.form.Allows before) (hcalm : Calm before)
    {start : Span} (j : Jump) :
    Prompt (fun c => c.current = some j.token) b before (do
      skip
      expect .semicolon
      return .jump j (← spanFrom start) : Parser DecafCheck.Stmt) := by
  have hjump : Begins (before ++ [j.token] ++ [Token.mark .semicolon]) := by
    have hjump := hallow (.jump j) .jump (by cases j <;> simp [Stmt.form, Stmt.tokens, Jump.token])
    simpa [Stmt.form, Stmt.tokens] using hjump
  have hcalm : Calm (before ++ [j.token]) :=
    hcalm.append (by cases j <;> simp [Jump.token, declares, isType])
  refine (prompt_skip (fun c hc => hc) hjump.left ?_).shorten (Nat.le_succ b)
  refine (prompt_expect hjump hcalm.judged ?_).shorten (Nat.le_succ b)
  exact prompt_spanFrom fun _ => prompt_pure

theorem exists_statement : ∃ d, Stmt.form.Proper d ∧ AllGenuine (Stmt.form.tokens d) :=
  ⟨.jump .exit, .jump, by simp [Stmt.form, Stmt.tokens, Jump.token]⟩

theorem prompt_statement (h : Block.form.Guides Judged b B) (hallow : Stmt.form.Allows before)
    (hcalm : Calm before) :
    Prompt A b before (statement B) := by
  unfold statement
  apply prompt_currentSpan
  intro start
  apply prompt_current
  intro found
  split
  · exact (prompt_assignmentOrCall hallow hcalm).mono fun c hc => ⟨_, hc.2⟩
  · exact (prompt_branch h hallow hcalm).mono fun c hc => hc.2
  · exact (prompt_loop h hallow hcalm).mono fun c hc => hc.2
  · exact (prompt_ret hallow hcalm).mono fun c hc => hc.2
  · exact (prompt_jump hallow hcalm .exit).mono fun c hc => hc.2
  · exact (prompt_jump hallow hcalm .next).mono fun c hc => hc.2
  · exact prompt_fail (hallow.begins_before exists_statement) hcalm.judged

end Statement

section Block

theorem closes_variable (v : Variable) :
    ∃ us m, Variable.form.tokens v = us ++ [Token.mark m] ∧ m.closes = true :=
  ⟨v.type.token :: .identifier v.name :: Variable.lengthTokens v.length, .semicolon, rfl, rfl⟩

theorem closes_block (d : Block) :
    ∃ us m, Block.form.tokens d = us ++ [Token.mark m] ∧ m.closes = true := by
  obtain ⟨vars, ss⟩ := d
  refine ⟨.mark .leftBrace :: (Variable.form.many.tokens vars ++ Stmt.form.many.tokens ss),
    .rightBrace, ?_, rfl⟩
  simp [Block.form, Block.tokens_mk]

theorem closes_statement (d : Stmt) :
    ∃ us m, Stmt.form.tokens d = us ++ [Token.mark m] ∧ m.closes = true := by
  have hbody (ts : List Token) (d : Block) :
      ∃ us m, ts ++ Block.form.tokens d = us ++ [Token.mark m] ∧ m.closes = true := by
    obtain ⟨us, m, hd, hm⟩ := closes_block d
    exact ⟨ts ++ us, m, by rw [hd, List.append_assoc], hm⟩
  cases d with
  | assign name i v =>
    refine ⟨(Expr.location name i).tokens ++ Token.mark .assign :: v.tokens, .semicolon, ?_, rfl⟩
    simp [Stmt.form, Stmt.tokens_assign]
  | call name ds => exact ⟨_, .semicolon, Stmt.tokens_call name ds, rfl⟩
  | branch e yes no =>
    cases no with
    | none =>
      obtain ⟨us, m, h, hm⟩ := hbody (.keyword .if_ :: (Expr.group e).tokens) yes
      refine ⟨us, m, ?_, hm⟩
      rw [← h]
      simp [Stmt.form, Stmt.tokens_branch, elseForm, Block.elseTokens]
    | some no =>
      obtain ⟨us, m, h, hm⟩ :=
        hbody (.keyword .if_ :: ((Expr.group e).tokens ++ yes.tokens ++ [Token.keyword .else_])) no
      refine ⟨us, m, ?_, hm⟩
      rw [← h]
      simp [Stmt.form, Stmt.tokens_branch, elseForm, Block.elseTokens, Block.form]
  | loop e body =>
    obtain ⟨us, m, h, hm⟩ := hbody (.keyword .while_ :: (Expr.group e).tokens) body
    refine ⟨us, m, ?_, hm⟩
    rw [← h]
    simp [Stmt.form, Stmt.tokens_loop]
  | ret o =>
    exact ⟨.keyword .return_ :: valueForm.tokens o, .semicolon,
      by simp [Stmt.form, Stmt.tokens_ret], rfl⟩
  | jump j => exact ⟨[j.token], .semicolon, by simp [Stmt.form, Stmt.tokens], rfl⟩

theorem guides_nestedBlock (depth : Nat) : Block.form.Guides Judged depth (nestedBlock depth) := by
  induction depth with
  | zero =>
    refine ⟨(reads_nestedBlock 0).sound, (local_nestedBlock 0 0).weaken (Nat.zero_le 1),
      fun _ _ => ⟨fun _ _ _ hb => ?_⟩⟩
    exact absurd hb (Nat.not_lt_zero _)
  | succ depth ih =>
    refine ⟨(reads_nestedBlock _).sound,
      (local_nestedBlock _ (depth + 1)).unmirrored.weaken (Nat.zero_le 1),
      fun {before} hallow hjudged => ?_⟩
    have hblock {vars : List Variable} (hvars : Variable.form.many.Proper vars)
        (hvars' : AllGenuine (Variable.form.many.tokens vars)) (ss : List Stmt)
        (hss : Stmt.form.many.Proper ss)
        (hss' : AllGenuine (Stmt.form.many.tokens ss)) :
        Begins (before ++ [Token.mark .leftBrace] ++
          Variable.form.many.tokens vars ++ Stmt.form.many.tokens ss ++
          [Token.mark .rightBrace]) := by
      have hblock := hallow (.mk vars ss) (Block.proper_mk.mpr ⟨hvars, hss⟩)
      have htokens : Block.form.tokens (.mk vars ss) = _ := Block.tokens_mk vars ss
      rw [htokens] at hblock
      simpa using hblock (by simpa using ⟨hvars', hss'⟩)
    have hvariables : Variable.form.many.Allows (before ++ [Token.mark .leftBrace]) :=
      fun vars hvars hvars' =>
      (hblock hvars hvars' [] (List.forall_mem_nil _) allGenuine_nil).left.left
    have hopen : Begins (before ++ [Token.mark .leftBrace]) :=
      (hvariables [] (List.forall_mem_nil _) allGenuine_nil).left
    have hcalm : Calm (before ++ [Token.mark .leftBrace]) := calm_concat rfl
    unfold nestedBlock
    apply prompt_currentSpan
    intro start
    refine prompt_expect hopen hjudged ?_
    refine prompt_bind_many rfl (fun _ => (@reads_variable 0).sound) local_variableDeclaration
      (fun vars hvars hvars' => prompt_variable (hvariables.item hvars hvars'))
      fun _ vars hvars hvars' => ?_
    have hcalm := Form.calm_many closes_variable hcalm vars
    have hstatements :
        Stmt.form.many.Allows (before ++ [Token.mark .leftBrace] ++
        Variable.form.many.tokens vars) :=
      fun ss hss hss' => (hblock hvars hvars' ss hss hss').left
    refine prompt_bind_many rfl (fun _ => (reads_statement (.of_sound ih.sound)).sound)
      (local_statement ih.near)
      (fun ss hss hss' => prompt_statement ih (hstatements.item hss hss')
        (Form.calm_many closes_statement hcalm ss))
      fun _ ss hss hss' => ?_
    have hcalm := Form.calm_many closes_statement hcalm ss
    refine (prompt_expect (hblock hvars hvars' ss hss hss') hcalm.judged ?_).shorten
      (Nat.le_succ depth)
    exact prompt_spanFrom fun _ => prompt_pure

/-- The depth that the number of tokens allows is always enough. -/
theorem guides_block : Block.form.Guides Judged b block where
  sound := (reads_block 0).sound
  near := local_block.weaken (Nat.zero_le 1)
  prompt hallow hjudged := by
    constructor
    intro c e hA hg hc _ hrun
    rw [block, run_bind, run_remaining] at hrun
    exact ((guides_nestedBlock _).prompt hallow hjudged).stops hA hg hc (Nat.lt_succ_self _) hrun

end Block

section Program

theorem prompt_parameter (hallow : Parameter.form.Allows before) (htaken : TakenAs .type before) :
    Prompt A b before parameter := by
  have hparameter (type : DataType) {name : String} (hname : (Token.identifier name).Genuine) :
      Begins (before ++ [type.token] ++ [Token.identifier name]) := by
    have hparameter := hallow ⟨type, name⟩ trivial
    simpa [Parameter.form, type.genuine_token, hname] using hparameter
  unfold parameter
  apply prompt_currentSpan
  intro start
  have hbefore : Begins before := (hparameter .int genuine_letter).left.left
  refine (prompt_dataType hbefore htaken fun type => ?_).shorten (Nat.le_succ b)
  have htype : Begins (before ++ [type.token]) := (hparameter type genuine_letter).left
  refine ⟨htype, (prompt_identifier htype (.name before type) fun name span hname => ?_).shorten
    (Nat.le_succ b)⟩
  exact ⟨hparameter type hname, prompt_pure⟩

/-- Tokens that end in the type and the name of a function. -/
def Defined (ts : List Token) : Prop :=
  ∃ us, ∃ type : DataType, ∃ name : String, ts = us ++ [Token.keyword .def_, type.token,
    .identifier name]

theorem guides_parameters :
    Parameter.form.parenthesized.Guides Defined b (parenthesized parameter) where
  sound := (@reads_parameters 0).sound
  near := (local_parenthesized (local_parameter.weaken (Nat.zero_le 1))).weaken (Nat.zero_le 1)
  prompt {before} hallow hdefined := by
    obtain ⟨us, type, name, rfl⟩ := hdefined
    have hsome : ∃ p, Parameter.form.Proper p ∧ AllGenuine (Parameter.form.tokens p) :=
      ⟨⟨.int, "a"⟩, trivial, by simp [Parameter.form, DataType.token, genuine_letter]⟩
    refine prompt_parenthesized (@reads_parameter 0).sound (local_parameter.weaken (Nat.zero_le 1))
      ?_ hallow hsome ?_ ?_
    · intro ps hps hps'
      refine prompt_parameter (hallow.row_item hps hps') ?_
      simpa using TakenAs.parameter us type name ps
    · have hjudged : Judged (us ++ [Token.keyword .def_, type.token] ++ [Token.identifier name]) :=
        judged_concat rfl (by simp)
      simpa using hjudged
    · intro p ps _ _
      -- The last token of a row is a name.
      rcases List.eq_nil_or_concat (p :: ps) with hnil | ⟨qs, q, hqs⟩
      · cases hnil
      · have hjudged :
            Judged (us ++ [Token.keyword .def_, type.token, .identifier name] ++
            Token.mark .leftParen ::
            (Parameter.form.heads qs ++ [q.type.token]) ++ [Token.identifier q.name]) :=
            judged_concat rfl (by simp)
        rw [hqs, List.concat_eq_append, Form.row_concat]
        simpa [Parameter.form] using hjudged

theorem prompt_function (hallow : Function.form.Allows before) (hjudged : Judged before) :
    Prompt A b before function := by
  have hfunction (type : DataType) {name : String} (hname : (Token.identifier name).Genuine)
      (ps : List Parameter)
      (hps' : AllGenuine (Parameter.form.parenthesized.tokens ps)) (body : Block)
      (hbody : Block.form.Proper body) (hbody' : AllGenuine (Block.form.tokens body)) :
      Begins (before ++ [Token.keyword .def_] ++ [type.token] ++ [Token.identifier name] ++
        Parameter.form.parenthesized.tokens ps ++ Block.form.tokens body) := by
    have hfunction := hallow ⟨type, name, ps, body⟩ hbody
    have htokens : Function.form.tokens ⟨type, name, ps, body⟩ = .keyword .def_ :: type.token ::
        .identifier name ::
      (Parameter.form.parenthesized.tokens ps ++ Block.form.tokens body) := rfl
    rw [htokens] at hfunction
    simpa using hfunction (by simpa [type.genuine_token] using ⟨hname, hps', hbody'⟩)
  have hbody (type : DataType) {name : String} (hname : (Token.identifier name).Genuine)
      (ps : List Parameter) (hps' : AllGenuine (Parameter.form.parenthesized.tokens ps)) :
      Block.form.Allows (before ++ [Token.keyword .def_] ++ [type.token] ++
        [Token.identifier name] ++ Parameter.form.parenthesized.tokens ps) :=
    hfunction type hname ps hps'
  have hparameters (type : DataType) {name : String} (hname : (Token.identifier name).Genuine) :
      Parameter.form.parenthesized.Allows
      (before ++ [Token.keyword .def_] ++ [type.token] ++ [Token.identifier name]) :=
    fun ps _ hps' => (hbody type hname ps hps').begins_before exists_block
  have hname (type : DataType) {name : String} (hname : (Token.identifier name).Genuine) :
      Begins (before ++ [Token.keyword .def_] ++ [type.token] ++ [Token.identifier name]) :=
    (hparameters type hname).begins_before ⟨[], fun _ _ => trivial,
      by simp [Form.tokens_parenthesized]⟩
  have hdef : Begins (before ++ [Token.keyword .def_]) := (hname .int genuine_letter).left.left
  unfold function
  apply prompt_currentSpan
  intro start
  refine (prompt_expectToken hdef hjudged ?_).shorten (Nat.le_succ b)
  refine (prompt_dataType hdef (.returned before) fun type => ?_).shorten (Nat.le_succ b)
  have htype := (hname type genuine_letter).left
  refine ⟨htype, (prompt_identifier htype (.name _ type) fun name span hgenuine => ?_).shorten
    (Nat.le_succ b)⟩
  refine ⟨hname type hgenuine, ?_⟩
  have hdefined :
      Defined (before ++ [Token.keyword .def_] ++ [type.token] ++ [Token.identifier name]) :=
    ⟨before, type, name, by simp⟩
  refine guides_parameters.bind (hparameters type hgenuine) hdefined fun _ ps _ hps' => ?_
  refine guides_block.bind (hbody type hgenuine ps hps') ?_ fun _ _ _ _ =>
    prompt_spanFrom fun _ => prompt_pure
  have hparen : Parameter.form.parenthesized.tokens ps
      = .mark .leftParen :: Parameter.form.row.tokens ps ++ [Token.mark .rightParen] := rfl
  rw [hparen, ← List.append_assoc]
  exact judged_concat rfl (by simp)

theorem prompt_declaration (hallow : Declaration.form.Allows before) (hjudged : Judged before) :
    Prompt A b before declaration := by
  have hvariable : Variable.form.Allows before := fun v => hallow (.variable v)
  have hfunction : Function.form.Allows before := fun g => hallow (.function g)
  have hsome : ∃ v, Variable.form.Proper v ∧ AllGenuine (Variable.form.tokens v) := by
    refine ⟨⟨.int, "a", none⟩, by simp [Variable.form, Variable.Proper], ?_⟩
    simp [Variable.form, Variable.tokens, Variable.lengthTokens, DataType.token, genuine_letter]
  unfold declaration
  apply prompt_current
  intro found
  split
  · exact prompt_bind_pure (prompt_function hfunction hjudged) _
  · split
    · next htype =>
      refine prompt_bind_pure ((prompt_variable hvariable).mono ?_) _
      intro c hc
      rw [hc.2, htype]
    · exact prompt_fail (hvariable.begins_before hsome) hjudged

theorem closes_declaration (d : Declaration) :
    ∃ us m, Declaration.form.tokens d = us ++ [Token.mark m] ∧ m.closes = true := by
  rcases d with v | g
  · exact closes_variable v
  · obtain ⟨us, m, hbody, hm⟩ := closes_block g.body
    refine ⟨.keyword .def_ :: g.returns.token :: .identifier g.name ::
      (Parameter.form.parenthesized.tokens g.parameters ++ us), m, ?_, hm⟩
    have htokens : Declaration.form.tokens (.function g) = .keyword .def_ :: g.returns.token ::
        .identifier g.name ::
      (Parameter.form.parenthesized.tokens g.parameters ++ Block.form.tokens g.body) := rfl
    rw [htokens, hbody]
    simp

theorem allows_declarations : Declaration.form.many.Allows [] :=
  fun ds hds hgenuine => ⟨_, hgenuine, ⟨⟨⟨ds⟩, hds, rfl⟩⟩, List.prefix_rfl⟩

theorem prompt_program : Prompt A b [] program := by
  unfold program
  apply prompt_currentSpan
  intro start
  refine prompt_bind_many rfl (fun _ => (@reads_declaration 0).sound) local_declaration ?_ ?_
  · intro ds hds hds'
    exact prompt_declaration (allows_declarations.item hds hds')
      (Form.calm_many closes_declaration calm_nil ds).judged
  · intro _ ds _ _
    exact prompt_spanFrom fun _ => prompt_pure

end Program

end DecafCheck.Concrete
