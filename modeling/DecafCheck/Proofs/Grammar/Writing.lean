import DecafCheck.Program.Printer
import DecafCheck.Proofs.Grammar.Parsing
import DecafCheck.Proofs.Program.Bare

namespace DecafCheck

open Token

namespace Form

variable {δ α β : Type} {F : Form δ α} {bare : α → β}

/-- The tokens stand for themselves, and a derivation has them that stands for `a` apart from
spans. -/
def Writes (F : Form δ α) (bare : α → β) (a : α) (ts : List Token) : Prop :=
  AllGenuine ts ∧ ∃ d, F.Proper d ∧ F.tokens d = ts ∧ ∀ ls, bare (F.along ls d) = bare a

theorem writes_many {written : α → List Token} {as : List α}
    (h : ∀ a ∈ as, F.Writes bare a (written a)) :
    F.many.Writes (List.map bare) as (as.flatMap written) := by
  induction as with
  | nil => exact ⟨allGenuine_nil, [], List.forall_mem_nil _, rfl, fun _ => rfl⟩
  | cons a as ih =>
    obtain ⟨⟨hgenuine, d, hd, ht, ha⟩, has⟩ := List.forall_mem_cons.mp h
    obtain ⟨hrest, ds, hds, hts, has⟩ := ih has
    refine ⟨?_, d :: ds, List.forall_mem_cons.mpr ⟨hd, hds⟩, ?_, fun ls => ?_⟩
    · rw [List.flatMap_cons]
      exact allGenuine_append.mpr ⟨hgenuine, hrest⟩
    · rw [tokens_many_cons, ht, hts, List.flatMap_cons]
    · exact congrArg₂ List.cons (ha ls) (has _)

theorem Writes.behind {a : α} {ts : List Token} (h : F.Writes bare a ts) {t : Token}
    (ht : t.Genuine) :
    (F.behind t).Writes bare a (t :: ts) := by
  obtain ⟨hgenuine, d, hd, hts, ha⟩ := h
  exact ⟨allGenuine_cons.mpr ⟨ht, hgenuine⟩, d, hd, congrArg _ hts, fun ls => ha _⟩

theorem intercalate_cons_eq_flatMap (sep first : List Token) (rest : List (List Token)) :
    sep.intercalate (first :: rest) = first ++ rest.flatMap (sep ++ ·) := by
  induction rest generalizing first with
  | nil => simp
  | cons next rest ih =>
    rw [List.intercalate_cons_cons, ih, List.flatMap_cons, List.append_assoc, List.append_assoc]

theorem writes_row {written : α → List Token} {as : List α}
    (h : ∀ a ∈ as, F.Writes bare a (written a)) :
    F.row.Writes (List.map bare) as ([Token.mark .comma].intercalate (as.map written)) := by
  cases as with
  | nil => exact ⟨allGenuine_nil, [], List.forall_mem_nil _, rfl, fun _ => rfl⟩
  | cons a as =>
    obtain ⟨⟨hgenuine, d, hd, ht, ha⟩, has⟩ := List.forall_mem_cons.mp h
    obtain ⟨hrest, ds, hds, hts, has⟩ :=
      writes_many fun a h => (has a h).behind (genuine_mark .comma)
    have hlist : [Token.mark .comma].intercalate ((a :: as).map written) =
        written a ++ as.flatMap fun a => .mark .comma :: written a := by
      rw [List.map_cons, intercalate_cons_eq_flatMap, List.flatMap_map]
      rfl
    rw [hlist]
    refine ⟨allGenuine_append.mpr ⟨hgenuine, hrest⟩, d :: ds, List.forall_mem_cons.mpr ⟨hd, hds⟩,
      ?_, fun ls => ?_⟩
    · rw [tokens_row_cons, ht]
      exact congrArg _ hts
    · exact congrArg₂ List.cons (ha ls) (has _)

theorem Writes.parenthesized {as : List α} {ts : List Token}
    (h : F.row.Writes (List.map bare) as ts) :
    F.parenthesized.Writes (List.map bare) as
      (.mark .leftParen :: (ts ++ [.mark .rightParen])) := by
  obtain ⟨hgenuine, ds, hds, rfl, has⟩ := h
  exact ⟨by simpa using hgenuine, ds, hds, rfl, fun ls => has _⟩

end Form

theorem Expr.argumentTokens_eq (es : List Expr) :
    argumentTokens es = [Token.mark .comma].intercalate (es.map (tokens 0)) := by
  induction es with
  | nil => rfl
  | cons e es ih =>
    cases es with
    | nil => simp [argumentTokens]
    | cons e' es =>
      rw [argumentTokens, ih, List.map_cons, List.map_cons, List.map_cons,
        List.intercalate_cons_cons, List.append_assoc]
      · rfl
      · exact List.cons_ne_nil _ _

theorem Stmt.tokensAll_eq (ss : List Stmt) : Stmt.tokensAll ss = ss.flatMap Stmt.tokens := by
  induction ss with
  | nil => rfl
  | cons s ss ih => rw [Stmt.tokensAll, ih, List.flatMap_cons]

/-- An index as it is written. -/
def indexTokens : Option Expr → List Token
  | none => []
  | some index => .mark .leftBracket :: (index.tokens 0 ++ [.mark .rightBracket])

theorem locationTokens_eq (name : String) (i : Option Expr) :
    locationTokens name i = .identifier name :: indexTokens i := by
  cases i <;> rfl

namespace Concrete.Expr

open DecafCheck.Expr (bare bare_location bare_call)

section Writes

variable {k : Nat} (hk : k ≤ UnaryOp.stratum) {span : Span}

include hk

theorem writes_literal {value : Literal} (h : (DecafCheck.Expr.literal value span).Writable) :
    (form k).Writes bare (.literal value span) [value.token] := by
  have hk : k ≤ UnaryOp.stratum + 1 := Nat.le_succ_of_le hk
  cases h with
  | @integer value _ hnonneg hlt =>
    obtain ⟨n, rfl⟩ := Int.eq_ofNat_of_zero_le hnonneg
    refine ⟨?_, .integer (toString n), ⟨.integer ?_, hk⟩, rfl, fun ls => ?_⟩
    · exact allGenuine_cons.mpr ⟨genuine_decimal n, allGenuine_nil⟩
    · rw [Integer.value_toString]
      exact Int.ofNat_lt.mp hlt
    · simp only [form, along, bare, Integer.value_toString]
  | @truth value =>
    refine ⟨?_, .truth value, ⟨.truth, hk⟩, rfl, fun ls => rfl⟩
    cases value <;> simp [Literal.token]

theorem writes_location {name : String} (hname : isName name = true) {i : Option DecafCheck.Expr}
    {ts : List Token} (h : index.Writes (Option.map bare) i ts) :
    (form k).Writes bare (.location name i span) (.identifier name :: ts) := by
  obtain ⟨hgenuine, d, hd, rfl, hi⟩ := h
  refine ⟨?_, .location name d, ⟨.location fun e he => (hd e he).1, Nat.le_succ_of_le hk⟩,
    tokens_location name d, ?_⟩
  · exact allGenuine_cons.mpr ⟨genuine_identifier_iff.mpr hname, hgenuine⟩
  · intro ls
    show bare (along ls (.location name d)) = _
    rw [along_location, bare_location, bare_location, hi]

theorem writes_call {name : String} (hname : isName name = true) {es : List DecafCheck.Expr}
    {ts : List Token} (h : (form 0).parenthesized.Writes (List.map bare) es ts) :
    (form k).Writes bare (.call name es span) (.identifier name :: ts) := by
  obtain ⟨hgenuine, ds, hds, rfl, hes⟩ := h
  refine ⟨?_, .call name ds, ⟨.call fun a ha => (hds a ha).1, Nat.le_succ_of_le hk⟩,
    tokens_call name ds, ?_⟩
  · exact allGenuine_cons.mpr ⟨genuine_identifier_iff.mpr hname, hgenuine⟩
  · intro ls
    show bare (along ls (.call name ds)) = _
    rw [along_call, bare_call, bare_call, hes]

theorem writes_group {e : DecafCheck.Expr} {ts : List Token} (h : (form 0).Writes bare e ts) :
    (form k).Writes bare e (.mark .leftParen :: (ts ++ [.mark .rightParen])) := by
  obtain ⟨hgenuine, d, ⟨hd, -⟩, rfl, he⟩ := h
  exact ⟨by simpa using hgenuine, .group d, ⟨.group hd, Nat.le_succ_of_le hk⟩, rfl, fun ls => he _⟩

theorem writes_unary {op : UnaryOp} {e : DecafCheck.Expr} {ts : List Token}
    (h : (form UnaryOp.stratum).Writes bare e ts) :
    (form k).Writes bare (.unary op e span) (op.token :: ts) := by
  obtain ⟨hgenuine, d, ⟨hd, hs⟩, rfl, he⟩ := h
  have hop : op.token.Genuine := by cases op <;> exact genuine_mark _
  refine ⟨allGenuine_cons.mpr ⟨hop, hgenuine⟩, .unary op d, ⟨.unary hs hd, hk⟩, rfl, fun ls => ?_⟩
  exact congrArg (DecafCheck.Expr.unary op · .nowhere) (he _)

end Writes

theorem genuine_operator (op : BinaryOp) : op.token.Genuine := by
  cases op <;> exact genuine_mark _

theorem writes_binary {k : Nat} {op : BinaryOp} (hop : k ≤ op.stratum)
    {l r : DecafCheck.Expr} {span : Span} {ts us : List Token}
    (hl : (form op.stratum).Writes bare l ts) (hr : (form (op.stratum + 1)).Writes bare r us) :
    (form k).Writes bare (.binary op l r span) (ts ++ op.token :: us) := by
  obtain ⟨hgenuine, d, ⟨hd, hs⟩, rfl, hl⟩ := hl
  obtain ⟨hgenuine', d', ⟨hd', hs'⟩, rfl, hr⟩ := hr
  refine ⟨by simpa [genuine_operator] using ⟨hgenuine, hgenuine'⟩, .binary op d d',
    ⟨.binary hs hs' hd hd', hop⟩, rfl, ?_⟩
  intro ls
  exact congrArg₂ (DecafCheck.Expr.binary op · · .nowhere) (hl _) (hr _)

theorem writes_index {i : Option DecafCheck.Expr}
    (h : ∀ e ∈ i, (form 0).Writes bare e (e.tokens 0)) :
    index.Writes (Option.map bare) i (indexTokens i) := by
  cases i with
  | none => exact ⟨allGenuine_nil, none, by simp [index], rfl, fun _ => rfl⟩
  | some e =>
    obtain ⟨hgenuine, d, hd, ht, he⟩ := h e rfl
    refine ⟨by simpa [indexTokens] using hgenuine, some d, fun _ h => Option.some.inj h ▸ hd, ?_,
      ?_⟩
    · simp only [index, indexTokens, ← ht, form]
    · exact fun ls => congrArg some (he _)

/-- Every expression that can be written down is written so that it derives from its stratum. -/
theorem writes_expression {e : DecafCheck.Expr} (he : e.Writable) {k : Nat}
    (hk : k ≤ UnaryOp.stratum) :
    (form k).Writes bare e (e.tokens k) := by
  induction e generalizing k with
  | literal value span => exact writes_literal hk he
  | location name i span ih =>
    cases he with
    | location hname hi =>
      have htokens : (DecafCheck.Expr.location name i span).tokens k =
          .identifier name :: indexTokens i := by
        cases i <;> rfl
      rw [htokens]
      exact writes_location hk hname (writes_index fun e h => ih e h (hi e h) (Nat.zero_le _))
  | call name arguments span ih =>
    cases he with
    | call hname has =>
      have hrow := Form.writes_row fun a h => ih a h (has a h) (Nat.zero_le _)
      rw [DecafCheck.Expr.tokens, DecafCheck.Expr.argumentTokens_eq]
      exact writes_call hk hname hrow.parenthesized
  | unary op operand span ih =>
    cases he with
    | unary he => exact writes_unary hk (ih he (Nat.le_refl _))
  | binary op left right span ihl ihr =>
    cases he with
    | binary hl hr =>
      have hleft := ihl hl (Nat.le_of_lt op.stratum_lt)
      have hright := ihr hr op.stratum_lt
      rw [DecafCheck.Expr.tokens, enclosedIf]
      by_cases hop : op.stratum < k
      · rw [if_pos (decide_eq_true hop)]
        exact writes_group hk (writes_binary (Nat.zero_le _) hleft hright)
      · rw [if_neg (by simpa using hop)]
        exact writes_binary (Nat.not_lt.mp hop) hleft hright

theorem exists_written {e : DecafCheck.Expr} (he : e.Writable) : AllGenuine (e.tokens 0) ∧
    ∃ d : Expr, d.Proper ∧ d.tokens = e.tokens 0 ∧ ∀ ls, bare (along ls d) = bare e := by
  obtain ⟨hgenuine, d, ⟨hd, -⟩, ht, hbare⟩ := writes_expression he (Nat.zero_le _)
  exact ⟨hgenuine, d, hd, ht, hbare⟩

end Concrete.Expr

namespace Concrete

theorem genuine_name {name : String} (h : isName name = true) : (Token.identifier name).Genuine :=
  genuine_identifier_iff.mpr h

theorem writes_variable {v : DecafCheck.Variable} (hv : v.Writable) :
    Variable.form.Writes DecafCheck.Variable.bare v v.tokens := by
  obtain ⟨hname, hlength⟩ := hv
  by_cases hone : v.length = 1
  · refine ⟨?_, ⟨v.type, v.name, none⟩, by simp [Variable.form, Variable.Proper], ?_, fun ls => ?_⟩
    · simp [DecafCheck.Variable.tokens, hone, DataType.genuine_token, genuine_name hname]
    · simp [Variable.form, Variable.tokens, Variable.lengthTokens, DecafCheck.Variable.tokens, hone]
    · simp [Variable.form, Variable.along, DecafCheck.Variable.bare, hone]
  · refine ⟨?_, ⟨v.type, v.name, some (toString v.length)⟩, ?_, ?_, fun ls => ?_⟩
    · simp only [DecafCheck.Variable.tokens, hone, if_false, allGenuine_cons, allGenuine_append,
        allGenuine_nil, DataType.genuine_token, genuine_name hname, genuine_mark,
        genuine_decimal, and_self]
    · intro spelling h
      rw [← Option.some.inj h, Integer.value_toString]
      exact hlength
    · simp [Variable.form, Variable.tokens, Variable.lengthTokens, DecafCheck.Variable.tokens, hone]
    · simp only [Variable.form, Variable.along, DecafCheck.Variable.bare, Option.map_some,
        Option.getD_some, Integer.value_toString]

section Stmt

variable {span : Span}

theorem writes_assign {name : String} {i : Option DecafCheck.Expr} {target : Span}
    {e : DecafCheck.Expr} (hname : isName name = true) (hi : ∀ e ∈ i, e.Writable)
    (he : e.Writable) :
    Stmt.form.Writes DecafCheck.Stmt.bare (.assign name i target e span)
      (DecafCheck.Stmt.assign name i target e span).tokens := by
  obtain ⟨hgi, d, hd, hti, hi⟩ :=
    Expr.writes_index fun e h => Expr.writes_expression (hi e h) (Nat.zero_le _)
  obtain ⟨hge, d', hd', hte, he⟩ := Expr.exists_written he
  refine ⟨?_, .assign name d d', .assign (fun i h => (hd i h).1) hd', ?_, fun ls => ?_⟩
  · simp [DecafCheck.Stmt.tokens, locationTokens_eq, genuine_name hname, hgi, hge]
  · simp [Stmt.form, Stmt.tokens_assign, Expr.tokens_location, DecafCheck.Stmt.tokens,
      locationTokens_eq, hti, hte]
  · have hi := hi (ls.drop 1)
    simp only [Expr.index, List.drop_drop] at hi
    simp only [Stmt.form, Stmt.along, DecafCheck.Stmt.bare, hi, he]

theorem writes_callStatement {name : String} {es : List DecafCheck.Expr}
    (hname : isName name = true) (hes : ∀ e ∈ es, e.Writable) :
    Stmt.form.Writes DecafCheck.Stmt.bare (.call name es span)
      (DecafCheck.Stmt.call name es span).tokens := by
  have hrow : (Expr.form 0).row.Writes (List.map DecafCheck.Expr.bare) es _ :=
    Form.writes_row fun e h => Expr.writes_expression (hes e h) (Nat.zero_le _)
  obtain ⟨hgenuine, ds, hds, ht, hbare⟩ := hrow
  refine ⟨?_, .call name ds, .call fun d h => (hds d h).1, ?_, fun ls => ?_⟩
  · simp [DecafCheck.Stmt.tokens, DecafCheck.Expr.argumentTokens_eq, genuine_name hname, hgenuine]
  · simp [Stmt.form, Stmt.tokens_call, Expr.tokens_call, Form.parenthesized, DecafCheck.Stmt.tokens,
      DecafCheck.Expr.argumentTokens_eq, ht]
  · simp only [Stmt.form, Stmt.along, DecafCheck.Stmt.bare, Expr.alongRow_eq, hbare]

theorem writes_branch {e : DecafCheck.Expr} {yes : DecafCheck.Block} {no : Option DecafCheck.Block}
    (he : e.Writable) (hyes : Block.form.Writes DecafCheck.Block.bare yes yes.tokens)
    (hno : ∀ b ∈ no, Block.form.Writes DecafCheck.Block.bare b b.tokens) :
    Stmt.form.Writes DecafCheck.Stmt.bare (.branch e yes no span)
      (DecafCheck.Stmt.branch e yes no span).tokens := by
  obtain ⟨hge, d, hd, hte, he⟩ := Expr.exists_written he
  obtain ⟨hgy, y, hy, hty, hbare⟩ := hyes
  have hty : y.tokens = yes.tokens := hty
  cases no with
  | none =>
    refine ⟨?_, .branch d y none, .branch hd hy (by simp), ?_, fun ls => ?_⟩
    · simp [DecafCheck.Stmt.tokens, hge, hgy]
    · simp [Stmt.form, Stmt.tokens, Block.elseTokens, DecafCheck.Stmt.tokens, hte, hty]
    · simp only [Stmt.form, Stmt.along, Block.alongElse, DecafCheck.Stmt.bare,
        DecafCheck.Block.bare?, he]
      exact congrArg (DecafCheck.Stmt.branch _ · none _) (hbare _)
  | some no =>
    obtain ⟨hgn, n, hn, htn, hbaren⟩ := hno no rfl
    have htn : n.tokens = no.tokens := htn
    refine ⟨?_, .branch d y (some n), .branch hd hy fun b h => Option.some.inj h ▸ hn,
      ?_, fun ls => ?_⟩
    · simp [DecafCheck.Stmt.tokens, hge, hgy, hgn]
    · simp [Stmt.form, Stmt.tokens, Block.elseTokens, DecafCheck.Stmt.tokens, hte, hty, htn]
    · simp only [Stmt.form, Stmt.along, Block.alongElse, DecafCheck.Stmt.bare,
        DecafCheck.Block.bare?, he]
      exact congrArg₂ (fun y n => DecafCheck.Stmt.branch _ y (some n) _) (hbare _) (hbaren _)

theorem writes_loop {e : DecafCheck.Expr} {body : DecafCheck.Block} (he : e.Writable)
    (hbody : Block.form.Writes DecafCheck.Block.bare body body.tokens) :
    Stmt.form.Writes DecafCheck.Stmt.bare (.loop e body span)
      (DecafCheck.Stmt.loop e body span).tokens := by
  obtain ⟨hge, d, hd, hte, he⟩ := Expr.exists_written he
  obtain ⟨hgb, b, hb, htb, hbare⟩ := hbody
  have htb : b.tokens = body.tokens := htb
  refine ⟨?_, .loop d b, .loop hd hb, ?_, fun ls => ?_⟩
  · simp [DecafCheck.Stmt.tokens, hge, hgb]
  · simp [Stmt.form, Stmt.tokens, DecafCheck.Stmt.tokens, hte, htb]
  · simp only [Stmt.form, Stmt.along, DecafCheck.Stmt.bare, he]
    exact congrArg (DecafCheck.Stmt.loop _ · _) (hbare _)

theorem writes_ret {o : Option DecafCheck.Expr} (ho : ∀ e ∈ o, e.Writable) :
    Stmt.form.Writes DecafCheck.Stmt.bare (.ret o span) (DecafCheck.Stmt.ret o span).tokens := by
  cases o with
  | none =>
    refine ⟨?_, .ret none, .ret (by simp), rfl, fun ls => rfl⟩
    simp [DecafCheck.Stmt.tokens]
  | some e =>
    obtain ⟨hge, d, hd, hte, he⟩ := Expr.exists_written (ho e rfl)
    refine ⟨?_, .ret (some d), .ret (by simpa using hd), ?_, fun ls => ?_⟩
    · simp [DecafCheck.Stmt.tokens, hge]
    · simp [Stmt.form, Stmt.tokens, DecafCheck.Stmt.tokens, hte]
    · simp [Stmt.form, Stmt.along, DecafCheck.Stmt.bare, he]

theorem writes_jump {j : Jump} :
    Stmt.form.Writes DecafCheck.Stmt.bare (.jump j span) (DecafCheck.Stmt.jump j span).tokens := by
  cases j <;> exact ⟨by simp [DecafCheck.Stmt.tokens], .jump _, .jump, rfl, fun ls => rfl⟩

theorem writes_block {vars : List DecafCheck.Variable} {ss : List DecafCheck.Stmt}
    (hvars : ∀ v ∈ vars, v.Writable)
    (hss : ∀ s ∈ ss, Stmt.form.Writes DecafCheck.Stmt.bare s s.tokens) :
    Block.form.Writes DecafCheck.Block.bare (.mk vars ss span)
      (DecafCheck.Block.mk vars ss span).tokens := by
  obtain ⟨hgv, ds, hds, htv, hbv⟩ := Form.writes_many fun v h => writes_variable (hvars v h)
  obtain ⟨hgs, es, hes, hts, hbs⟩ := Form.writes_many hss
  refine ⟨?_, .mk ds es, .mk hds hes, ?_, fun ls => ?_⟩
  · simp [DecafCheck.Block.tokens, DecafCheck.Stmt.tokensAll_eq, hgv, hgs]
  · simp [Block.form, Block.tokens_mk, DecafCheck.Block.tokens,
      DecafCheck.Stmt.tokensAll_eq, htv, hts]
  · simp only [Block.form, Block.along, DecafCheck.Block.bare, Stmt.alongAll_eq,
      DecafCheck.Stmt.bareAll_eq, hbv, hbs]

theorem writes_statement :
    (∀ s : DecafCheck.Stmt, s.Writable → Stmt.form.Writes DecafCheck.Stmt.bare s s.tokens) ∧
    ∀ b : DecafCheck.Block, b.Writable → Block.form.Writes DecafCheck.Block.bare b b.tokens := by
  apply DecafCheck.Stmt.induct
  case assign =>
    intro name index target value span h
    cases h with
    | assign hname hi he => exact writes_assign hname hi he
  case call =>
    intro name arguments span h
    cases h with
    | call hname has => exact writes_callStatement hname has
  case branch =>
    intro condition yes no span ihyes ihno h
    cases h with
    | branch he hyes hno => exact writes_branch he (ihyes hyes) fun b hb => ihno b hb (hno b hb)
  case loop =>
    intro guard body span ih h
    cases h with
    | loop he hbody => exact writes_loop he (ih hbody)
  case ret =>
    intro value span h
    cases h with
    | ret h => exact writes_ret h
  case jump =>
    intro j span _
    exact writes_jump
  case mk =>
    intro vars statements span ih h
    cases h with
    | mk hvars hss => exact writes_block hvars fun s hs => ih s hs (hss s hs)

end Stmt

theorem writes_parameter {p : DecafCheck.Parameter} (hp : isName p.name = true) :
    Parameter.form.Writes DecafCheck.Parameter.bare p p.tokens := by
  refine ⟨?_, ⟨p.type, p.name⟩, trivial, rfl, fun ls => rfl⟩
  simp [DecafCheck.Parameter.tokens, DataType.genuine_token, genuine_name hp]

theorem writes_function {f : DecafCheck.Function} (hf : f.Writable) :
    Function.form.Writes DecafCheck.Function.bare f f.tokens := by
  obtain ⟨hname, hparameters, hbody⟩ := hf
  obtain ⟨hgp, ps, hps, htp, hbp⟩ :=
    (Form.writes_row fun p h => writes_parameter (hparameters p h)).parenthesized
  obtain ⟨hgb, b, hb, htb, hbb⟩ := writes_statement.2 f.body hbody
  have htb : b.tokens = f.body.tokens := htb
  refine ⟨?_, ⟨f.returns, f.name, ps, b⟩, hb, ?_, fun ls => ?_⟩
  · simp only [allGenuine_cons, allGenuine_append] at hgp
    simp [DecafCheck.Function.tokens, DataType.genuine_token, genuine_name hname, hgp, hgb]
  · simp [Function.form, Function.tokens, DecafCheck.Function.tokens, htp, htb]
  · simp only [Function.form, Function.along, DecafCheck.Function.bare, hbp]
    exact congrArg (DecafCheck.Function.mk _ _ _ · _) (hbb _)

theorem writes_declaration {d : DecafCheck.Declaration} (hd : d.Writable) :
    Declaration.form.Writes DecafCheck.Declaration.bare d d.tokens := by
  rcases d with v | f
  · obtain ⟨hgenuine, d, hd, ht, hbare⟩ := writes_variable hd
    exact ⟨hgenuine, .variable d, hd, ht,
      fun ls => congrArg DecafCheck.Declaration.variable (hbare ls)⟩
  · obtain ⟨hgenuine, d, hd, ht, hbare⟩ := writes_function hd
    exact ⟨hgenuine, .function d, hd, ht,
      fun ls => congrArg DecafCheck.Declaration.function (hbare ls)⟩

/-- The tokens of a program that can be written down derive from the grammar as this program. -/
theorem writes_program {p : DecafCheck.Program} (hp : p.Writable) :
    AllGenuine p.tokens ∧ ∃ d : Derivation p.tokens, ∀ length ls,
      (d.program.along length ls).bare = p.bare := by
  obtain ⟨hgenuine, ds, hds, ht, hbare⟩ := Form.writes_many fun d h => writes_declaration (hp d h)
  refine ⟨hgenuine, ⟨⟨ds⟩, hds, ht⟩, fun length ls => ?_⟩
  exact congrArg (DecafCheck.Program.mk · _) (hbare ls)

end Concrete

end DecafCheck
