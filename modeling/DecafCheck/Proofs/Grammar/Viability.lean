import DecafCheck.Proofs.Grammar.Parsing
import DecafCheck.Proofs.Token.Spelling

namespace DecafCheck

open Token

variable {ts us before : List Token} {t : Token}

/-- Tokens that those of a program begin with. -/
def Begins (ts : List Token) : Prop :=
  ∃ us, AllGenuine us ∧ Nonempty (Concrete.Derivation us) ∧ ts <+: us

theorem Begins.of_isPrefix (h : Begins ts) (hus : us <+: ts) : Begins us := by
  obtain ⟨vs, hgenuine, hvs, hts⟩ := h
  exact ⟨vs, hgenuine, hvs, hus.trans hts⟩

theorem Begins.left (h : Begins (ts ++ us)) : Begins ts :=
  h.of_isPrefix (List.prefix_append ts us)

namespace Form

variable {δ α : Type} {F : Form δ α}

/-- Behind `before`, every derivation of the form begins a program. -/
def Allows (F : Form δ α) (before : List Token) : Prop :=
  ∀ d, F.Proper d → AllGenuine (F.tokens d) → Begins (before ++ F.tokens d)

theorem Allows.begins_before (h : F.Allows before)
    (hF : ∃ d, F.Proper d ∧ AllGenuine (F.tokens d)) : Begins before := by
  obtain ⟨d, hd, hgenuine⟩ := hF
  exact (h d hd hgenuine).left

theorem many_concat (ds : List δ) (d : δ) :
    F.many.tokens (ds ++ [d]) = F.many.tokens ds ++ F.tokens d := by
  simp [many]

/-- Where a list is allowed, it may go on. -/
theorem Allows.item (h : F.many.Allows before) {ds : List δ} (hds : F.many.Proper ds)
    (hgenuine : AllGenuine (F.many.tokens ds)) : F.Allows (before ++ F.many.tokens ds) := by
  intro d hd hd'
  have hall := h (ds ++ [d]) (List.forall_mem_append.mpr ⟨hds, List.forall_mem_singleton.mpr hd⟩)
  rw [many_concat, ← List.append_assoc] at hall
  exact hall (allGenuine_append.mpr ⟨hgenuine, hd'⟩)

/-- Derivations with a comma behind each of them. -/
def heads (F : Form δ α) (ds : List δ) : List Token :=
  ds.flatMap fun d => F.tokens d ++ [Token.mark .comma]

theorem heads_cons (d : δ) (ds : List δ) :
    F.heads (d :: ds) = F.row.tokens (d :: ds) ++ [Token.mark .comma] := by
  have hlater (ds : List δ) :
      .mark .comma :: F.heads ds = F.later.tokens ds ++ [Token.mark .comma] := by
    induction ds with
    | nil => rfl
    | cons d ds ih =>
      have hcons : F.later.tokens (d :: ds) = .mark .comma :: F.tokens d ++ F.later.tokens ds := rfl
      have hheads : F.heads (d :: ds) = F.tokens d ++ Token.mark .comma :: F.heads ds := by
        simp [heads]
      rw [hcons, hheads, ih]
      simp
  have hheads : F.heads (d :: ds) = F.tokens d ++ Token.mark .comma :: F.heads ds := by
    simp [heads]
  rw [hheads, hlater, tokens_row_cons, List.append_assoc]

theorem row_concat (ds : List δ) (d : δ) : F.row.tokens (ds ++ [d]) = F.heads ds ++ F.tokens d := by
  cases ds with
  | nil => simp [heads]
  | cons d' ds =>
    rw [heads_cons, List.cons_append, tokens_row_cons, tokens_row_cons]
    simp [many, behind]

/-- Where a row in parentheses is allowed, each of its items is. -/
theorem Allows.row_item (h : F.parenthesized.Allows before) {ds : List δ} (hds : F.row.Proper ds)
    (hgenuine : AllGenuine (F.heads ds)) :
    F.Allows (before ++ Token.mark .leftParen :: F.heads ds) := by
  intro d hd hd'
  have hrow := h (ds ++ [d]) (List.forall_mem_append.mpr ⟨hds, List.forall_mem_singleton.mpr hd⟩)
  rw [tokens_parenthesized, row_concat] at hrow
  refine (hrow ?_).of_isPrefix ⟨[.mark .rightParen], by simp⟩
  simpa using ⟨hgenuine, hd'⟩

end Form

/-- Behind which tokens the next one is taken before it is judged, and as what it is taken. Behind
`def` and in a row of parameters that is a type, behind a type it is a name, and behind the bracket
of a declared name it is a length. -/
inductive TakenAs : Expectation → List Token → Prop
  | returned (before : List Token) : TakenAs .type (before ++ [Token.keyword .def_])
  | parameter (before : List Token) (type : DataType) (name : String)
      (ps : List Concrete.Parameter) :
      TakenAs .type (before ++ Token.keyword .def_ :: type.token :: .identifier name ::
        .mark .leftParen :: Concrete.Parameter.form.heads ps)
  | name (before : List Token) (type : DataType) : TakenAs .identifier (before ++ [type.token])
  | length (before : List Token) (type : DataType) (name : String) :
      TakenAs .arrayLength (before ++ [type.token, .identifier name, .mark .leftBracket])

/-- The next token is judged before it is taken. -/
def Judged (ts : List Token) : Prop :=
  ∀ what, ¬ TakenAs what ts

/-- The tokens that begin declarations. -/
def Token.declares (t : Token) : Bool :=
  t.isType || t == .keyword .def_

/-- The marks that end declarations and statements or begin lists of them. -/
def Mark.closes (m : Mark) : Bool :=
  m == .semicolon || m == .leftBrace || m == .rightBrace

theorem DataType.declares_token (type : DataType) : type.token.declares = true := by
  cases type <;> rfl

namespace TakenAs

variable {what : Expectation}

/-- What makes the next token one to take begins with a token that declares, and no declaration ends
in between. -/
theorem exists_pattern (h : TakenAs what ts) :
    ∃ before t tail, ts = before ++ t :: tail ∧ t.declares = true ∧
    ∀ m : Mark, m.closes = true → .mark m ∉ t :: tail := by
  have htype (m : Mark) (type : DataType) : Token.mark m ≠ type.token := by
    cases type <;> exact nofun
  cases h with
  | returned before => exact ⟨before, _, [], rfl, rfl, by simp⟩
  | parameter before type name ps =>
    refine ⟨before, _, _, rfl, rfl, fun m hm hmem => ?_⟩
    simp only [List.mem_cons, Form.heads, List.mem_flatMap, Concrete.Parameter.form,
      List.mem_append, htype, reduceCtorEq, List.not_mem_nil, or_false, false_or, Token.mark.injEq,
      exists_and_right] at hmem
    obtain rfl | ⟨-, rfl⟩ := hmem <;> cases hm
  | name before type => exact ⟨before, _, [], rfl, type.declares_token, by simp [htype]⟩
  | length before type name =>
    refine ⟨before, _, _, rfl, type.declares_token, fun m hm hmem => ?_⟩
    simp only [List.mem_cons, htype, reduceCtorEq, List.not_mem_nil, or_false, false_or,
      Token.mark.injEq] at hmem
    obtain rfl := hmem
    cases hm

/-- The last token before one that is taken. -/
theorem last (h : TakenAs what (ts ++ [t])) :
    t.declares = true ∨ t ∈ [Token.mark .leftParen, .mark .leftBracket, .mark .comma] := by
  generalize hus : ts ++ [t] = us at h
  have hlast (vs : List Token) (v : Token) (hvs : us = vs ++ [v]) : v = t :=
    (List.append_singleton_inj.mp (hus.trans hvs)).2.symm
  cases h with
  | returned before =>
    obtain rfl := hlast before (.keyword .def_) rfl
    exact .inl rfl
  | parameter before type name ps =>
    rcases List.eq_nil_or_concat ps with rfl | ⟨ps, p, rfl⟩
    · obtain rfl := hlast (before ++ [Token.keyword .def_, type.token, .identifier name])
        (.mark .leftParen) (by simp [Form.heads])
      exact .inr (by simp)
    · obtain rfl := hlast (before ++ Token.keyword .def_ :: type.token :: .identifier name ::
        .mark .leftParen ::
        (Concrete.Parameter.form.heads ps ++ [p.type.token, .identifier p.name])) (.mark .comma)
        (by simp [Form.heads, Concrete.Parameter.form])
      exact .inr (by simp)
  | name before type =>
    obtain rfl := hlast before type.token rfl
    exact .inl type.declares_token
  | length before type name =>
    obtain rfl := hlast (before ++ [type.token, .identifier name]) (.mark .leftBracket) (by simp)
    exact .inr (by simp)

end TakenAs

theorem judged_concat (hdeclares : t.declares = false)
    (hmark : t ∉ [Token.mark .leftParen, .mark .leftBracket, .mark .comma]) :
    Judged (ts ++ [t]) := by
  intro what h
  rcases h.last with h | h
  · exact absurd h (by simp [hdeclares])
  · exact hmark h

/-- None of the tokens begins a declaration. -/
def Quiet (ts : List Token) : Prop :=
  ∀ t ∈ ts, t.declares = false

@[simp] theorem quiet_nil : Quiet [] :=
  List.forall_mem_nil _

@[simp] theorem quiet_cons : Quiet (t :: ts) ↔ t.declares = false ∧ Quiet ts :=
  List.forall_mem_cons

@[simp] theorem quiet_append : Quiet (ts ++ us) ↔ Quiet ts ∧ Quiet us :=
  List.forall_mem_append

/-- No declaration is under way, so tokens are judged up to the next one that begins a
declaration. -/
def Calm (ts : List Token) : Prop :=
  ∀ us, Quiet us → Judged (ts ++ us)

theorem Calm.judged (h : Calm ts) : Judged ts := by
  simpa using h [] quiet_nil

theorem Calm.append (h : Calm ts) (hus : Quiet us) : Calm (ts ++ us) := by
  intro vs hvs
  rw [List.append_assoc]
  exact h _ (quiet_append.mpr ⟨hus, hvs⟩)

theorem calm_nil : Calm [] := by
  intro us hus what h
  obtain ⟨before, t, tail, rfl, ht, -⟩ := h.exists_pattern
  exact absurd ht (by simp [hus t (by simp)])

theorem calm_concat {m : Mark} (hm : m.closes = true) : Calm (ts ++ [Token.mark m]) := by
  intro us hus what h
  obtain ⟨before, t, tail, hts, ht, hclose⟩ := h.exists_pattern
  -- The mark is not among the tokens from `t` on, so these are all behind it.
  rcases List.append_eq_append_iff.mp hts with ⟨between, -, rfl⟩ | ⟨between, hbetween, htail⟩
  · exact absurd ht (by simp [hus t (by simp)])
  · rcases List.eq_nil_or_concat between with rfl | ⟨between, u, rfl⟩
    · rw [List.nil_append] at htail
      exact absurd ht (by simp [hus t (by simp [← htail])])
    · rw [List.concat_eq_append, ← List.append_assoc] at hbetween
      obtain ⟨-, rfl⟩ := List.append_singleton_inj.mp hbetween
      exact hclose m hm (by simp [htail])

theorem Form.calm_many {δ α : Type} {F : Form δ α}
    (hF : ∀ d, ∃ us m, F.tokens d = us ++ [Token.mark m] ∧ m.closes = true) (h : Calm ts)
    (ds : List δ) : Calm (ts ++ F.many.tokens ds) := by
  rcases List.eq_nil_or_concat ds with rfl | ⟨ds, d, rfl⟩
  · simpa using h
  · obtain ⟨us, m, hd, hm⟩ := hF d
    have hds : ts ++ F.many.tokens (ds.concat d) = ts ++ F.many.tokens ds ++ us ++
        [Token.mark m] := by
      simp [Form.many, hd]
    rw [hds]
    exact calm_concat hm

end DecafCheck
