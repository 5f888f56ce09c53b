import DecafCheck.Proofs.Grammar.Yields
import Mathlib.Tactic.Tauto

namespace DecafCheck

/-- What stretches of tokens are read as: derivations, the tokens that each of them yields, and what
it stands for along lexemes. -/
structure Form (δ α : Type) where
  Proper : δ → Prop
  tokens : δ → List Token
  along : List Lexeme → δ → α

namespace Form

variable {δ α : Type} {F : Form δ α} {c c' : Cursor}

/-- The tokens at `c` are those of a derivation that stands for `a`, and `c'` is behind them. -/
def Spells (F : Form δ α) (c : Cursor) (d : δ) (a : α) (c' : Cursor) : Prop :=
  F.Proper d ∧ F.tokens d <+: c.tokens ∧ F.along c.ahead d = a ∧ c.forward (F.tokens d).length = c'

theorem Spells.clean {d : δ} {a : α} (h : F.Spells c d a c') (hc : c.Clean) : c'.Clean :=
  h.2.2.2 ▸ hc.forward

theorem Spells.length {d : δ} {a : α} (h : F.Spells c d a c') :
    c'.tokens.length + (F.tokens d).length = c.tokens.length := by
  obtain ⟨-, ht, -, rfl⟩ := h
  have := ht.length_le
  rw [Cursor.tokens_forward, List.length_drop]
  omega

/-- Derivations that keep the span of their tokens. -/
theorem spells_iff_span {d : δ} (value : List Lexeme → Span → α)
    (halong : ∀ ls, F.along ls d = value ls (Lexeme.cover ls (F.tokens d).length))
    (hne : F.tokens d ≠ []) {a : α} :
    F.Spells c d a c' ↔ F.Proper d ∧ F.tokens d <+: c.tokens ∧ c.forward (F.tokens d).length = c' ∧
      value c.ahead (c.span.merge c'.previous) = a := by
  rw [Spells, halong]
  constructor
  · rintro ⟨hp, ht, ha, rfl⟩
    rw [← Cursor.merge_forward ht hne] at ha
    exact ⟨hp, ht, rfl, ha⟩
  · rintro ⟨hp, ht, rfl, ha⟩
    rw [Cursor.merge_forward ht hne] at ha
    exact ⟨hp, ht, ha, rfl⟩

section Other

variable {ε β : Type} {G : Form ε β} {d : δ} {e : ε} {a : α}

/-- Derivations that are those of another form, for something made of what these stand for. -/
theorem spells_iff_same (value : β → α) (hproper : F.Proper d ↔ G.Proper e)
    (htokens : F.tokens d = G.tokens e) (halong : ∀ ls, F.along ls d = value (G.along ls e)) :
    F.Spells c d a c' ↔ ∃ b, G.Spells c e b c' ∧ value b = a := by
  rw [Spells, hproper, htokens, halong]
  constructor
  · rintro ⟨hp, ht, rfl, rfl⟩
    exact ⟨_, ⟨hp, ht, rfl, rfl⟩, rfl⟩
  · rintro ⟨_, ⟨hp, ht, rfl, rfl⟩, rfl⟩
    exact ⟨hp, ht, rfl, rfl⟩

/-- The same behind a token, for something that may keep the span of all the tokens. -/
theorem spells_iff_led {t : Token} (value : β → Span → α) (hproper : F.Proper d ↔ G.Proper e)
    (htokens : F.tokens d = t :: G.tokens e)
    (halong : ∀ ls, F.along ls d = value (G.along (ls.drop 1) e) (Lexeme.cover ls
      (F.tokens d).length)) :
    F.Spells c d a c' ↔ c.current = some t ∧ ∃ b, G.Spells (c.forward 1) e b c' ∧
      value b (c.span.merge c'.previous) = a := by
  have hne : F.tokens d ≠ [] := htokens ▸ List.cons_ne_nil _ _
  rw [spells_iff_span (fun ls => value (G.along (ls.drop 1) e)) halong hne, hproper, htokens,
    Cursor.cons_prefix_iff, Cursor.forward_cons]
  constructor
  · rintro ⟨hp, ⟨ht, hts⟩, rfl, rfl⟩
    exact ⟨ht, _, ⟨hp, hts, rfl, rfl⟩, rfl⟩
  · rintro ⟨ht, _, ⟨hp, hts, rfl, rfl⟩, rfl⟩
    exact ⟨hp, ⟨ht, hts⟩, rfl, rfl⟩

end Other

/-- A successful run of the parser goes along a derivation, and it succeeds along every derivation
that ends before a token meeting `ends`, as long as there are fewer than `bound` tokens ahead. -/
structure Reads (F : Form δ α) (p : Parser α) (ends : Option Token → Prop) (bound : Nat) :
    Prop where
  sound : ∀ {c c' : Cursor} {a : α}, p.Yields c a c' → ∃ d, F.Spells c d a c'
  complete : ∀ {c c' : Cursor} {d : δ} {a : α}, c.Clean → c.tokens.length < bound →
      F.Spells c d a c' →
    ends c'.current → p.Yields c a c'

theorem Reads.of_sound {p : Parser α} {ends : Option Token → Prop}
    (sound : ∀ {c c' : Cursor} {a : α}, p.Yields c a c' → ∃ d, F.Spells c d a c') :
    F.Reads p ends 0 :=
  ⟨sound, fun _ hb => absurd hb (Nat.not_lt_zero _)⟩

/-- Where a derivation may end is known from the token behind it, and so is which derivation it
is. -/
structure Unique (F : Form δ α) (ends : Option Token → Prop) (bound : Nat) : Prop where
  eq : ∀ {d d' : δ} {ts ts' : List Token}, F.Proper d → F.Proper d' →
    (F.tokens d ++ ts).length < bound →
    F.tokens d ++ ts = F.tokens d' ++ ts' → ends ts.head? → ends ts'.head? → d = d' ∧ ts = ts'

/-- Every derivation begins with a token that meets the condition. -/
def Starts (F : Form δ α) (first : Token → Prop) : Prop :=
  ∀ d, F.Proper d → ∃ t ts, F.tokens d = t :: ts ∧ first t

theorem Spells.current {first : Token → Prop} (starts : F.Starts first) {d : δ} {a : α}
    (h : F.Spells c d a c') :
    ∃ t, c.current = some t ∧ first t := by
  obtain ⟨t, ts, ht, hfirst⟩ := starts d h.1
  exact ⟨t, (Cursor.cons_prefix_iff.mp (ht ▸ h.2.1)).1, hfirst⟩

def alongMany (F : Form δ α) : List Lexeme → List δ → List α
  | _, [] => []
  | ls, d :: ds => F.along ls d :: F.alongMany (ls.drop (F.tokens d).length) ds

/-- Any number of derivations one after the other. -/
def many (F : Form δ α) : Form (List δ) (List α) where
  Proper ds := ∀ d ∈ ds, F.Proper d
  tokens ds := ds.flatMap F.tokens
  along := F.alongMany

@[simp] theorem tokens_many_nil : F.many.tokens [] = [] := rfl

@[simp] theorem tokens_many_cons (d : δ) (ds : List δ) :
    F.many.tokens (d :: ds) = F.tokens d ++ F.many.tokens ds :=
  List.flatMap_cons

theorem spells_nil {as : List α} : F.many.Spells c [] as c' ↔ [] = as ∧ c = c' := by
  simp [Spells, many, alongMany]

theorem spells_cons {d : δ} {ds : List δ} {as : List α} :
    F.many.Spells c (d :: ds) as c' ↔
      ∃ a b bs, F.Spells c d a b ∧ F.many.Spells b ds bs c' ∧ a :: bs = as := by
  simp only [Spells, tokens_many_cons, Cursor.append_prefix_iff, Cursor.forward_append]
  simp only [many, alongMany, List.forall_mem_cons]
  constructor
  · rintro ⟨⟨hd, hds⟩, ⟨ht, hts⟩, rfl, rfl⟩
    exact ⟨_, _, _, ⟨hd, ht, rfl, rfl⟩, ⟨hds, hts, rfl, rfl⟩, rfl⟩
  · rintro ⟨_, _, _, ⟨hd, ht, rfl, rfl⟩, ⟨hds, hts, rfl, rfl⟩, rfl⟩
    exact ⟨⟨hd, hds⟩, ⟨ht, hts⟩, rfl, rfl⟩

theorem many_sound {item : Parser α} {continues : Option Token → Bool}
    (sound : ∀ {c c' : Cursor} {a : α}, continues c.current = true → item.Yields c a c' →
      ∃ d, F.Spells c d a c')
    {bound : Nat} {as : List α} (h : (Parser.manyUpTo continues item bound).Yields c as c') :
    ∃ ds, F.many.Spells c ds as c' := by
  induction bound generalizing c as with
  | zero => exact ⟨[], spells_nil.mpr (Parser.yields_pure.mp h)⟩
  | succ bound ih =>
    simp only [Parser.manyUpTo, Parser.yields_bind, Parser.yields_current, Parser.yields_ite,
      Parser.yields_pure] at h
    obtain ⟨_, _, ⟨rfl, rfl⟩, ⟨hn, a, b, ha, bs, _, hbs, rfl, rfl⟩ | ⟨-, rfl, rfl⟩⟩ := h
    · obtain ⟨d, hd⟩ := sound hn ha
      obtain ⟨ds, hds⟩ := ih hbs
      exact ⟨d :: ds, spells_cons.mpr ⟨a, b, bs, hd, hds, rfl⟩⟩
    · exact ⟨[], spells_nil.mpr ⟨rfl, rfl⟩⟩

theorem sound_many {item : Parser α} {continues : Option Token → Bool}
    (sound : ∀ {c c' : Cursor} {a : α}, continues c.current = true → item.Yields c a c' →
      ∃ d, F.Spells c d a c')
    {as : List α} (h : (Parser.many continues item).Yields c as c') :
    ∃ ds, F.many.Spells c ds as c' := by
  simp only [Parser.many, Parser.yields_bind, Parser.yields_remaining] at h
  obtain ⟨_, _, ⟨rfl, rfl⟩, h⟩ := h
  exact many_sound sound h

/-- The parser of a list stops where the list does not go on; it has enough steps, since every item
takes a token. -/
theorem many_ends {item : Parser α} {continues : Option Token → Bool} {first : Token → Prop}
    (starts : F.Starts first) (sound : ∀ {c c' : Cursor} {a : α}, continues c.current = true →
      item.Yields c a c' → ∃ d, F.Spells c d a c')
    (hn : continues none = false) {steps : Nat} (hs : c.tokens.length ≤ steps) {as : List α}
    (h : (Parser.manyUpTo continues item steps).Yields c as c') : continues c'.current = false := by
  induction steps generalizing c as with
  | zero =>
    obtain ⟨-, rfl⟩ := Parser.yields_pure.mp h
    rw [Cursor.current_eq, List.eq_nil_of_length_eq_zero (Nat.le_zero.mp hs)]
    exact hn
  | succ steps ih =>
    simp only [Parser.manyUpTo, Parser.yields_bind, Parser.yields_current, Parser.yields_ite,
      Parser.yields_pure] at h
    obtain ⟨_, _, ⟨rfl, rfl⟩, ⟨hc, a, b, ha, bs, _, hbs, rfl, rfl⟩ | ⟨hc, rfl, rfl⟩⟩ := h
    · obtain ⟨d, hd⟩ := sound hc ha
      obtain ⟨t, ts, ht, -⟩ := starts d hd.1
      have hlength := hd.length
      rw [ht, List.length_cons] at hlength
      exact ih (by omega) hbs
    · exact eq_false_of_ne_true hc

theorem length_le_tokens_many {first : Token → Prop} (starts : F.Starts first) {ds : List δ}
    (h : F.many.Proper ds) :
    ds.length ≤ (F.many.tokens ds).length := by
  induction ds with
  | nil => exact Nat.zero_le _
  | cons d ds ih =>
    obtain ⟨t, ts, ht, -⟩ := starts d (h d List.mem_cons_self)
    have hds := ih fun e he => h e (List.mem_cons_of_mem d he)
    rw [tokens_many_cons, ht, List.length_append, List.length_cons, List.length_cons]
    omega

/-- What follows a derivation in a list is the beginning of the next one or what follows the
list. -/
theorem current_many {first : Token → Prop} (ends : Option Token → Prop) (starts : F.Starts first)
    (hf : ∀ t, first t → ends (some t)) {ds : List δ} {as : List α} (h : F.many.Spells c ds as c')
    (he : ends c'.current) : ends c.current := by
  cases ds with
  | nil =>
    obtain ⟨-, rfl⟩ := spells_nil.mp h
    exact he
  | cons d ds =>
    obtain ⟨a, b, bs, hd, -, -⟩ := spells_cons.mp h
    obtain ⟨t, ht, hfirst⟩ := hd.current starts
    exact ht ▸ hf t hfirst

theorem many_complete {item : Parser α} {continues : Option Token → Bool}
    {ends : Option Token → Prop} {bound : Nat}
    (complete : ∀ {c c' : Cursor} {d : δ} {a : α}, c.Clean → c.tokens.length < bound →
      F.Spells c d a c' → ends c'.current → item.Yields c a c')
    (starts : F.Starts fun t => continues (some t) = true ∧ ends (some t)) (hc : c.Clean)
    (hb : c.tokens.length < bound) {ds : List δ} {as : List α} (h : F.many.Spells c ds as c')
    (he : ends c'.current) (hn : continues c'.current = false) {steps : Nat}
    (hs : ds.length ≤ steps) :
    (Parser.manyUpTo continues item steps).Yields c as c' := by
  induction ds generalizing c as steps with
  | nil =>
    obtain ⟨rfl, rfl⟩ := spells_nil.mp h
    cases steps with
    | zero => simp [Parser.manyUpTo]
    | succ steps => simp [Parser.manyUpTo, hn]
  | cons d ds ih =>
    obtain ⟨a, b, bs, hd, hds, rfl⟩ := spells_cons.mp h
    obtain ⟨steps, rfl⟩ : ∃ m, steps = m + 1 := ⟨steps - 1, by simp at hs; omega⟩
    obtain ⟨t, hcurrent, hfirst⟩ := hd.current starts
    have hend : ends b.current := current_many ends starts (fun t h => h.2) hds he
    have hlength := hd.length
    simp only [Parser.manyUpTo, Parser.yields_bind, Parser.yields_current, Parser.yields_ite,
      Parser.yields_pure]
    refine ⟨_, _, ⟨rfl, rfl⟩, .inl ⟨hcurrent ▸ hfirst.1, a, b, complete hc hb hd hend, bs, c',
      ?_, rfl, rfl⟩⟩
    exact ih (hd.clean hc) (by omega) hds (by simpa using hs)

/-- The parser of a list reads the list, given that its items are read wherever it goes on. -/
theorem reads_many {item : Parser α} {continues : Option Token → Bool}
    {ends : Option Token → Prop} {bound : Nat}
    (sound : ∀ {c c' : Cursor} {a : α}, continues c.current = true → item.Yields c a c' →
      ∃ d, F.Spells c d a c')
    (complete : ∀ {c c' : Cursor} {d : δ} {a : α}, c.Clean → c.tokens.length < bound →
      F.Spells c d a c' → ends c'.current → item.Yields c a c')
    (starts : F.Starts fun t => continues (some t) = true ∧ ends (some t)) :
    F.many.Reads (Parser.many continues item) (fun t => ends t ∧ continues t = false) bound where
  sound hy := sound_many sound hy
  complete hc hb h he := by
    have hlength := h.length
    have hcount := length_le_tokens_many starts h.1
    simp only [Parser.many, Parser.yields_bind, Parser.yields_remaining]
    exact ⟨_, _, ⟨rfl, rfl⟩, many_complete complete starts hc hb h he.1 he.2 (by omega)⟩

theorem ends_head?_many {first : Token → Prop} (ends : Option Token → Prop)
    (starts : F.Starts first) (hf : ∀ t, first t → ends (some t)) {ds : List δ}
    (hds : F.many.Proper ds) {ts : List Token} (he : ends ts.head?) :
    ends (F.many.tokens ds ++ ts).head? := by
  cases ds with
  | nil => exact he
  | cons d ds =>
    obtain ⟨t, us, ht, hfirst⟩ := starts d (hds d List.mem_cons_self)
    rw [tokens_many_cons, ht]
    exact hf t hfirst

theorem Unique.many {continues : Option Token → Bool} {ends : Option Token → Prop} {bound : Nat}
    (h : F.Unique ends bound) (starts : F.Starts fun t => continues (some t) = true ∧
      ends (some t)) :
    F.many.Unique (fun t => ends t ∧ continues t = false) bound := by
  -- Where one list goes on and the other does not, the token there both begins an item and ends the
  -- list.
  have hstop {d : δ} {ds : List δ} {ts ts' : List Token} (hd : F.Proper d)
      (ht : ts = F.many.tokens (d :: ds) ++ ts') (hn : continues ts.head? = false) : False := by
    obtain ⟨t, us, hts, hfirst, -⟩ := starts d hd
    rw [ht, tokens_many_cons, hts] at hn
    exact Bool.noConfusion (hn.symm.trans hfirst)
  constructor
  intro ds ds' ts ts' hds hds' hb ht he he'
  induction ds generalizing ds' with
  | nil =>
    cases ds' with
    | nil => exact ⟨rfl, ht⟩
    | cons d' ds' => exact (hstop (hds' d' List.mem_cons_self) ht he.2).elim
  | cons d ds ih =>
    cases ds' with
    | nil => exact (hstop (hds d List.mem_cons_self) ht.symm he'.2).elim
    | cons d' ds' =>
      have hrest := fun e he => hds e (List.mem_cons_of_mem d he)
      have hrest' := fun e he => hds' e (List.mem_cons_of_mem d' he)
      rw [tokens_many_cons, tokens_many_cons, List.append_assoc, List.append_assoc] at ht
      rw [tokens_many_cons, List.append_assoc] at hb
      obtain ⟨rfl, hts⟩ := h.eq (hds d List.mem_cons_self) (hds' d' List.mem_cons_self) hb ht
        (ends_head?_many ends starts (fun t h => h.2) hrest he.1)
        (ends_head?_many ends starts (fun t h => h.2) hrest' he'.1)
      have hb' : (F.many.tokens ds ++ ts).length < bound := by
        rw [List.length_append] at hb
        omega
      obtain ⟨rfl, rfl⟩ := ih hrest hrest' hb' hts
      exact ⟨rfl, rfl⟩

/-- A form that may be left out is unique if what follows it never looks like the form. -/
theorem Unique.of_option {F : Form (Option δ) α} {ends : Option Token → Prop} {bound : Nat}
    (hnone : F.tokens none = [])
    (hclash : ∀ {d : δ} (ts : List Token), F.Proper (some d) →
      ¬ ends (F.tokens (some d) ++ ts).head?)
    (hsome : ∀ {d d' : δ} {ts ts' : List Token}, F.Proper (some d) → F.Proper (some d') →
      (F.tokens (some d) ++ ts).length < bound →
      F.tokens (some d) ++ ts = F.tokens (some d') ++ ts' →
        ends ts.head? → ends ts'.head? → d = d' ∧ ts = ts') :
    F.Unique ends bound := by
  constructor
  intro o o' ts ts' ho ho' hb ht he he'
  cases o with
  | none =>
    rw [hnone, List.nil_append] at ht
    cases o' with
    | none =>
      rw [hnone, List.nil_append] at ht
      exact ⟨rfl, ht⟩
    | some d' => exact absurd (ht ▸ he) (hclash ts' ho')
  | some d =>
    cases o' with
    | none =>
      rw [hnone, List.nil_append] at ht
      exact absurd (ht ▸ he') (hclash ts ho)
    | some d' =>
      obtain ⟨rfl, hts⟩ := hsome ho ho' hb ht he he'
      exact ⟨rfl, hts⟩

/-- Derivations with a token before them. -/
def behind (t : Token) (F : Form δ α) : Form δ α where
  Proper := F.Proper
  tokens d := t :: F.tokens d
  along ls d := F.along (ls.drop 1) d

theorem spells_behind {t : Token} {d : δ} {a : α} :
    (F.behind t).Spells c d a c' ↔ c.current = some t ∧ F.Spells (c.forward 1) d a c' := by
  simp only [Spells, behind, Cursor.cons_prefix_iff, Cursor.forward_cons, Cursor.ahead_forward]
  tauto

theorem behind_sound {item : Parser α}
    (sound : ∀ {c c' : Cursor} {a : α}, item.Yields c a c' → ∃ d, F.Spells c d a c') {t : Token}
    (ht : c.current = some t) {a : α} (hy : (Parser.skip >>= fun _ => item).Yields c a c') :
    ∃ d, (F.behind t).Spells c d a c' := by
  obtain ⟨_, b, hs, hy⟩ := Parser.yields_bind.mp hy
  obtain ⟨-, rfl⟩ := (Parser.yields_skip ht).mp hs
  obtain ⟨d, hd⟩ := sound hy
  exact ⟨d, spells_behind.mpr ⟨ht, hd⟩⟩

theorem Unique.behind {t : Token} {ends : Option Token → Prop} {bound : Nat}
    (h : F.Unique ends bound) :
    (F.behind t).Unique ends (bound + 1) := by
  constructor
  intro d d' ts ts' hd hd' hb ht he he'
  exact h.eq hd hd' (by simpa [Form.behind] using hb) (List.cons.inj ht).2 he he'

/-- Derivations with commas between them. -/
def row (F : Form δ α) : Form (List δ) (List α) where
  Proper ds := ∀ d ∈ ds, F.Proper d
  tokens
    | [] => []
    | d :: ds => F.tokens d ++ (F.behind (.mark .comma)).many.tokens ds
  along ls
    | [] => []
    | d :: ds =>
      F.along ls d :: (F.behind (.mark .comma)).many.along (ls.drop (F.tokens d).length) ds

/-- The derivations behind the first one of a row. -/
abbrev later (F : Form δ α) : Form (List δ) (List α) :=
  (F.behind (.mark .comma)).many

theorem starts_behind {t : Token} {first : Token → Prop} (ht : first t) :
    (F.behind t).Starts first :=
  fun d _ => ⟨t, F.tokens d, rfl, ht⟩

@[simp] theorem tokens_row_nil : F.row.tokens [] = [] := rfl

@[simp] theorem tokens_row_cons (d : δ) (ds : List δ) :
    F.row.tokens (d :: ds) = F.tokens d ++ F.later.tokens ds := rfl

theorem spells_row_nil {as : List α} : F.row.Spells c [] as c' ↔ [] = as ∧ c = c' := by
  simp [Spells, row]

theorem spells_row_cons {d : δ} {ds : List δ} {as : List α} :
    F.row.Spells c (d :: ds) as c' ↔
      ∃ a b bs, F.Spells c d a b ∧ F.later.Spells b ds bs c' ∧ a :: bs = as := by
  simp only [Spells, row, Cursor.append_prefix_iff, Cursor.forward_append, List.forall_mem_cons]
  constructor
  · rintro ⟨⟨hd, hds⟩, ⟨ht, hts⟩, rfl, rfl⟩
    exact ⟨_, _, _, ⟨hd, ht, rfl, rfl⟩, ⟨hds, hts, rfl, rfl⟩, rfl⟩
  · rintro ⟨_, _, _, ⟨hd, ht, rfl, rfl⟩, ⟨hds, hts, rfl, rfl⟩, rfl⟩
    exact ⟨⟨hd, hds⟩, ⟨ht, hts⟩, rfl, rfl⟩

section Row

variable {item : Parser α} {ends : Option Token → Prop} {bound : Nat}

theorem reads_later (h : F.Reads item ends bound) (hcomma : ends (some (.mark .comma))) :
    F.later.Reads
      (Parser.many (· == some (.mark .comma)) do
        Parser.skip
        item)
      (fun t => ends t ∧ (t == some (.mark .comma)) = false) bound := by
  apply reads_many
  · intro c c' a hn hy
    exact behind_sound h.sound (beq_iff_eq.mp hn) hy
  · intro c c' d a hc hb hd he
    obtain ⟨hcurrent, hd⟩ := spells_behind.mp hd
    have hshort : (c.forward 1).tokens.length < bound := by
      rw [Cursor.tokens_forward, List.length_drop]
      omega
    refine Parser.yields_bind.mpr ⟨(), _, (Parser.yields_skip hcurrent).mpr ⟨hc.passes, rfl⟩, ?_⟩
    exact h.complete hc hshort hd he
  · exact starts_behind ⟨beq_self_eq_true _, hcomma⟩

theorem separated_sound (h : F.Reads item ends bound) (hcomma : ends (some (.mark .comma)))
    {as : List α} (hy : (Parser.separated item).Yields c as c') :
    ∃ ds, F.row.Spells c ds as c' := by
  simp only [Parser.separated, Parser.yields_bind, Parser.yields_pure] at hy
  obtain ⟨a, b, ha, bs, _, hbs, rfl, rfl⟩ := hy
  obtain ⟨d, hd⟩ := h.sound ha
  obtain ⟨ds, hds⟩ := (reads_later h hcomma).sound (by simpa using hbs)
  exact ⟨d :: ds, spells_row_cons.mpr ⟨a, b, bs, hd, hds, rfl⟩⟩

theorem separated_complete (h : F.Reads item ends bound) (hcomma : ends (some (.mark .comma)))
    (hc : c.Clean) (hb : c.tokens.length < bound) {d : δ} {ds : List δ} {as : List α}
    (hs : F.row.Spells c (d :: ds) as c') (he : ends c'.current)
    (hn : c'.current ≠ some (.mark .comma)) : (Parser.separated item).Yields c as c' := by
  obtain ⟨a, b, bs, hd, hds, rfl⟩ := spells_row_cons.mp hs
  have hlength := hd.length
  have hstarts : (F.behind (.mark .comma)).Starts fun t => ends (some t) := starts_behind hcomma
  have hend : ends b.current := current_many ends hstarts (fun _ h => h) hds he
  simp only [Parser.separated, Parser.yields_bind, Parser.yields_pure]
  refine ⟨a, b, h.complete hc hb hd hend, bs, c', ?_, rfl, rfl⟩
  simpa using (reads_later h hcomma).complete (hd.clean hc) (by omega) hds ⟨he, by simpa using hn⟩

end Row

/-- A row in parentheses. -/
def parenthesized (F : Form δ α) : Form (List δ) (List α) where
  Proper := F.row.Proper
  tokens ds := .mark .leftParen :: (F.row.tokens ds ++ [.mark .rightParen])
  along ls ds := F.row.along (ls.drop 1) ds

theorem tokens_parenthesized (ds : List δ) :
    F.parenthesized.tokens ds = .mark .leftParen :: (F.row.tokens ds ++ [.mark .rightParen]) := rfl

theorem spells_parenthesized {ds : List δ} {as : List α} :
    F.parenthesized.Spells c ds as c' ↔ c.current = some (.mark .leftParen) ∧
      ∃ b, F.row.Spells (c.forward 1) ds as b ∧ b.current = some (.mark .rightParen) ∧
        b.forward 1 = c' := by
  simp only [Spells, parenthesized, Cursor.cons_prefix_iff, Cursor.append_prefix_iff,
    Cursor.forward_cons, Cursor.forward_append, Cursor.ahead_forward]
  constructor
  · rintro ⟨hp, ⟨ht, hts, hr, -⟩, rfl, rfl⟩
    exact ⟨ht, _, ⟨hp, hts, rfl, rfl⟩, hr, rfl⟩
  · rintro ⟨ht, _, ⟨hp, hts, rfl, rfl⟩, hr, rfl⟩
    exact ⟨hp, ⟨ht, hts, hr, List.nil_prefix⟩, rfl, rfl⟩

theorem reads_parenthesized {item : Parser α} {ends : Option Token → Prop} {bound : Nat}
    (h : F.Reads item ends bound) (hcomma : ends (some (.mark .comma)))
    (hclose : ends (some (.mark .rightParen))) (starts : F.Starts fun t => t ≠ .mark .rightParen) :
    F.parenthesized.Reads (Parser.parenthesized item) (fun _ => True) (bound + 1) := by
  constructor
  · intro c c' as hy
    obtain ⟨ht, -, b, hitems, hr, -, rfl⟩ := Parser.yields_parenthesized.mp hy
    rcases hitems with ⟨-, rfl, rfl⟩ | ⟨-, hitems⟩
    · exact ⟨[], spells_parenthesized.mpr ⟨ht, _, spells_row_nil.mpr ⟨rfl, rfl⟩, hr, rfl⟩⟩
    · obtain ⟨ds, hds⟩ := separated_sound h hcomma hitems
      exact ⟨ds, spells_parenthesized.mpr ⟨ht, b, hds, hr, rfl⟩⟩
  · intro c c' ds as hc hb hs _
    obtain ⟨ht, b, hrow, hr, rfl⟩ := spells_parenthesized.mp hs
    have hshort := Cursor.length_forward_lt ht
    refine Parser.yields_parenthesized.mpr ⟨ht, hc.passes, b, ?_, hr, (hrow.clean hc).passes, rfl⟩
    cases ds with
    | nil =>
      obtain ⟨rfl, rfl⟩ := spells_row_nil.mp hrow
      exact .inl ⟨hr, rfl, rfl⟩
    | cons d ds =>
      obtain ⟨a, e, as, hd, -, -⟩ := spells_row_cons.mp hrow
      obtain ⟨t, hcurrent, hfirst⟩ := hd.current starts
      refine .inr ⟨fun he => hfirst ?_, ?_⟩
      · exact Option.some.inj (hcurrent.symm.trans he)
      · exact separated_complete h hcomma hc.forward (by omega) hrow (hr ▸ hclose) (by simp [hr])

theorem Unique.parenthesized {ends : Option Token → Prop} {bound : Nat} (h : F.Unique ends bound)
    (hcomma : ends (some (.mark .comma))) (hclose : ends (some (.mark .rightParen)))
    (starts : F.Starts fun t => t ≠ .mark .rightParen) :
    F.parenthesized.Unique (fun _ => True) (bound + 1) := by
  have hlater : F.later.Unique (fun t => ends t ∧ (t == some (.mark .comma)) = false) (bound + 1) :=
    h.behind.many (starts_behind ⟨beq_self_eq_true _, hcomma⟩)
  -- A row that is empty is followed by a parenthesis, and no derivation begins with one.
  have hempty {d : δ} {ds : List δ} {ts ts' : List Token} (hd : F.Proper d)
      (ht : .mark .rightParen :: ts = F.row.tokens (d :: ds) ++ ts') : False := by
    obtain ⟨t, us, hus, hne⟩ := starts d hd
    rw [tokens_row_cons, hus] at ht
    exact hne (List.cons.inj ht).1.symm
  constructor
  intro ds ds' ts ts' hds hds' hb ht _ _
  simp only [Form.parenthesized, List.cons_append, List.append_assoc, List.nil_append,
    List.cons.injEq, true_and] at ht
  simp only [Form.parenthesized, List.cons_append, List.append_assoc, List.nil_append,
    List.length_cons] at hb
  cases ds with
  | nil =>
    cases ds' with
    | nil => exact ⟨rfl, (List.cons.inj ht).2⟩
    | cons d' ds' => exact (hempty (hds' d' List.mem_cons_self) ht).elim
  | cons d ds =>
    cases ds' with
    | nil => exact (hempty (hds d List.mem_cons_self) ht.symm).elim
    | cons d' ds' =>
      rw [tokens_row_cons, List.append_assoc] at hb
      rw [tokens_row_cons, tokens_row_cons, List.append_assoc, List.append_assoc] at ht
      have hrest := fun e he => hds e (List.mem_cons_of_mem d he)
      have hrest' := fun e he => hds' e (List.mem_cons_of_mem d' he)
      have hstarts : (F.behind (.mark .comma)).Starts fun t => ends (some t) := starts_behind hcomma
      have hend {es : List δ} (hes : F.later.Proper es) (us : List Token) :
          ends (F.later.tokens es ++ .mark .rightParen :: us).head? :=
        ends_head?_many ends hstarts (fun _ h => h) hes hclose
      obtain ⟨rfl, hts⟩ := h.eq (hds d List.mem_cons_self)
        (hds' d' List.mem_cons_self) (by omega) ht (hend hrest ts) (hend hrest' ts')
      have hlast : ends (some (.mark .rightParen)) ∧
          (some (.mark .rightParen) == some (Token.mark .comma)) = false :=
        ⟨hclose, by decide⟩
      obtain ⟨rfl, hlater⟩ := hlater.eq hrest hrest'
        (by simp only [List.length_append] at hb ⊢; omega) hts hlast hlast
      exact ⟨rfl, (List.cons.inj hlater).2⟩

end Form

end DecafCheck
