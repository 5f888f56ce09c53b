import DecafCheck.Token.Lexer
import Mathlib.Data.List.Infix
import Mathlib.Data.List.TakeWhile

namespace DecafCheck

/-- The texts that a token is written as. Those of keywords are written like identifiers as well. -/
inductive Token.Written : Token → List Char → Prop
  | keyword (k : Keyword) : Written (.keyword k) k.spelling.toList
  | identifier {c : Char} {cs : List Char} : Lexer.isLetter c = true →
      (∀ d ∈ cs, Lexer.isWordChar d = true) →
      Written (.identifier (String.ofList (c :: cs))) (c :: cs)
  | decimal {c : Char} {cs : List Char} : (∀ d ∈ c :: cs, Integer.isDigit d = true) →
      Written (.integer (String.ofList (c :: cs))) (c :: cs)
  | hex {x c : Char} {cs : List Char} : x = 'x' ∨ x = 'X' →
      (∀ d ∈ c :: cs, Integer.isHexDigit d = true) →
      Written (.integer (String.ofList ('0' :: x :: c :: cs))) ('0' :: x :: c :: cs)
  | mark (m : Mark) : Written (.mark m) m.spelling.toList

namespace Lexer

/-- The texts that are passed over. -/
inductive Skipped : List Char → Prop
  | blanks {c : Char} {cs : List Char} : (∀ d ∈ c :: cs, isBlank d = true) → Skipped (c :: cs)
  | comment {cs : List Char} : '\n' ∉ cs → Skipped ('/' :: '/' :: cs)

/-- The texts of tokens and those passed over. -/
def Fits (cs : List Char) : Prop :=
  (∃ t : Token, t.Written cs) ∨ Skipped cs

/-- Nothing longer than `cs` at the head of `cs ++ rest` fits a pattern. -/
def Longest (cs rest : List Char) : Prop :=
  ∀ ds, Fits ds → ds <+: cs ++ rest → ds.length ≤ cs.length

section Classes

variable {c : Char}

theorem isDigit_iff : Integer.isDigit c = true ↔ 48 ≤ c.toNat ∧ c.toNat ≤ 57 := by
  simp only [Integer.isDigit, Bool.and_eq_true, decide_eq_true_eq, Char.le_def,
    UInt32.le_iff_toNat_le]
  rfl

theorem isLetter_iff : isLetter c = true ↔
    97 ≤ c.toNat ∧ c.toNat ≤ 122 ∨ 65 ≤ c.toNat ∧ c.toNat ≤ 90 ∨ c.toNat = 95 := by
  have h : c = '_' ↔ c.toNat = 95 := by
    rw [← Char.toNat_inj]
    rfl
  simp only [isLetter, Bool.or_eq_true, Bool.and_eq_true, decide_eq_true_eq,
    beq_iff_eq, Char.le_def, UInt32.le_iff_toNat_le, h, or_assoc]
  rfl

theorem isBlank_iff : isBlank c = true ↔
    c.toNat = 32 ∨ c.toNat = 9 ∨ c.toNat = 10 ∨ c.toNat = 13 ∨ c.toNat = 12 := by
  simp only [isBlank, Bool.or_eq_true, beq_iff_eq, ← Char.toNat_inj, or_assoc]
  rfl

theorem isLetter_of_isBlank (h : isBlank c = true) : isLetter c = false := by
  rw [isBlank_iff] at h
  rw [← Bool.not_eq_true, isLetter_iff]
  omega

theorem isDigit_of_isBlank (h : isBlank c = true) : Integer.isDigit c = false := by
  rw [isBlank_iff] at h
  rw [← Bool.not_eq_true, isDigit_iff]
  omega

theorem isDigit_of_isLetter (h : isLetter c = true) : Integer.isDigit c = false := by
  rw [isLetter_iff] at h
  rw [← Bool.not_eq_true, isDigit_iff]
  omega

theorem isBlank_of_isWordChar (h : isWordChar c = true) : isBlank c = false := by
  rw [← Bool.not_eq_true]
  intro hblank
  rw [isWordChar, isLetter_of_isBlank hblank, isDigit_of_isBlank hblank] at h
  cases h

theorem isWordChar_of_isHexDigit (h : Integer.isHexDigit c = true) : isWordChar c = true := by
  have hle {a b : Char} (hab : a ≤ b) (hc : c ≤ a) : c ≤ b := Char.le_trans hc hab
  simp only [Integer.isHexDigit, Bool.or_eq_true, Bool.and_eq_true, decide_eq_true_eq] at h
  simp only [isWordChar, isLetter, Bool.or_eq_true, Bool.and_eq_true, decide_eq_true_eq]
  rcases h with (h | ⟨h, hf⟩) | ⟨h, hf⟩
  · exact .inr h
  · exact .inl (.inl (.inl ⟨h, hle (by decide) hf⟩))
  · exact .inl (.inl (.inr ⟨h, hle (by decide) hf⟩))

end Classes

end Lexer

namespace Mark

theorem spelling_of_ofChar? {c : Char} {m : Mark} (h : ofChar? c = some m) :
    m.spelling.toList = [c] := by
  unfold ofChar? at h
  split at h <;> cases h <;> rfl

theorem spelling_of_ofPair? {c d : Char} {m : Mark} (h : ofPair? c d = some m) :
    m.spelling.toList = [c, d] := by
  unfold ofPair? at h
  split at h <;> cases h <;> rfl

/-- A mark is a pair of characters or a single one. -/
theorem spelling_cases (m : Mark) : (∃ c, m.spelling.toList = [c] ∧ ofChar? c = some m) ∨
    ∃ c d, m.spelling.toList = [c, d] ∧ ofPair? c d = some m := by
  cases m <;> first
    | exact .inl ⟨_, rfl, rfl⟩
    | exact .inr ⟨_, _, rfl, rfl⟩

/-- The characters that marks begin with are of no other class. -/
theorem first_class (m : Mark) : ∃ c cs, m.spelling.toList = c :: cs ∧ Lexer.isBlank c = false ∧
    Lexer.isLetter c = false ∧ Integer.isDigit c = false := by
  cases m <;> exact ⟨_, _, rfl, rfl, rfl, rfl⟩

/-- The mark that begins like a comment is a single character. -/
theorem slash_alone {m : Mark} {ds : List Char} (h : m.spelling.toList = '/' :: ds) : ds = [] := by
  cases m <;> simp_all [spelling]

end Mark

namespace Keyword

theorem spelling_class (k : Keyword) :
    ∃ c cs, k.spelling.toList = c :: cs ∧ Lexer.isLetter c = true ∧
    ∀ d ∈ cs, Lexer.isWordChar d = true := by
  cases k <;> exact ⟨_, _, rfl, rfl, List.all_eq_true.mp rfl⟩

theorem ofSpelling?_spelling (k : Keyword) : ofSpelling? k.spelling = some k := by
  cases k <;> decide

theorem spelling_of_ofSpelling? {word : String} {k : Keyword} (h : ofSpelling? word = some k) :
    k.spelling = word := by
  simpa using List.find?_some h

end Keyword

namespace Lexer

theorem not_fits_nil : ¬ Fits [] := by
  rintro (⟨t, h⟩ | h)
  · generalize hcs : ([] : List Char) = cs at h
    cases h with
    | keyword k =>
      obtain ⟨c, cs, hk, -⟩ := k.spelling_class
      cases hcs.trans hk
    | mark m =>
      obtain ⟨c, cs, hm, -⟩ := m.first_class
      cases hcs.trans hm
    | identifier | decimal | hex => cases hcs
  · cases h

section First

variable {c : Char} {ds : List Char}

/-- The patterns by their first characters. -/
theorem fits_cases (h : Fits (c :: ds)) :
    (isBlank c = true ∧ ∀ d ∈ ds, isBlank d = true) ∨
      (c = '/' ∧ ∃ es, ds = '/' :: es ∧ '\n' ∉ es) ∨
        (isLetter c = true ∧ ∀ d ∈ ds, isWordChar d = true) ∨
          (Integer.isDigit c = true ∧ ∀ d ∈ ds, Integer.isDigit d = true) ∨
            (c = '0' ∧ ∃ x e es, ds = x :: e :: es ∧ (x = 'x' ∨ x = 'X') ∧
              ∀ d ∈ e :: es, Integer.isHexDigit d = true) ∨
                ∃ m : Mark, m.spelling.toList = c :: ds := by
  rcases h with ⟨t, h⟩ | h
  · generalize hcs : c :: ds = cs at h
    cases h with
    | keyword k =>
      obtain ⟨d, es, hk, hd, hes⟩ := k.spelling_class
      obtain ⟨rfl, rfl⟩ := List.cons.inj (hcs.trans hk)
      exact .inr (.inr (.inl ⟨hd, hes⟩))
    | identifier hc hds =>
      obtain ⟨rfl, rfl⟩ := List.cons.inj hcs
      exact .inr (.inr (.inl ⟨hc, hds⟩))
    | decimal hds =>
      obtain ⟨rfl, rfl⟩ := List.cons.inj hcs
      exact .inr (.inr (.inr (.inl (List.forall_mem_cons.mp hds))))
    | hex hx hds =>
      obtain ⟨rfl, rfl⟩ := List.cons.inj hcs
      exact .inr (.inr (.inr (.inr (.inl ⟨rfl, _, _, _, rfl, hx, hds⟩))))
    | mark m => exact .inr (.inr (.inr (.inr (.inr ⟨m, rfl⟩))))
  · cases h with
    | blanks h => exact .inl (List.forall_mem_cons.mp h)
    | comment h => exact .inr (.inl ⟨rfl, _, rfl, h⟩)

theorem not_mark_of_class (hc : isBlank c = true ∨ isLetter c = true ∨ Integer.isDigit c = true)
    (m : Mark) :
    m.spelling.toList ≠ c :: ds := by
  intro hm
  obtain ⟨d, es, hd, hblank, hletter, hdigit⟩ := m.first_class
  obtain ⟨rfl, -⟩ := List.cons.inj (hd.symm.trans hm)
  simp [hblank, hletter, hdigit] at hc

theorem fits_of_blank (hc : isBlank c = true) (h : Fits (c :: ds)) :
    ∀ d ∈ ds, isBlank d = true := by
  rcases fits_cases h with ⟨-, h⟩ | ⟨rfl, -⟩ | ⟨h, -⟩ | ⟨h, -⟩ | ⟨rfl, -⟩ | ⟨m, hm⟩
  · exact h
  · exact absurd hc (by decide)
  · exact absurd h (by simp [isLetter_of_isBlank hc])
  · exact absurd h (by simp [isDigit_of_isBlank hc])
  · exact absurd hc (by decide)
  · exact absurd hm (not_mark_of_class (.inl hc) m)

theorem fits_of_letter (hc : isLetter c = true) (h : Fits (c :: ds)) :
    ∀ d ∈ ds, isWordChar d = true := by
  rcases fits_cases h with ⟨h, -⟩ | ⟨rfl, -⟩ | ⟨-, h⟩ | ⟨h, -⟩ | ⟨rfl, -⟩ | ⟨m, hm⟩
  · exact absurd hc (by simp [isLetter_of_isBlank h])
  · exact absurd hc (by decide)
  · exact h
  · exact absurd h (by simp [isDigit_of_isLetter hc])
  · exact absurd hc (by decide)
  · exact absurd hm (not_mark_of_class (.inr (.inl hc)) m)

theorem fits_of_digit (hc : Integer.isDigit c = true) (h : Fits (c :: ds)) :
    (∀ d ∈ ds, Integer.isDigit d = true) ∨ c = '0' ∧
      ∃ x e es, ds = x :: e :: es ∧ (x = 'x' ∨ x = 'X') ∧
      ∀ d ∈ e :: es, Integer.isHexDigit d = true := by
  rcases fits_cases h with ⟨h, -⟩ | ⟨rfl, -⟩ | ⟨h, -⟩ | ⟨-, h⟩ | h | ⟨m, hm⟩
  · exact absurd hc (by simp [isDigit_of_isBlank h])
  · exact absurd hc (by decide)
  · exact absurd hc (by simp [isDigit_of_isLetter h])
  · exact .inl h
  · exact .inr h
  · exact absurd hm (not_mark_of_class (.inr (.inr hc)) m)

theorem fits_of_other (hb : isBlank c = false) (hl : isLetter c = false)
    (hd : Integer.isDigit c = false) (h : Fits (c :: ds)) :
    (c = '/' ∧ ∃ es, ds = '/' :: es ∧ '\n' ∉ es) ∨ ∃ m : Mark, m.spelling.toList = c :: ds := by
  rcases fits_cases h with ⟨h, -⟩ | h | ⟨h, -⟩ | ⟨h, -⟩ | ⟨rfl, -⟩ | h
  · simp [hb] at h
  · exact .inl h
  · simp [hl] at h
  · simp [hd] at h
  · exact absurd hd (by decide)
  · exact .inr h

/-- Only words are keywords. -/
theorem isLetter_of_keyword {k : Keyword} (h : (Token.keyword k).Written (c :: ds)) :
    isLetter c = true := by
  generalize hcs : c :: ds = cs at h
  cases h with
  | keyword =>
    obtain ⟨d, es, hk, hd, -⟩ := k.spelling_class
    obtain ⟨rfl, -⟩ := List.cons.inj (hcs.trans hk)
    exact hd

end First

/-- A stretch of one class reaches no further than all of that class does. -/
theorem length_le_takeWhile {p : Char → Bool} {ds cs : List Char} (hds : ∀ d ∈ ds, p d = true)
    (h : ds <+: cs) :
    ds.length ≤ (cs.takeWhile p).length := by
  obtain ⟨es, rfl⟩ := h
  rw [List.takeWhile_append_of_pos hds, List.length_append]
  exact Nat.le_add_right _ _

/-- What a piece tells of the characters that it takes and of those behind them. -/
def Piece.Cuts : Piece → List Char → List Char → Prop
  | .token t, cs, rest =>
    t.Written cs ∧ Longest cs rest ∧ ∀ k : Keyword, (Token.keyword k).Written cs → t = .keyword k
  | .blank, cs, rest => Skipped cs ∧ Longest cs rest
  | .invalid, cs, rest => cs.length = 1 ∧ ∀ ds, Fits ds → ¬ ds <+: cs ++ rest

section Cuts

variable {c : Char} {cs : List Char}

theorem longest_of_tail {tail : List Char} (ht : tail <+: cs)
    (h : ∀ ds, Fits (c :: ds) → ds <+: cs → ds.length ≤ tail.length) :
    Longest (c :: tail) (cs.drop tail.length) := by
  obtain ⟨rest, rfl⟩ := ht
  intro ds hds hp
  rw [List.drop_left, List.cons_append] at hp
  cases ds with
  | nil => exact Nat.zero_le _
  | cons d ds =>
    obtain ⟨rfl, htail⟩ := List.cons_prefix_cons.mp hp
    exact Nat.succ_le_succ (h ds hds htail)

theorem cuts_blanks (hc : isBlank c = true) :
    Piece.blank.Cuts (c :: cs.takeWhile isBlank) (cs.drop (cs.takeWhile isBlank).length) := by
  constructor
  · exact .blanks (List.forall_mem_cons.mpr ⟨hc, fun d hd => List.mem_takeWhile_imp hd⟩)
  · apply longest_of_tail (List.takeWhile_prefix _)
    intro ds hds hp
    exact length_le_takeWhile (fits_of_blank hc hds) hp

theorem cuts_comment (hcs : cs.head? = some '/') :
    Piece.blank.Cuts ('/' :: cs.takeWhile (· != '\n'))
      (cs.drop (cs.takeWhile (· != '\n')).length) := by
  obtain ⟨cs, rfl⟩ : ∃ ds, cs = '/' :: ds := List.head?_eq_some_iff.mp hcs
  have htail : ('/' :: cs).takeWhile (· != '\n') = '/' :: cs.takeWhile (· != '\n') := by
    rw [List.takeWhile_cons_of_pos (by decide)]
  constructor
  · rw [htail]
    exact .comment fun h => by simpa using List.mem_takeWhile_imp h
  · apply longest_of_tail (List.takeWhile_prefix _)
    intro ds hds hp
    rcases fits_of_other (by decide) (by decide) (by decide) hds with ⟨-, es, rfl, hes⟩ | ⟨m, hm⟩
    · apply length_le_takeWhile _ hp
      intro d hd
      rcases List.mem_cons.mp hd with rfl | hd
      · decide
      · simpa using fun h : d = '\n' => hes (h ▸ hd)
    · rw [Mark.slash_alone hm]
      exact Nat.zero_le _

theorem written_word {cs : List Char} (hc : isLetter c = true)
    (hcs : ∀ d ∈ cs, isWordChar d = true) :
    (word (c :: cs)).Written (c :: cs) := by
  rw [word]
  split
  · next k hk =>
    have hspelling : k.spelling.toList = c :: cs := by
      rw [Keyword.spelling_of_ofSpelling? hk, String.toList_ofList]
    exact hspelling ▸ .keyword k
  · exact .identifier hc hcs

theorem word_of_keyword {cs : List Char} {k : Keyword} (h : (Token.keyword k).Written cs) :
    word cs = .keyword k := by
  cases h with
  | keyword => rw [word, String.ofList_toList, Keyword.ofSpelling?_spelling]

theorem cuts_word (hc : isLetter c = true) :
    (Piece.token (word (c :: cs.takeWhile isWordChar))).Cuts (c :: cs.takeWhile isWordChar)
      (cs.drop (cs.takeWhile isWordChar).length) := by
  refine ⟨written_word hc fun d hd => List.mem_takeWhile_imp hd, ?_, fun k => word_of_keyword⟩
  apply longest_of_tail (List.takeWhile_prefix _)
  intro ds hds hp
  exact length_le_takeWhile (fits_of_letter hc hds) hp

/-- Where a hexadecimal literal goes on behind its first character. -/
theorem hexTail_eq {x : Char} {cs : List Char} (hx : x = 'x' ∨ x = 'X')
    (hcs : (cs.takeWhile Integer.isHexDigit) ≠ []) :
    hexTail (x :: cs) = x :: cs.takeWhile Integer.isHexDigit := by
  rcases hx with rfl | rfl <;> simp [hexTail, hcs]

theorem hexTail_cases (cs : List Char) :
    hexTail cs = [] ∨ ∃ x ds, cs = x :: ds ∧ (x = 'x' ∨ x = 'X') ∧
    ds.takeWhile Integer.isHexDigit ≠ [] ∧ hexTail cs = x :: ds.takeWhile Integer.isHexDigit := by
  unfold hexTail
  split
  · next ds =>
    by_cases h : ds.takeWhile Integer.isHexDigit = []
    · exact .inl (by simp [h])
    · exact .inr ⟨'x', ds, rfl, .inl rfl, h, by simp [h]⟩
  · next ds =>
    by_cases h : ds.takeWhile Integer.isHexDigit = []
    · exact .inl (by simp [h])
    · exact .inr ⟨'X', ds, rfl, .inr rfl, h, by simp [h]⟩
  · exact .inl rfl

theorem isDigit_hexMark {x : Char} (hx : x = 'x' ∨ x = 'X') : Integer.isDigit x = false := by
  rcases hx with rfl | rfl <;> decide

theorem integerTail_isPrefix (c : Char) (cs : List Char) : integerTail c cs <+: cs := by
  rw [integerTail]
  split
  · rcases hexTail_cases cs with h | ⟨x, ds, rfl, -, -, h⟩
    · exact h ▸ List.nil_prefix
    · exact h ▸ List.cons_prefix_cons.mpr ⟨rfl, List.takeWhile_prefix _⟩
  · exact List.takeWhile_prefix _

theorem cuts_integer (hc : Integer.isDigit c = true) :
    (Piece.token (.integer (String.ofList (c :: integerTail c cs)))).Cuts (c :: integerTail c cs)
      (cs.drop (integerTail c cs).length) := by
  have hkeyword {ds : List Char} (k : Keyword) (hk : (Token.keyword k).Written (c :: ds)) :
      Token.integer (String.ofList (c :: ds)) = .keyword k :=
    absurd hc (by simp [isDigit_of_isLetter (isLetter_of_keyword hk)])
  by_cases hhex : c = '0' ∧ hexTail cs ≠ []
  · obtain ⟨rfl, hne⟩ := hhex
    obtain ⟨x, ds, rfl, hx, hds, htail⟩ := (hexTail_cases cs).resolve_left hne
    have hinteger : integerTail '0' (x :: ds) = x :: ds.takeWhile Integer.isHexDigit := by
      simp [integerTail, htail]
    obtain ⟨e, es, hes⟩ := List.exists_cons_of_ne_nil hds
    rw [hinteger]
    refine ⟨?_, longest_of_tail (List.cons_prefix_cons.mpr ⟨rfl, List.takeWhile_prefix _⟩) ?_,
      hkeyword⟩
    · rw [hes]
      exact .hex hx fun d hd => List.mem_takeWhile_imp (hes ▸ hd)
    · intro fs hfs hp
      rcases fits_of_digit hc hfs with hdigits | ⟨-, y, f, gs, rfl, -, hhex⟩
      · -- Decimal digits end before the mark.
        cases fs with
        | nil => exact Nat.zero_le _
        | cons f fs =>
          obtain ⟨rfl, -⟩ := List.cons_prefix_cons.mp hp
          exact absurd (hdigits f List.mem_cons_self) (by simp [isDigit_hexMark hx])
      · obtain ⟨-, htail⟩ := List.cons_prefix_cons.mp hp
        exact Nat.succ_le_succ (length_le_takeWhile hhex htail)
  · have hinteger : integerTail c cs = cs.takeWhile Integer.isDigit := by
      simp only [integerTail]
      rw [if_neg]
      simpa using hhex
    rw [hinteger]
    refine ⟨?_, longest_of_tail (List.takeWhile_prefix _) ?_, hkeyword⟩
    · exact .decimal (List.forall_mem_cons.mpr ⟨hc, fun d hd => List.mem_takeWhile_imp hd⟩)
    · intro ds hds hp
      rcases fits_of_digit hc hds with hdigits | ⟨rfl, x, e, es, rfl, hx, hes⟩
      · exact length_le_takeWhile hdigits hp
      · obtain ⟨rest, rfl⟩ := hp
        have htail : hexTail (x :: (e :: es) ++ rest) ≠ [] := by
          rw [List.cons_append, hexTail_eq hx]
          · exact List.cons_ne_nil _ _
          · rw [List.takeWhile_append_of_pos hes]
            exact List.cons_ne_nil _ _
        exact absurd ⟨rfl, htail⟩ hhex

section Marks

variable (hb : isBlank c = false) (hl : isLetter c = false) (hd : Integer.isDigit c = false)
  (hslash : ¬ (c = '/' ∧ cs.head? = some '/'))

include hb hl hd hslash

theorem mark_of_fits {ds : List Char} (h : Fits (c :: ds)) (hp : ds <+: cs) :
    (ds = [] ∧ ∃ m, Mark.ofChar? c = some m) ∨
      ∃ d m, ds = [d] ∧ cs.head?.bind (Mark.ofPair? c) = some m := by
  rcases fits_of_other hb hl hd h with ⟨rfl, es, rfl, -⟩ | ⟨m, hm⟩
  · obtain ⟨rest, rfl⟩ := hp
    exact absurd ⟨rfl, rfl⟩ hslash
  · rcases m.spelling_cases with ⟨d, hone, hd⟩ | ⟨d, e, htwo, he⟩
    · obtain ⟨rfl, rfl⟩ := List.cons.inj (hm.symm.trans hone)
      exact .inl ⟨rfl, m, hd⟩
    · obtain ⟨rfl, rfl⟩ := List.cons.inj (hm.symm.trans htwo)
      obtain ⟨rest, rfl⟩ := hp
      exact .inr ⟨e, m, rfl, he⟩

theorem cuts_pair {m : Mark} (hm : cs.head?.bind (Mark.ofPair? c) = some m) :
    (Piece.token (.mark m)).Cuts (c :: cs.take 1) (cs.drop 1) := by
  obtain ⟨d, hhead, hpair⟩ := Option.bind_eq_some_iff.mp hm
  obtain ⟨es, rfl⟩ := List.head?_eq_some_iff.mp hhead
  refine ⟨Mark.spelling_of_ofPair? hpair ▸ .mark m, ?_, fun k hk => ?_⟩
  · apply longest_of_tail (List.take_prefix 1 (d :: es))
    intro ds hds hp
    rcases mark_of_fits hb hl hd hslash hds hp with ⟨rfl, -⟩ | ⟨d, -, rfl, -⟩
    · exact Nat.zero_le _
    · exact Nat.le_refl 1
  · exact absurd (isLetter_of_keyword hk) (by simp [hl])

theorem cuts_single {m : Mark} (hpair : cs.head?.bind (Mark.ofPair? c) = none)
    (hm : Mark.ofChar? c = some m) :
    (Piece.token (.mark m)).Cuts [c] cs := by
  refine ⟨Mark.spelling_of_ofChar? hm ▸ .mark m, ?_, fun k hk => ?_⟩
  · apply longest_of_tail (List.nil_prefix)
    intro ds hds hp
    rcases mark_of_fits hb hl hd hslash hds hp with ⟨rfl, -⟩ | ⟨d, m, -, h⟩
    · exact Nat.zero_le _
    · simp [hpair] at h
  · exact absurd (isLetter_of_keyword hk) (by simp [hl])

theorem cuts_invalid (hpair : cs.head?.bind (Mark.ofPair? c) = none)
    (hsingle : Mark.ofChar? c = none) :
    Piece.invalid.Cuts [c] cs := by
  refine ⟨rfl, fun ds hds hp => ?_⟩
  cases ds with
  | nil => exact not_fits_nil hds
  | cons d ds =>
    obtain ⟨rfl, htail⟩ := List.cons_prefix_cons.mp hp
    rcases mark_of_fits hb hl hd hslash hds htail with ⟨-, m, h⟩ | ⟨-, m, -, h⟩
    · simp [hsingle] at h
    · simp [hpair] at h

end Marks

/-- The piece at the head of a text is the longest part of it that fits a pattern. -/
theorem piece_cuts (c : Char) (cs : List Char) :
    (piece c cs).1.Cuts (c :: cs.take (piece c cs).2) (cs.drop (piece c cs).2) := by
  have htake (p : Char → Bool) : cs.take (cs.takeWhile p).length = cs.takeWhile p :=
    (List.prefix_iff_eq_take.mp (List.takeWhile_prefix p)).symm
  by_cases hb : isBlank c = true
  · rw [piece, if_pos hb]
    show Piece.blank.Cuts (c :: cs.take (cs.takeWhile isBlank).length) _
    rw [htake]
    exact cuts_blanks hb
  by_cases hslash : c = '/' ∧ cs.head? = some '/'
  · rw [piece, if_neg hb, if_pos (by simpa using hslash)]
    show Piece.blank.Cuts (c :: cs.take (cs.takeWhile (· != '\n')).length) _
    rw [htake, hslash.1]
    exact cuts_comment hslash.2
  by_cases hl : isLetter c = true
  · rw [piece, if_neg hb, if_neg (by simpa using hslash), if_pos hl]
    show (Piece.token (word (c :: cs.takeWhile isWordChar))).Cuts
        (c :: cs.take (cs.takeWhile isWordChar).length) _
    rw [htake]
    exact cuts_word hl
  by_cases hd : Integer.isDigit c = true
  · rw [piece, if_neg hb, if_neg (by simpa using hslash), if_neg hl, if_pos hd]
    show (Piece.token (.integer (String.ofList (c :: integerTail c cs)))).Cuts
      (c :: cs.take (integerTail c cs).length) _
    rw [← List.prefix_iff_eq_take.mp (integerTail_isPrefix c cs)]
    exact cuts_integer hd
  rw [piece, if_neg hb, if_neg (by simpa using hslash), if_neg hl, if_neg hd]
  rw [Bool.not_eq_true] at hb hl hd
  cases hpair : cs.head?.bind (Mark.ofPair? c) with
  | some m => exact cuts_pair hb hl hd hslash hpair
  | none =>
    cases hsingle : Mark.ofChar? c with
    | some m => exact cuts_single hb hl hd hslash hpair hsingle
    | none => exact cuts_invalid hb hl hd hslash hpair hsingle

end Cuts

end Lexer

end DecafCheck
