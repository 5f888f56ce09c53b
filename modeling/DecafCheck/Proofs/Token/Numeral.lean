import DecafCheck.Proofs.Token.Spelling

namespace DecafCheck

namespace Integer

/-- The character stands for the digit `d`; letters of either case count from ten. -/
def Shows (c : Char) (d : Nat) : Prop :=
  c = d.digitChar ∨ c = d.digitChar.toUpper

/-- The digits of a number in a base, the highest first. Zeros may stand in front. -/
inductive Numeral (base : Nat) : Nat → List Char → Prop
  | digit {d : Nat} {c : Char} : d < base → Shows c d → Numeral base d [c]
  | snoc {n d : Nat} {cs : List Char} {c : Char} :
      Numeral base n cs → d < base → Shows c d → Numeral base (n * base + d) (cs ++ [c])

/-- The spellings of a number. -/
inductive Spells : Nat → List Char → Prop
  | decimal {n : Nat} {cs : List Char} : Numeral 10 n cs → Spells n cs
  | hex {n : Nat} {x : Char} {cs : List Char} : x = 'x' ∨ x = 'X' → Numeral 16 n cs →
      Spells n ('0' :: x :: cs)

variable {base n : Nat} {c : Char} {cs rest : List Char}

theorem digit_of_shows {d : Nat} (hd : d < 16) (h : Shows c d) :
    digit c = d ∧ isHexDigit c = true := by
  have hall : ∀ d : Fin 16, (digit (Nat.digitChar d) = d ∧ isHexDigit (Nat.digitChar d) = true) ∧
      digit (Nat.digitChar d).toUpper = d ∧ isHexDigit (Nat.digitChar d).toUpper = true := by decide
  obtain ⟨hlower, hupper⟩ := hall ⟨d, hd⟩
  rcases h with rfl | rfl
  · exact hlower
  · exact hupper

theorem isDigit_of_shows {d : Nat} (hd : d < 10) (h : Shows c d) : isDigit c = true := by
  have hall : ∀ d : Fin 10, isDigit (Nat.digitChar d) = true ∧ isDigit (Nat.digitChar d).toUpper =
      true := by decide
  obtain ⟨hlower, hupper⟩ := hall ⟨d, hd⟩
  rcases h with rfl | rfl
  · exact hlower
  · exact hupper

theorem ofDigits_concat (base : Nat) (cs : List Char) (c : Char) :
    ofDigits base (cs ++ [c]) = ofDigits base cs * base + digit c := by
  rw [ofDigits, List.foldl_append]
  rfl

theorem Numeral.ofDigits_eq (h : Numeral base n cs) (hbase : base ≤ 16) : ofDigits base cs = n := by
  induction h with
  | digit hd hc =>
    rw [ofDigits, List.foldl_cons, List.foldl_nil, Nat.zero_mul, Nat.zero_add]
    exact (digit_of_shows (Nat.lt_of_lt_of_le hd hbase) hc).1
  | snoc _ hd hc ih => rw [ofDigits_concat, ih, (digit_of_shows (Nat.lt_of_lt_of_le hd hbase) hc).1]

theorem Numeral.forall_mem {p : Char → Prop} (h : Numeral base n cs)
    (hp : ∀ d c, d < base → Shows c d → p c) :
    ∀ c ∈ cs, p c := by
  induction h with
  | digit hd hc => simpa using hp _ _ hd hc
  | snoc _ hd hc ih =>
    intro e he
    rcases List.mem_append.mp he with he | he
    · exact ih e he
    · rw [List.mem_singleton.mp he]
      exact hp _ _ hd hc

theorem Numeral.ne_nil (h : Numeral base n cs) : cs ≠ [] := by
  cases h <;> simp

theorem Spells.value (h : Spells n cs) : value (String.ofList cs) = n := by
  rw [Integer.value, String.toList_ofList]
  cases h with
  | decimal h =>
    rw [hexDigits?_of_digits (h.forall_mem fun _ _ => isDigit_of_shows)]
    exact h.ofDigits_eq (by decide)
  | hex hx h =>
    rcases hx with rfl | rfl
    · exact h.ofDigits_eq (by decide)
    · exact h.ofDigits_eq (by decide)

/-- A digit shows its value. -/
theorem shows_digit (h : isHexDigit c = true) :
    Shows c (digit c) ∧ digit c < 16 ∧ (isDigit c = true → digit c < 10) := by
  have hall : ∀ m : Fin 103, isHexDigit (Char.ofNat m) = true →
      (Char.ofNat m = (digit (Char.ofNat m)).digitChar ∨
      Char.ofNat m = (digit (Char.ofNat m)).digitChar.toUpper) ∧ digit (Char.ofNat m) < 16 ∧
      (isDigit (Char.ofNat m) = true → digit (Char.ofNat m) < 10) := by decide
  have hrange : c.toNat ≤ 57 ∨ c.toNat ≤ 102 ∨ c.toNat ≤ 70 := by
    simp only [isHexDigit, Bool.or_eq_true, Lexer.isDigit_iff, Bool.and_eq_true,
      decide_eq_true_eq, Char.le_def, UInt32.le_iff_toNat_le, or_assoc] at h
    exact h.imp And.right (Or.imp And.right And.right)
  have hc := hall ⟨c.toNat, by omega⟩
  rw [Char.ofNat_toNat] at hc
  exact hc h

theorem numeral_ofDigits (hne : cs ≠ []) (h : ∀ c ∈ cs, Shows c (digit c) ∧ digit c < base) :
    Numeral base (ofDigits base cs) cs := by
  induction cs using List.reverseRecOn with
  | nil => exact absurd rfl hne
  | append_singleton cs c ih =>
    obtain ⟨hshows, hlt⟩ := h c (by simp)
    cases cs with
    | nil =>
      have hvalue : ofDigits base ([] ++ [c]) = digit c := by simp [ofDigits]
      rw [hvalue]
      exact .digit hlt hshows
    | cons d ds =>
      rw [ofDigits_concat]
      exact .snoc (ih (List.cons_ne_nil d ds) fun e he => h e (List.mem_append_left _ he)) hlt
        hshows

def isSpelling (cs : List Char) : Bool :=
  match hexDigits? cs with
  | some ds => !ds.isEmpty && ds.all isHexDigit
  | none => !cs.isEmpty && cs.all isDigit

theorem Spells.isSpelling (h : Spells n cs) : isSpelling cs = true := by
  cases h with
  | decimal h =>
    have hdigits := h.forall_mem fun _ _ => isDigit_of_shows
    rw [Integer.isSpelling, hexDigits?_of_digits hdigits]
    simpa using ⟨h.ne_nil, hdigits⟩
  | hex hx h =>
    have hdigits := h.forall_mem fun _ _ hd hc => (digit_of_shows hd hc).2
    rcases hx with rfl | rfl
    · simpa [Integer.isSpelling, hexDigits?] using ⟨h.ne_nil, hdigits⟩
    · simpa [Integer.isSpelling, hexDigits?] using ⟨h.ne_nil, hdigits⟩

/-- Every text of that form spells its value. -/
theorem spells_value (h : isSpelling cs = true) : Spells (value (String.ofList cs)) cs := by
  have hhex {ds : List Char} (h : (!ds.isEmpty && ds.all isHexDigit) = true) :
      Numeral 16 (ofDigits 16 ds) ds := by
    simp only [Bool.and_eq_true, Bool.not_eq_true', List.isEmpty_eq_false_iff,
      List.all_eq_true] at h
    exact numeral_ofDigits h.1 fun d hd => ⟨(shows_digit (h.2 d hd)).1,
      (shows_digit (h.2 d hd)).2.1⟩
  rw [value, String.toList_ofList]
  unfold isSpelling at h
  cases hds : hexDigits? cs with
  | some ds =>
    rw [hds] at h
    unfold hexDigits? at hds
    split at hds
    · cases hds
      exact .hex (.inl rfl) (hhex h)
    · cases hds
      exact .hex (.inr rfl) (hhex h)
    · cases hds
  | none =>
    rw [hds] at h
    simp only [Bool.and_eq_true, Bool.not_eq_true', List.isEmpty_eq_false_iff,
      List.all_eq_true] at h
    refine .decimal (numeral_ofDigits h.1 fun d hd => ?_)
    obtain ⟨hshows, -, hlt⟩ := shows_digit (c := d) (by rw [isHexDigit, h.2 d hd]; rfl)
    exact ⟨hshows, hlt (h.2 d hd)⟩

theorem spells_iff : Spells n cs ↔ isSpelling cs = true ∧ value (String.ofList cs) = n :=
  ⟨fun h => ⟨h.isSpelling, h.value⟩, fun h => h.2 ▸ spells_value h.1⟩

instance : Decidable (Spells n cs) :=
  decidable_of_iff _ spells_iff.symm

end Integer

namespace Lexer

variable {c : Char} {ds rest : List Char}

theorem takeWhile_of_word {p : Char → Bool} (hp : ∀ c, p c = true → isWordChar c = true)
    (hds : ∀ d ∈ ds, p d = true) (hrest : ∀ c ∈ rest.head?, isWordChar c = false) :
    (ds ++ rest).takeWhile p = ds := by
  rw [List.takeWhile_append_of_pos hds]
  cases rest with
  | nil => simp
  | cons c rest =>
    have hc : p c = false := by
      cases h : p c with
      | false => rfl
      | true => exact absurd (hp c h) (by simp [hrest c rfl])
    simp [hc]

theorem integerTail_hex {x : Char} (hx : x = 'x' ∨ x = 'X')
    (hds : ∀ d ∈ ds, Integer.isHexDigit d = true) (hne : ds ≠ [])
    (hrest : ∀ c ∈ rest.head?, isWordChar c = false) :
    integerTail '0' (x :: ds ++ rest) = x :: ds := by
  have hwhile : (ds ++ rest).takeWhile Integer.isHexDigit = ds :=
    takeWhile_of_word (fun _ => isWordChar_of_isHexDigit) hds hrest
  have htail : hexTail (x :: (ds ++ rest)) = x :: ds := by
    rw [hexTail_eq hx (by rwa [hwhile]), hwhile]
  rw [List.cons_append, integerTail, htail]
  rfl

theorem integerTail_decimal (hds : ∀ d ∈ ds, Integer.isDigit d = true)
    (hrest : ∀ c ∈ rest.head?, isWordChar c = false) (c : Char) :
    integerTail c (ds ++ rest) = ds := by
  have hword (c : Char) (h : Integer.isDigit c = true) : isWordChar c = true := by
    rw [isWordChar, h, Bool.or_true]
  have htail : hexTail (ds ++ rest) = [] := by
    rcases hexTail_cases (ds ++ rest) with h | ⟨x, es, hcons, hx, -, -⟩
    · exact h
    · cases ds with
      | nil =>
        obtain rfl : rest = x :: es := hcons
        have hmark : isWordChar x = true := by rcases hx with rfl | rfl <;> decide
        exact absurd (hrest x rfl) (by simp [hmark])
      | cons d ds =>
        obtain ⟨rfl, -⟩ := List.cons.inj hcons
        exact absurd (hds d List.mem_cons_self) (by simp [isDigit_hexMark hx])
  rw [integerTail, htail]
  simp only [List.isEmpty_nil, Bool.not_true, Bool.and_false, Bool.false_eq_true, if_false]
  exact takeWhile_of_word hword hds hrest

theorem piece_of_isDigit (hc : Integer.isDigit c = true) (cs : List Char) : piece c cs =
    (.token (.integer (String.ofList (c :: integerTail c cs))), (integerTail c cs).length) := by
  have hletter : isLetter c = false := by
    cases h : isLetter c with
    | false => rfl
    | true => exact absurd hc (by simp [isDigit_of_isLetter h])
  have hblank : isBlank c = false := isBlank_of_isWordChar (by rw [isWordChar, hc, Bool.or_true])
  have hslash : (c == '/') = false := by
    rw [beq_eq_false_iff_ne]
    rintro rfl
    exact absurd hc (by decide)
  rw [piece, hblank, hslash, hletter, hc]
  rfl

end Lexer

namespace Scanner

open Lexer

/-- A spelling is read as one token, unless the word goes on behind it. -/
theorem next_spelling {n : Nat} {cs rest : List Char} (h : Integer.Spells n cs)
    (hrest : ∀ c ∈ rest.head?, isWordChar c = false) (offset : Nat) :
    next ⟨cs ++ rest, offset⟩ =
      (.ok (some (.integer (String.ofList cs)), ⟨offset, offset + bytes cs⟩),
        ⟨rest, offset + bytes cs⟩) := by
  obtain ⟨c, ds, rfl, hc, htail⟩ : ∃ c ds, cs = c :: ds ∧ Integer.isDigit c = true ∧
      integerTail c (ds ++ rest) = ds := by
    cases h with
    | decimal h =>
      have hdigits := h.forall_mem fun _ _ => Integer.isDigit_of_shows
      obtain ⟨c, ds, rfl⟩ := List.exists_cons_of_ne_nil h.ne_nil
      obtain ⟨hc, hds⟩ := List.forall_mem_cons.mp hdigits
      exact ⟨c, ds, rfl, hc, integerTail_decimal hds hrest c⟩
    | hex hx h =>
      have hdigits := h.forall_mem fun _ _ hd hc => (Integer.digit_of_shows hd hc).2
      exact ⟨_, _, rfl, rfl, integerTail_hex hx hdigits h.ne_nil hrest⟩
  rw [List.cons_append, next]
  simp only [piece_of_isDigit hc, htail, List.drop_left, List.take_left]

end Scanner

end DecafCheck
