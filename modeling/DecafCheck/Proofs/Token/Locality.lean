import DecafCheck.Proofs.Token.Spelling

namespace DecafCheck

theorem eq_of_bytes_eq {as bs cs ds : List Char} (h : as ++ cs = bs ++ ds)
    (hbytes : bytes as = bytes bs) :
    as = bs := by
  have hle {as bs more : List Char} (h : bs = as ++ more) (hbytes : bytes as = bytes bs) :
      as = bs := by
    by_cases hmore : more = []
    · rw [h, hmore, List.append_nil]
    · have hpos := bytes_pos hmore
      rw [h, bytes_append] at hbytes
      omega
  rcases List.append_eq_append_iff.mp h with ⟨more, hmore, -⟩ | ⟨more, hmore, -⟩
  · exact hle hmore hbytes
  · exact (hle hmore hbytes.symm).symm

namespace Lexer

theorem piece_le (c : Char) (cs : List Char) : (piece c cs).2 ≤ cs.length := by
  have htake (p : Char → Bool) : (cs.takeWhile p).length ≤ cs.length :=
    (List.takeWhile_prefix p).length_le
  unfold piece
  split
  · exact htake _
  split
  · exact htake _
  split
  · exact htake _
  split
  · exact (integerTail_isPrefix c cs).length_le
  split
  · next hpair =>
    cases cs with
    | nil => cases hpair
    | cons d ds => exact Nat.succ_le_succ (Nat.zero_le _)
  · split <;> exact Nat.zero_le _

namespace Piece.Cuts

variable {p p' : Piece} {cs rest rest' : List Char}

/-- A piece either takes the longest part that fits a pattern, or there is none and it takes one
character. -/
theorem fits_or (h : p.Cuts cs rest) : Fits cs ∧ Longest cs rest ∨
    p = .invalid ∧ cs.length = 1 ∧ ∀ ds, Fits ds → ¬ ds <+: cs ++ rest := by
  cases p with
  | token t => exact .inl ⟨.inl ⟨t, h.1⟩, h.2.1⟩
  | blank => exact .inl ⟨.inr h.1, h.2⟩
  | invalid => exact .inr ⟨rfl, h⟩

theorem token_ne_blank {t : Token} (h : (Piece.token t).Cuts cs rest) : ¬ Skipped cs := by
  intro hskipped
  cases hskipped with
  | blanks hblank =>
    have hc := h.1.leads.not_isBlank
    rw [hblank _ List.mem_cons_self] at hc
    cases hc
  | @comment body _ =>
    have hnone : ∀ d ∈ ([] : List Char).head?, d = ' ' := fun d hd => nomatch hd
    exact h.1.not_comment hnone (List.append_nil ('/' :: body))

/-- The characters that a piece takes tell what it is. -/
theorem unique (h : p.Cuts cs rest) (h' : p'.Cuts cs rest') : p = p' := by
  have hclash {p : Piece} {rest rest' : List Char} (h : Fits cs ∧ Longest cs rest)
      (h' : ∀ ds, Fits ds → ¬ ds <+: cs ++ rest') : p = .invalid :=
      absurd (List.prefix_append _ _) (h' cs h.1)
  rcases h.fits_or with hfits | ⟨rfl, -, hnone⟩ <;> rcases h'.fits_or with hfits' | ⟨rfl, -, hnone'⟩
  · cases p with
    | token t =>
      cases p' with
      | token t' =>
        have hs : t.spelling.toList = t'.spelling.toList := h.1.spelling.trans h'.1.spelling.symm
        exact congrArg token ((h.1.genuine h.2.2).unique (h'.1.genuine h'.2.2) hs)
      | blank => exact absurd h'.1 h.token_ne_blank
      | invalid => exact hclash hfits h'.2
    | blank =>
      cases p' with
      | token t' => exact absurd h.1 h'.token_ne_blank
      | blank => rfl
      | invalid => exact hclash hfits h'.2
    | invalid => exact (hclash hfits' h.2).symm
  · exact hclash hfits hnone'
  · exact (hclash hfits' hnone).symm
  · rfl

end Piece.Cuts

/-- Characters behind a piece do not matter as long as the piece does not reach them. -/
theorem piece_append {c : Char} {cs rest : List Char} (h : (piece c (cs ++ rest)).2 ≤ cs.length) :
    piece c (cs ++ rest) = piece c cs := by
  have hcuts := piece_cuts c (cs ++ rest)
  have hcuts' := piece_cuts c cs
  have hle := piece_le c cs
  rw [List.take_append_of_le_length h, List.drop_append_of_le_length h] at hcuts
  have hpart {n : Nat} (more : List Char) : c :: cs.take n <+: c :: (cs ++ more) :=
    List.cons_prefix_cons.mpr ⟨rfl, (List.take_prefix n cs).trans (List.prefix_append cs more)⟩
  have hwhole (n : Nat) (more : List Char) :
      c :: cs.take n ++ (cs.drop n ++ more) = c :: (cs ++ more) := by
    rw [List.cons_append, ← List.append_assoc, List.take_append_drop]
  have hwhole' (n : Nat) : c :: cs.take n ++ cs.drop n = c :: cs := by
    rw [List.cons_append, List.take_append_drop]
  have hpart' (n : Nat) : c :: cs.take n <+: c :: cs :=
    List.cons_prefix_cons.mpr ⟨rfl, List.take_prefix n cs⟩
  have hlength {n : Nat} (hn : n ≤ cs.length) : (c :: cs.take n).length = n + 1 := by
    rw [List.length_cons, List.length_take_of_le hn]
  have hcount : (piece c (cs ++ rest)).2 = (piece c cs).2 := by
    rcases hcuts.fits_or with ⟨hfits, hlong⟩ | ⟨-, hone, hnone⟩ <;>
      rcases hcuts'.fits_or with ⟨hfits', hlong'⟩ | ⟨-, hone', hnone'⟩
    · have hle₁ := hlong' _ hfits (hwhole' _ ▸ hpart' _)
      have hle₂ := hlong _ hfits' (hwhole _ _ ▸ hpart _)
      rw [hlength h, hlength hle] at hle₁ hle₂
      omega
    · exact absurd (hwhole' _ ▸ hpart' _) (hnone' _ hfits)
    · exact absurd (hwhole _ _ ▸ hpart _) (hnone _ hfits')
    · rw [hlength h] at hone
      rw [hlength hle] at hone'
      omega
  rw [hcount] at hcuts
  exact Prod.ext (hcuts.unique hcuts') hcount

/-- The pieces at the head of `cs ++ rest` take `cs` and nothing of `rest`. -/
inductive Whole : List Char → List Char → Prop
  | nil {rest : List Char} : Whole [] rest
  | cons {c : Char} {cs rest : List Char} : (piece c (cs ++ rest)).2 ≤ cs.length →
      Whole (cs.drop (piece c (cs ++ rest)).2) rest → Whole (c :: cs) rest

theorem Whole.append {as bs rest : List Char} (ha : Whole as (bs ++ rest)) (hb : Whole bs rest) :
    Whole (as ++ bs) rest := by
  generalize hmore : bs ++ rest = more at ha
  induction ha with
  | nil => exact hb
  | @cons c cs rest' hle hcs ih =>
    subst hmore
    rw [← List.append_assoc] at hle ih
    rw [List.cons_append]
    refine .cons (hle.trans (by simp)) ?_
    rw [List.drop_append_of_le_length hle]
    exact ih rfl

/-- A part made of whole pieces is scanned as if it stood alone. -/
theorem Whole.lexemes_append {cs rest : List Char} (h : Whole cs rest) (start : Nat) :
    lexemes start 0 (cs ++ rest) = lexemes start 0 cs ++ lexemes (start + bytes cs) 0 rest := by
  induction h generalizing start with
  | nil => rfl
  | @cons c cs rest hle _ ih =>
    have hpiece := piece_append hle
    rw [hpiece] at hle ih
    have hbytes : start + bytes (c :: cs.take (piece c cs).2) + bytes (cs.drop (piece c cs).2) =
        start + bytes (c :: cs) := by
      rw [Nat.add_assoc, ← bytes_append, List.cons_append, List.take_append_drop]
    rw [List.cons_append, lexemes_cons, lexemes_cons, hpiece, List.take_append_of_le_length hle,
      List.drop_append_of_le_length hle, ih, hbytes, List.append_assoc]

theorem whole_piece (c : Char) (cs : List Char) :
    Whole (c :: cs.take (piece c cs).2) (cs.drop (piece c cs).2) := by
  have htake : (cs.take (piece c cs).2).length = (piece c cs).2 :=
    List.length_take_of_le (piece_le c cs)
  apply Whole.cons
  · rw [List.take_append_drop, htake]
  · rw [List.take_append_drop, List.drop_eq_nil_of_le (Nat.le_of_eq htake)]
    exact .nil

/-- A result stands on one piece, and whole pieces come before it. -/
theorem exists_whole {start : Nat} {cs : List Char}
    {before after : List (Except LexicalError Lexeme)} {r : Except LexicalError Lexeme}
    (h : lexemes start 0 cs = before ++ r :: after) :
    ∃ as bs rest, cs = as ++ (bs ++ rest) ∧ Whole as (bs ++ rest) ∧ Whole bs rest ∧
      lexemes (start + bytes as) 0 (bs ++ rest) = r :: after ∧
      lexemes (start + bytes as + bytes bs) 0 rest = after ∧
        foundSpan r = ⟨start + bytes as, start + bytes as + bytes bs⟩ := by
  induction hn : cs.length using Nat.strongRecOn generalizing start cs before with
  | ind n ih =>
    cases cs with
    | nil => simp [lexemes] at h
    | cons c cs =>
      have hwhole := whole_piece c cs
      have hsplit : c :: cs = c :: cs.take (piece c cs).2 ++ cs.drop (piece c cs).2 := by
        rw [List.cons_append, List.take_append_drop]
      -- If the result is found behind the first piece, the piece goes before it.
      have hbehind {before : List (Except LexicalError Lexeme)}
          (h : lexemes (start + bytes (c :: cs.take (piece c cs).2)) 0 (cs.drop (piece c cs).2) =
            before ++ r :: after) :
          ∃ as bs rest, c :: cs = as ++ (bs ++ rest) ∧ Whole as (bs ++ rest) ∧ Whole bs rest ∧
            lexemes (start + bytes as) 0 (bs ++ rest) = r :: after ∧
              lexemes (start + bytes as + bytes bs) 0 rest = after ∧
                foundSpan r = ⟨start + bytes as, start + bytes as + bytes bs⟩ := by
        have hlength : (cs.drop (piece c cs).2).length < n := by
          rw [← hn, List.length_drop, List.length_cons]
          omega
        obtain ⟨as, bs, rest, hcs, has, hbs, hfrom, hafter, hspan⟩ := ih _ hlength h rfl
        rw [hcs] at hwhole hsplit
        refine ⟨_ ++ as, bs, rest, hsplit.trans (List.append_assoc _ _ _).symm,
          hwhole.append has, hbs, ?_⟩
        rw [bytes_append, ← Nat.add_assoc]
        exact ⟨hfrom, hafter, hspan⟩
      have hlexemes := lexemes_cons start c cs
      rw [h] at hlexemes
      cases hpiece : (piece c cs).1 with
      | blank =>
        rw [hpiece] at hlexemes
        exact hbehind hlexemes.symm
      | token t | invalid =>
        rw [hpiece] at hlexemes
        cases before with
        | cons b before => exact hbehind (List.cons.inj hlexemes).2.symm
        | nil =>
          obtain ⟨rfl, rfl⟩ := List.cons.inj hlexemes
          refine ⟨[], _, _, hsplit, .nil, hwhole, ?_, rfl, rfl⟩
          rw [← hsplit]
          exact h

/-- Results next to each other are those of the part of the text that they stand on. -/
theorem exists_part {start : Nat} {cs : List Char}
    {before found after : List (Except LexicalError Lexeme)}
    (h : lexemes start 0 cs = before ++ found ++ after) (hfound : found ≠ []) :
    ∃ as bs rest, cs = as ++ bs ++ rest ∧ lexemes (start + bytes as) 0 bs = found ∧
      (foundSpan (found.head hfound)).start = start + bytes as ∧
      (foundSpan (found.getLast hfound)).stop = start + bytes as + bytes bs := by
  obtain ⟨r, found, rfl⟩ := List.exists_cons_of_ne_nil hfound
  rw [List.append_assoc] at h
  obtain ⟨as, bs, rest, rfl, -, -, hfrom, -, hspan⟩ := exists_whole h
  obtain ⟨init, last, hlast⟩ : ∃ init last, r :: found = init ++ [last] :=
    ⟨_, _, (List.dropLast_append_getLast hfound).symm⟩
  have hsplit : lexemes (start + bytes as) 0 (bs ++ rest) = init ++ last :: after := by
    exact hfrom.trans (congrArg (· ++ after) hlast |>.trans (List.append_assoc _ _ _))
  obtain ⟨as', bs', rest', hrest, has', hbs', -, hafter, hspan'⟩ := exists_whole hsplit
  have hwhole := has'.append hbs'
  have hpart := hwhole.lexemes_append (start + bytes as)
  rw [List.append_assoc, ← hrest, hsplit, bytes_append, ← Nat.add_assoc, hafter] at hpart
  refine ⟨as, as' ++ bs', rest', ?_, ?_, ?_, ?_⟩
  · rw [hrest, List.append_assoc, List.append_assoc]
  · rw [hlast]
    exact (List.append_cancel_right (hpart.symm.trans (List.append_cons _ _ _)))
  · rw [List.head_cons, hspan]
  · have hget : (r :: found).getLast hfound = last := by simp [hlast]
    rw [hget, hspan', bytes_append, ← Nat.add_assoc]

end Lexer

/-- The text that a span covers. -/
def Span.Shows (source : String) (s : Span) (text : List Char) : Prop :=
  ∃ before after, source.toList = before ++ text ++ after ∧
    s = ⟨bytes before, bytes before + bytes text⟩

/-- A span as it is seen from an offset. -/
def Span.relative (offset : Nat) (s : Span) : Span :=
  ⟨s.start - offset, s.stop - offset⟩

/-- A span that lies `offset` bytes further on. -/
def Span.shift (offset : Nat) (s : Span) : Span :=
  ⟨offset + s.start, offset + s.stop⟩

theorem Span.relative_shift (offset : Nat) (s : Span) : (s.shift offset).relative offset = s := by
  simp only [relative, shift, Nat.add_sub_cancel_left]

namespace Lexer

/-- What was found, `offset` bytes further on. -/
def shift (offset : Nat) : Except LexicalError Lexeme → Except LexicalError Lexeme
  | .ok l => .ok ⟨l.token, l.span.shift offset⟩
  | .error e => .error ⟨e.char, e.span.shift offset⟩

/-- Where a text begins only moves what is found in it. -/
theorem lexemes_shift (offset start inside : Nat) (cs : List Char) :
    lexemes (offset + start) inside cs = (lexemes start inside cs).map (shift offset) := by
  induction cs generalizing start inside with
  | nil => rfl
  | cons c cs ih =>
    cases inside with
    | succ n => simpa only [lexemes, Nat.add_assoc] using ih (start + c.utf8Size) n
    | zero =>
      have hrest := ih (start + c.utf8Size) (piece c cs).2
      simp only [lexemes, Nat.add_assoc]
      cases (piece c cs).1 with
      | token t => exact congrArg _ hrest
      | blank => exact hrest
      | invalid => exact congrArg _ hrest

theorem relative_lexemes (start start' : Nat) (offset inside : Nat) (cs : List Char) :
    ((lexemes (start + offset) inside cs).filterMap Except.toOption).map
        (fun l => (l.token, l.span.relative start)) =
      ((lexemes (start' + offset) inside cs).filterMap Except.toOption).map
        fun l => (l.token, l.span.relative start') := by
  have hrelative (start : Nat) :
      ((lexemes (start + offset) inside cs).filterMap Except.toOption).map
      (fun l => (l.token, l.span.relative start)) =
        ((lexemes offset inside cs).filterMap Except.toOption).map fun l => (l.token, l.span) := by
    rw [lexemes_shift, List.filterMap_map, List.map_filterMap, List.map_filterMap]
    apply List.filterMap_congr
    rintro (e | l) -
    · rfl
    · exact congrArg (fun span => some (l.token, span)) (l.span.relative_shift start)
  rw [hrelative, hrelative]

end Lexer

/-- Lexemes next to each other are what the text that they stand on is scanned as. -/
theorem Scan.lexemes_of_shows {source : String} {before found after : List Lexeme}
    (h : (ofString source).lexemes = (before ++ found ++ after).map .ok) (hfound : found ≠ [])
    {text : List Char} (hshows : Span.Shows source ⟨(found.head hfound).span.start,
      (found.getLast hfound).span.stop⟩ text) :
    Lexer.lexemes (found.head hfound).span.start 0 text = found.map .ok := by
  have hlexemes :
      Lexer.lexemes 0 0 source.toList = before.map .ok ++ found.map .ok ++ after.map .ok := by
    rw [← List.map_append, ← List.map_append]
    exact h
  have hne : found.map Except.ok ≠ ([] : List (Except LexicalError Lexeme)) := by simpa using hfound
  obtain ⟨as, bs, rest, hsource, hbs, hstart, hstop⟩ := Lexer.exists_part hlexemes hne
  simp only [List.head_map, List.getLast_map, Lexer.foundSpan, Nat.zero_add] at hbs hstart hstop
  obtain ⟨as', rest', hsource', hspan⟩ := hshows
  obtain ⟨hstart', hstop'⟩ := Span.mk.inj hspan
  have hsplit := hsource'.symm.trans hsource
  rw [List.append_assoc, List.append_assoc] at hsplit
  obtain rfl := eq_of_bytes_eq hsplit (hstart'.symm.trans hstart)
  obtain rfl := eq_of_bytes_eq (List.append_cancel_left hsplit) (by omega)
  rw [hstart, hbs]

end DecafCheck
