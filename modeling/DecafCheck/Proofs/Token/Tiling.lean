import DecafCheck.Proofs.Token.Pattern
import DecafCheck.Token.Dump

namespace DecafCheck

theorem bytes_toList (s : String) : bytes s.toList = s.utf8ByteSize := by
  have h (cs : List Char) : bytes cs = (String.ofList cs).utf8ByteSize := by
    induction cs with
    | nil => simp [bytes]
    | cons c cs ih =>
      rw [bytes, ih, String.ofList_cons, String.utf8ByteSize_append, String.utf8ByteSize_singleton]
  rw [h, String.ofList_toList]

theorem bytes_pos {cs : List Char} (h : cs ≠ []) : 0 < bytes cs := by
  cases cs with
  | nil => exact absurd rfl h
  | cons c cs => exact Nat.lt_of_lt_of_le c.utf8Size_pos (Nat.le_add_right _ _)

theorem Token.Written.payload {t : Token} {cs : List Char} (h : t.Written cs) :
    ∀ text, t.payload? = some text → text = String.ofList cs := by
  intro text ht
  cases h with
  | keyword | mark => cases ht
  | identifier | decimal | hex => exact (Option.some.inj ht).symm

namespace Lexer

/-- Blanks and comments before `rest`. A comment reaches to just before a newline or the end of the
text. -/
inductive Gap : List Char → List Char → Prop
  | nil {rest : List Char} : Gap [] rest
  | blank {c : Char} {gap rest : List Char} : isBlank c = true → Gap gap rest → Gap (c :: gap) rest
  | comment {body gap rest : List Char} : '\n' ∉ body →
      (gap ++ rest = [] ∨ (gap ++ rest).head? = some '\n') →
      Gap gap rest → Gap ('/' :: '/' :: body ++ gap) rest

/-- The span of what was found. -/
def foundSpan : Except LexicalError Lexeme → Span
  | .ok l => l.span
  | .error e => e.span

/-- What was found at the head of `cs ++ rest`, on the characters `cs` from byte `start` on. -/
inductive Found (start : Nat) : List Char → List Char → Except LexicalError Lexeme → Prop
  | token {t : Token} {cs rest : List Char} : t.Written cs → Longest cs rest →
      (∀ k : Keyword, (Token.keyword k).Written cs → t = .keyword k) →
        Found start cs rest (.ok ⟨t, start, start + bytes cs⟩)
  | invalid {c : Char} {rest : List Char} : (∀ ds, Fits ds → ¬ ds <+: c :: rest) →
      Found start [c] rest (.error ⟨c, start, start + bytes [c]⟩)

/-- The results tile a text that begins at byte `start`. -/
inductive Tiled : Nat → List Char → List (Except LexicalError Lexeme) → Prop
  | done {start : Nat} {gap : List Char} : Gap gap [] → Tiled start gap []
  | found {start : Nat} {gap cs rest : List Char} {result : Except LexicalError Lexeme}
      {results : List (Except LexicalError Lexeme)} : Gap gap (cs ++ rest) →
      Found (start + bytes gap) cs rest result →
        Tiled (start + bytes gap + bytes cs) rest results →
        Tiled start (gap ++ cs ++ rest) (result :: results)

theorem Gap.blanks {cs gap rest : List Char} (hcs : ∀ c ∈ cs, isBlank c = true) (h : Gap gap rest) :
    Gap (cs ++ gap) rest := by
  induction cs with
  | nil => exact h
  | cons c cs ih =>
    obtain ⟨hc, hcs⟩ := List.forall_mem_cons.mp hcs
    exact .blank hc (ih hcs)

/-- What is passed over whole goes before a gap. -/
theorem Gap.skipped {cs gap rest : List Char} (hcs : Skipped cs) (hlong : Longest cs (gap ++ rest))
    (h : Gap gap rest) :
    Gap (cs ++ gap) rest := by
  cases hcs with
  | blanks hcs => exact h.blanks hcs
  | @comment body hbody =>
    refine .comment hbody ?_ h
    cases hnext : gap ++ rest with
    | nil => exact .inl rfl
    | cons d ds =>
      -- Any other character would make the comment longer.
      refine .inr (congrArg some (Classical.byContradiction fun hd => ?_))
      have hfits : Fits ('/' :: '/' :: (body ++ [d])) :=
        .inr (.comment (by simpa [hbody] using Ne.symm hd))
      have hle := hlong _ hfits ⟨ds, by simp [hnext]⟩
      rw [List.length_cons, List.length_cons, List.length_append, List.length_singleton] at hle
      exact absurd hle (Nat.not_succ_le_self _)

theorem Tiled.skipped {start : Nat} {cs rest : List Char}
    {results : List (Except LexicalError Lexeme)} (hcs : Skipped cs) (hlong : Longest cs rest)
    (h : Tiled (start + bytes cs) rest results) :
    Tiled start (cs ++ rest) results := by
  generalize hstart : start + bytes cs = next at h
  cases h with
  | done hgap => exact .done (hgap.skipped hcs (by simpa using hlong))
  | @found _ gap ds rest result results hgap hfound hrest =>
    subst hstart
    rw [List.append_assoc gap] at hlong
    rw [Nat.add_assoc start, ← bytes_append] at hfound hrest
    have htiled : Tiled start (cs ++ gap ++ ds ++ rest) (result :: results) :=
      .found (hgap.skipped hcs hlong) hfound hrest
    simpa only [List.append_assoc] using htiled

theorem Tiled.next {start : Nat} {cs rest : List Char} {result : Except LexicalError Lexeme}
    {results : List (Except LexicalError Lexeme)} (hfound : Found start cs rest result)
    (h : Tiled (start + bytes cs) rest results) : Tiled start (cs ++ rest) (result :: results) :=
  .found .nil hfound h

theorem lexemes_cons (start : Nat) (c : Char) (cs : List Char) : lexemes start 0 (c :: cs) =
    (match (piece c cs).1 with
      | .token t => [.ok ⟨t, start, start + bytes (c :: cs.take (piece c cs).2)⟩]
      | .blank => []
      | .invalid => [.error ⟨c, start, start + bytes (c :: cs.take (piece c cs).2)⟩]) ++
      lexemes (start + bytes (c :: cs.take (piece c cs).2)) 0 (cs.drop (piece c cs).2) := by
  rw [lexemes]
  simp only [lexemes_inside _ (piece c cs).2, bytes, Nat.add_assoc]
  cases (piece c cs).1 <;> rfl

/-- Whatever stands at the head of a text, the rest is tiled behind it. -/
theorem tiled_lexemes (start : Nat) (cs : List Char) : Tiled start cs (lexemes start 0 cs) := by
  induction hn : cs.length using Nat.strongRecOn generalizing start cs with
  | ind n ih =>
    cases cs with
    | nil => exact .done .nil
    | cons c cs =>
      have hsplit : c :: cs = (c :: cs.take (piece c cs).2) ++ cs.drop (piece c cs).2 := by
        rw [List.cons_append, List.take_append_drop]
      have hrest (next : Nat) :
          Tiled next (cs.drop (piece c cs).2) (lexemes next 0 (cs.drop (piece c cs).2)) := by
        apply ih _ _ next _ rfl
        rw [← hn, List.length_drop, List.length_cons]
        omega
      have hcuts := piece_cuts c cs
      rw [lexemes_cons]
      nth_rewrite 1 [hsplit]
      cases hpiece : (piece c cs).1 with
      | token t =>
        obtain ⟨hwritten, hlong, hkeyword⟩ := hpiece ▸ hcuts
        exact .next (.token hwritten hlong hkeyword) (hrest _)
      | blank =>
        obtain ⟨hskipped, hlong⟩ := hpiece ▸ hcuts
        exact (hrest _).skipped hskipped hlong
      | invalid =>
        obtain ⟨hone, hnone⟩ := hpiece ▸ hcuts
        rw [List.eq_nil_of_length_eq_zero (Nat.succ.inj hone)] at hnone ⊢
        exact .next (.invalid hnone) (hrest _)

section Found

variable {start : Nat} {cs rest : List Char} {result : Except LexicalError Lexeme}

theorem Found.ne_nil (h : Found start cs rest result) : cs ≠ [] := by
  cases h with
  | token hwritten =>
    intro hcs
    exact not_fits_nil (.inl ⟨_, hcs ▸ hwritten⟩)
  | invalid => exact List.cons_ne_nil _ _

theorem Found.span (h : Found start cs rest result) :
    foundSpan result = ⟨start, start + bytes cs⟩ := by
  cases h <;> rfl

end Found

section Tiled

variable {start : Nat} {cs : List Char} {results : List (Except LexicalError Lexeme)}

theorem Tiled.start_le (h : Tiled start cs results) :
    ∀ r ∈ results, start ≤ (foundSpan r).start := by
  induction h with
  | done => exact fun _ h => nomatch h
  | found _ hfound _ ih =>
    refine List.forall_mem_cons.mpr ⟨?_, fun r hr => ?_⟩
    · rw [hfound.span]
      exact Nat.le_add_right _ _
    · have := ih r hr
      omega

theorem Tiled.pairwise (h : Tiled start cs results) :
    results.Pairwise fun r s => (foundSpan r).stop ≤ (foundSpan s).start := by
  induction h with
  | done => exact .nil
  | found _ hfound hrest ih =>
    refine .cons (fun r hr => ?_) ih
    rw [hfound.span]
    exact hrest.start_le r hr

/-- Every result stands on a part of the text. -/
theorem Tiled.located (h : Tiled start cs results) : ∀ r ∈ results, ∃ before found after,
    cs = before ++ found ++ after ∧ Found (start + bytes before) found after r := by
  induction h with
  | done => exact fun _ h => nomatch h
  | @found start gap cs rest _ _ _ hfound _ ih =>
    refine List.forall_mem_cons.mpr ⟨⟨gap, cs, rest, rfl, hfound⟩, fun r hr => ?_⟩
    obtain ⟨before, found, after, rfl, h⟩ := ih r hr
    refine ⟨gap ++ cs ++ before, found, after, by simp only [List.append_assoc], ?_⟩
    simpa only [bytes_append, Nat.add_assoc] using h

end Tiled

end Lexer

/-- A text being read: the characters that are left, and the byte at which they begin. -/
structure Scanner where
  rest : List Char
  offset : Nat

namespace Scanner

open Lexer

def ofString (source : String) : Scanner :=
  ⟨source.toList, 0⟩

/-- Reads on up to the next token, to a character that starts none, or to the end of the file. -/
def next : Scanner → Except LexicalError (Option Token × Span) × Scanner
  | ⟨[], offset⟩ => (.ok (none, ⟨offset, offset⟩), ⟨[], offset⟩)
  | ⟨c :: cs, offset⟩ =>
    let behind : Scanner := ⟨cs.drop (piece c cs).2, offset + bytes (c :: cs.take (piece c cs).2)⟩
    match (piece c cs).1 with
    | .token t => (.ok (some t, ⟨offset, behind.offset⟩), behind)
    | .invalid => (.error ⟨c, offset, behind.offset⟩, behind)
    | .blank => behind.next
termination_by s => s.rest.length
decreasing_by
  simp only [List.length_drop, List.length_cons]
  omega

/-- What the call number `n` gives, counted from zero. -/
def call (s : Scanner) : Nat → Except LexicalError (Option Token × Span)
  | 0 => s.next.1
  | n + 1 => s.next.2.call n

def results (s : Scanner) : List (Except LexicalError Lexeme) :=
  lexemes s.offset 0 s.rest

/-- The byte at which the file ends. -/
def stop (s : Scanner) : Nat :=
  s.offset + bytes s.rest

/-- A result as a call gives it; where there is none, the file has ended. -/
def answer (stop : Nat) :
    Option (Except LexicalError Lexeme) → Except LexicalError (Option Token × Span)
  | some (.ok l) => .ok (some l.token, l.span)
  | some (.error e) => .error e
  | none => .ok (none, ⟨stop, stop⟩)

theorem results_cons (offset : Nat) (c : Char) (cs : List Char) : results ⟨c :: cs, offset⟩ =
    (match (piece c cs).1 with
      | .token t => [.ok ⟨t, offset, offset + bytes (c :: cs.take (piece c cs).2)⟩]
      | .blank => []
      | .invalid => [.error ⟨c, offset, offset + bytes (c :: cs.take (piece c cs).2)⟩]) ++
      results ⟨cs.drop (piece c cs).2, offset + bytes (c :: cs.take (piece c cs).2)⟩ :=
  lexemes_cons offset c cs

theorem stop_behind (offset : Nat) (cs : List Char) (n : Nat) :
    stop ⟨cs.drop n, offset + bytes (cs.take n)⟩ = stop ⟨cs, offset⟩ := by
  rw [stop, stop, Nat.add_assoc, ← bytes_append, List.take_append_drop]

/-- A call gives the first of the results that are left and leaves the others. -/
theorem next_spec (s : Scanner) :
    s.next.1 = answer s.stop s.results.head? ∧ s.next.2.results = s.results.tail ∧
    s.next.2.stop = s.stop := by
  fun_induction next s with
  | case1 offset => exact ⟨rfl, rfl, rfl⟩
  | case2 c cs offset behind t hpiece =>
    rw [results_cons, hpiece]
    exact ⟨rfl, rfl, stop_behind offset (c :: cs) ((piece c cs).2 + 1)⟩
  | case3 c cs offset behind hpiece =>
    rw [results_cons, hpiece]
    exact ⟨rfl, rfl, stop_behind offset (c :: cs) ((piece c cs).2 + 1)⟩
  | case4 c cs offset behind hpiece ih =>
    rw [results_cons, hpiece, ← stop_behind offset (c :: cs) ((piece c cs).2 + 1)]
    exact ih

theorem call_eq (s : Scanner) (n : Nat) : s.call n = answer s.stop s.results[n]? := by
  induction n generalizing s with
  | zero => rw [call, s.next_spec.1, List.head?_eq_getElem?]
  | succ n ih => rw [call, ih, s.next_spec.2.1, s.next_spec.2.2, List.getElem?_tail]

/-- The file ends behind the last result, and only there. -/
theorem answer_eq_end_iff {stop : Nat} {result? : Option (Except LexicalError Lexeme)}
    {span : Span} :
    answer stop result? = .ok (none, span) ↔ result? = none ∧ span = ⟨stop, stop⟩ := by
  rcases result? with _ | (e | l) <;> simp [answer, eq_comm]

end Scanner

/-- Calls for the next token give the results that tile the text, one by one and then the end of the
file for good. -/
theorem Scanner.call_tiled (source : String) :
    (∀ n, (Scanner.ofString source).call n =
      Scanner.answer source.utf8ByteSize (Scan.ofString source).lexemes[n]?) ∧
    (∀ n span, (Scanner.ofString source).call n = .ok (none, span) ↔
      (Scan.ofString source).lexemes.length ≤ n ∧
        span = ⟨source.utf8ByteSize, source.utf8ByteSize⟩) ∧
    Lexer.Tiled 0 source.toList (Scan.ofString source).lexemes ∧
    ((Scan.ofString source).lexemes.Pairwise fun r s =>
      (Lexer.foundSpan r).stop ≤ (Lexer.foundSpan s).start) ∧
    ∀ r ∈ (Scan.ofString source).lexemes, ∃ before found after,
      source.toList = before ++ found ++ after ∧
      Lexer.foundSpan r = ⟨bytes before, bytes (before ++ found)⟩ ∧
      bytes before < bytes (before ++ found) ∧ bytes (before ++ found) ≤ source.utf8ByteSize ∧
      match r with
      | .ok l => l.token.Written found ∧ Lexer.Longest found after ∧
        ∀ text, l.token.payload? = some text → text = String.ofList found
      | .error e => found = [e.char] ∧ ∀ cs, Lexer.Fits cs → ¬ cs <+: e.char :: after := by
  have htiled : Lexer.Tiled 0 source.toList (Scan.ofString source).lexemes :=
    Lexer.tiled_lexemes 0 source.toList
  have hcall (n : Nat) : (Scanner.ofString source).call n =
      Scanner.answer source.utf8ByteSize (Scan.ofString source).lexemes[n]? := by
    have hstop : (Scanner.ofString source).stop = source.utf8ByteSize := by
      rw [Scanner.stop, ← bytes_toList]
      exact Nat.zero_add _
    rw [Scanner.call_eq, hstop]
    rfl
  refine ⟨hcall, fun n span => ?_, htiled, htiled.pairwise, fun r hr => ?_⟩
  · rw [hcall, Scanner.answer_eq_end_iff, List.getElem?_eq_none_iff]
  · obtain ⟨before, found, after, hsource, hfound⟩ := htiled.located r hr
    have hbytes : 0 < bytes found := bytes_pos hfound.ne_nil
    have hlength : bytes before + bytes found + bytes after = source.utf8ByteSize := by
      rw [← bytes_toList, hsource, bytes_append, bytes_append]
    refine ⟨before, found, after, hsource, ?_, ?_, ?_, ?_⟩
    · rw [hfound.span, Nat.zero_add, bytes_append]
    · rw [bytes_append]
      omega
    · rw [bytes_append]
      omega
    · cases hfound with
      | token hwritten hlong => exact ⟨hwritten, hlong, hwritten.payload⟩
      | invalid hnone => exact ⟨rfl, hnone⟩

-- Words that are keywords, a word that only begins like one, and all marks.
example : (Scan.ofString ("def int bool void if else while return break continue true false defs" ++
    "+-*/%==!=<><=>=&&||! =()[]\x7b\x7d;,")).tokens.toOption.map (List.map Lexeme.token) =
      some (Keyword.all.map Token.keyword ++ .identifier "defs" ::
        [.plus, .minus, .star, .slash, .percent, .equal, .notEqual, .less, .greater, .lessEqual,
          .greaterEqual, .and, .or, .not, .assign, .leftParen, .rightParen, .leftBracket,
          .rightBracket, .leftBrace, .rightBrace, .semicolon, .comma].map Token.mark) := by
  decide +kernel

end DecafCheck
