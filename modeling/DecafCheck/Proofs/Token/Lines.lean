import DecafCheck.Proofs.Token.Locality

namespace DecafCheck

namespace Lexer

/-- Whatever does not begin with a blank ends before the next newline. -/
theorem newline_not_mem_piece {c : Char} (hc : isBlank c = false) (cs : List Char) :
    '\n' ∉ c :: cs.take (piece c cs).2 := by
  have hnewline : isBlank '\n' = true := rfl
  have hcuts := piece_cuts c cs
  generalize cs.take (piece c cs).2 = taken at hcuts ⊢
  intro hmem
  cases hfound : (piece c cs).1 with
  | token t =>
    obtain ⟨hwritten, -⟩ := hfound ▸ hcuts
    cases (hwritten.not_isBlank _ hmem).symm.trans hnewline
  | blank =>
    obtain ⟨hskipped, -⟩ := hfound ▸ hcuts
    generalize htext : c :: taken = text at hskipped hmem
    cases hskipped with
    | blanks hblank =>
      obtain ⟨rfl, rfl⟩ := List.cons.inj htext
      cases hc.symm.trans (hblank c List.mem_cons_self)
    | comment hbody => simp [hbody] at hmem
  | invalid =>
    obtain ⟨hone, -⟩ := hfound ▸ hcuts
    obtain rfl : taken = [] := List.eq_nil_of_length_eq_zero (Nat.succ.inj hone)
    obtain rfl := List.mem_singleton.mp hmem
    cases hc.symm.trans hnewline

theorem piece_le_of_newline {c : Char} (hc : isBlank c = false) (cs rest : List Char) :
    (piece c (cs ++ '\n' :: rest)).2 ≤ cs.length := by
  by_contra hlt
  refine newline_not_mem_piece hc (cs ++ '\n' :: rest) (List.mem_cons_of_mem c ?_)
  rw [List.take_append, List.mem_append]
  refine .inr ?_
  obtain ⟨n, hn⟩ := Nat.exists_eq_add_of_lt (Nat.lt_of_not_le hlt)
  rw [hn, Nat.add_assoc, Nat.add_sub_cancel_left]
  exact List.mem_cons_self

/-- Blanks before the newline join those behind it, and every other piece stays as it is. -/
theorem lexemes_newline (start : Nat) (cs rest : List Char) : lexemes start 0 (cs ++ '\n' :: rest) =
    lexemes start 0 cs ++ lexemes (start + bytes cs + 1) 0 rest := by
  induction hn : cs.length using Nat.strongRecOn generalizing start cs with
  | ind n ih =>
    cases cs with
    | nil => exact lexemes_blank rfl start rest
    | cons c cs =>
      cases hc : isBlank c with
      | true =>
        rw [List.cons_append, lexemes_blank hc, lexemes_blank hc,
          ih cs.length (by simp [← hn]) _ _ rfl, bytes, Nat.add_assoc start]
      | false =>
        have hle := piece_le_of_newline hc cs rest
        have hpiece := piece_append hle
        rw [hpiece] at hle
        have hlength : (cs.drop (piece c cs).2).length < n := by
          rw [← hn, List.length_drop, List.length_cons]
          omega
        have hbytes : start + bytes (c :: cs.take (piece c cs).2) + bytes (cs.drop (piece c cs).2) =
            start + bytes (c :: cs) := by
          rw [Nat.add_assoc, ← bytes_append, List.cons_append, List.take_append_drop]
        rw [List.cons_append, lexemes_cons, lexemes_cons, hpiece, List.take_append_of_le_length hle,
          List.drop_append_of_le_length hle, ih _ hlength _ _ rfl, hbytes, List.append_assoc]

end Lexer

theorem Scan.lexemes_newline (first second : String) :
    (ofString (first ++ "\n" ++ second)).lexemes =
    (ofString first).lexemes ++
      (ofString second).lexemes.map (Lexer.shift (first.utf8ByteSize + 1)) := by
  have htext : (first ++ "\n" ++ second).toList = first.toList ++ '\n' :: second.toList := by
    simp [String.toList_append]
  have hsecond := Lexer.lexemes_shift (first.utf8ByteSize + 1) 0 0 second.toList
  show Lexer.lexemes 0 0 (first ++ "\n" ++ second).toList = _
  rw [htext, Lexer.lexemes_newline, bytes_toList, Nat.zero_add]
  exact congrArg _ hsecond

namespace Scanner

open Lexer

/-- Whether a call came to the end of the file. -/
def isEnd : Except LexicalError (Option Token × Span) → Bool
  | .ok (none, _) => true
  | _ => false

theorem length_rest_next (s : Scanner) : s.next.2.rest.length ≤ s.rest.length - 1 := by
  fun_induction next s with
  | case1 => exact Nat.zero_le _
  | case2 c cs offset behind | case3 c cs offset behind =>
    rw [List.length_cons, Nat.add_sub_cancel, List.length_drop]
    exact Nat.sub_le _ _
  | case4 c cs offset behind hpiece ih =>
    refine ih.trans ?_
    rw [List.length_drop, List.length_cons]
    omega

/-- What the calls give up to the first that comes to the end of the file. -/
def answers (s : Scanner) : List (Except LexicalError (Option Token × Span)) :=
  if isEnd s.next.1 then [s.next.1] else s.next.1 :: s.next.2.answers
termination_by s.rest.length
decreasing_by
  have hrest := s.length_rest_next
  have hpos : s.rest.length ≠ 0 := by
    obtain ⟨_ | ⟨c, cs⟩, offset⟩ := s
    · rename_i hend
      exact absurd (by rw [next]; rfl) hend
    · exact Nat.succ_ne_zero _
  omega

/-- An answer with its span `offset` bytes further on. -/
def shift (offset : Nat) :
    Except LexicalError (Option Token × Span) → Except LexicalError (Option Token × Span)
  | .ok (found, span) => .ok (found, span.shift offset)
  | .error e => .error ⟨e.char, e.span.shift offset⟩

theorem answer_shift (offset stop : Nat) (result? : Option (Except LexicalError Lexeme)) :
    answer (offset + stop) (result?.map (Lexer.shift offset)) =
      shift offset (answer stop result?) := by
  rcases result? with _ | (e | l) <;> rfl

/-- The answers are the results and then the end of the file. -/
theorem answers_eq (s : Scanner) :
    s.answers = s.results.map (fun r => answer s.stop (some r)) ++ [answer s.stop none] := by
  fun_induction answers s with
  | case1 s hend =>
    obtain ⟨hanswer, -, -⟩ := s.next_spec
    rw [hanswer] at hend ⊢
    rcases hresults : s.results with _ | ⟨e | l, results⟩
    · rfl
    · rw [hresults] at hend
      cases hend
    · rw [hresults] at hend
      cases hend
  | case2 s hend ih =>
    obtain ⟨hanswer, htail, hstop⟩ := s.next_spec
    rw [hanswer] at hend
    rw [ih, hanswer, htail, hstop]
    cases hresults : s.results with
    | nil =>
      rw [hresults] at hend
      exact absurd rfl hend
    | cons r results => rfl

theorem answers_ofString (source : String) : (ofString source).answers =
    (Scan.ofString source).lexemes.map (fun r => answer source.utf8ByteSize (some r)) ++
      [.ok (none, ⟨source.utf8ByteSize, source.utf8ByteSize⟩)] := by
  have hstop : (ofString source).stop = source.utf8ByteSize := by
    rw [stop, ← bytes_toList]
    exact Nat.zero_add _
  rw [answers_eq, hstop]
  rfl

theorem isEnd_answer (stop : Nat) (r : Except LexicalError Lexeme) :
    isEnd (answer stop (some r)) = false := by
  cases r <;> rfl

theorem stop_le_of_mem {source : String} {r : Except LexicalError Lexeme}
    (h : r ∈ (Scan.ofString source).lexemes) :
    (foundSpan r).stop ≤ source.utf8ByteSize := by
  obtain ⟨before, found, after, hsource, hfound⟩ := (tiled_lexemes 0 source.toList).located r h
  rw [hfound.span, ← bytes_toList, hsource, bytes_append, bytes_append]
  dsimp only
  omega

end Scanner

/-- The answers for two texts with a newline between them are those for the first one without the
end of the file, and then those for the second one, as far behind as it stands. No result lies on
both sides of the newline, and no piece that begins with anything but a blank, be it a token, a
comment or an invalid character, has a newline in it. -/
theorem Scanner.answers_newline (first second : String) :
    (ofString (first ++ "\n" ++ second)).answers = (ofString first).answers.dropLast ++
      (ofString second).answers.map (shift (first.utf8ByteSize + 1)) ∧
    (ofString first).answers.getLast? =
      some (.ok (none, ⟨first.utf8ByteSize, first.utf8ByteSize⟩)) ∧
    (∀ a ∈ (ofString first).answers.dropLast, isEnd a = false) ∧
    (∀ r ∈ (Scan.ofString (first ++ "\n" ++ second)).lexemes,
      (Lexer.foundSpan r).stop ≤ first.utf8ByteSize ∨
      first.utf8ByteSize + 1 ≤ (Lexer.foundSpan r).start) ∧
    ∀ (c : Char) (cs : List Char), Lexer.isBlank c = false →
      '\n' ∉ c :: cs.take (Lexer.piece c cs).2 := by
  have hfirst := answers_ofString first
  refine ⟨?_, ?_, ?_, ?_, fun c cs hc => Lexer.newline_not_mem_piece hc cs⟩
  · have hsize : (first ++ "\n" ++ second).utf8ByteSize = first.utf8ByteSize + 1 +
        second.utf8ByteSize := by
      rw [String.utf8ByteSize_append, String.utf8ByteSize_append]
      rfl
    have hshift (r : Except LexicalError Lexeme) :=
      answer_shift (first.utf8ByteSize + 1) second.utf8ByteSize (some r)
    rw [hfirst, List.dropLast_concat, answers_ofString, answers_ofString,
      Scan.lexemes_newline, hsize, List.map_append, List.map_append, List.append_assoc,
      List.map_map, List.map_map]
    congr 1
    · exact List.map_congr_left fun r _ => by cases r <;> rfl
    · congr 1
      exact List.map_congr_left fun r _ => hshift r
  · rw [hfirst, List.getLast?_concat]
  · rw [hfirst, List.dropLast_concat]
    exact List.forall_mem_map.mpr fun r _ => isEnd_answer _ r
  · rw [Scan.lexemes_newline]
    intro r hr
    rcases List.mem_append.mp hr with hr | hr
    · exact .inl (stop_le_of_mem hr)
    · obtain ⟨r, -, rfl⟩ := List.mem_map.mp hr
      refine .inr ?_
      cases r <;> exact Nat.le_add_right _ _

/-- A comment and half an operator before the newline do not go on behind it. -/
theorem Scanner.answers_newline_unfinished :
    (ofString ("0x // b &" ++ "\n" ++ "& 0xg")).answers =
      [.ok (some (.integer "0"), ⟨0, 1⟩), .ok (some (.identifier "x"), ⟨1, 2⟩),
        .error ⟨'&', ⟨10, 11⟩⟩, .ok (some (.integer "0"), ⟨12, 13⟩),
        .ok (some (.identifier "xg"), ⟨13, 15⟩), .ok (none, ⟨15, 15⟩)] ∧
    '\n' ∉ '/' :: "/ b &\n& 0xg".toList.take (Lexer.piece '/' "/ b &\n& 0xg".toList).2 := by
  obtain ⟨hanswers, -, -, -, hpiece⟩ := answers_newline "0x // b &" "& 0xg"
  refine ⟨?_, hpiece '/' _ rfl⟩
  rw [hanswers, answers_ofString, answers_ofString]
  decide +kernel

end DecafCheck
