import DecafCheck.Proofs.Grammar.Printing
import DecafCheck.Proofs.Grammar.Prompt.Statement

namespace DecafCheck

open Token

/-- Tokens that those of a text with a program begin with. The end of the text counts as a last
token. -/
def Viable (ts : List (Option Token)) : Prop :=
  ∃ source ls, (Scan.ofString source).tokens = .ok ls ∧
    Nonempty (Concrete.Derivation (ls.map Lexeme.token)) ∧
    ts <+: (ls.map Lexeme.token).map some ++ [none]

section Viable

variable {ts us : List (Option Token)}

theorem Viable.of_isPrefix (h : Viable ts) (hus : us <+: ts) : Viable us := by
  obtain ⟨source, ls, hls, hderives, hts⟩ := h
  exact ⟨source, ls, hls, hderives, hus.trans hts⟩

theorem viable_iff : Viable ts ↔
    ∃ vs, AllGenuine vs ∧ Nonempty (Concrete.Derivation vs) ∧ ts <+: vs.map some ++ [none] := by
  constructor
  · rintro ⟨source, ls, hls, hderives, hts⟩
    exact ⟨_, Scan.allGenuine hls, hderives, hts⟩
  · rintro ⟨vs, hgenuine, hderives, hts⟩
    obtain ⟨ls, hls, rfl⟩ := exists_tokens_text hgenuine
    exact ⟨_, ls, hls, hderives, hts⟩

theorem viable_some {ts : List Token} : Viable (ts.map some) ↔ Begins ts := by
  rw [viable_iff]
  constructor
  · rintro ⟨vs, hgenuine, hderives, hts⟩
    refine ⟨vs, hgenuine, hderives, ?_⟩
    simpa using hts.filterMap id
  · rintro ⟨vs, hgenuine, hderives, hts⟩
    exact ⟨vs, hgenuine, hderives, (hts.map some).trans (List.prefix_append _ _)⟩

theorem viable_end {ts : List Token} (h : Viable (ts.map some ++ [none])) :
    Nonempty (Concrete.Derivation ts) := by
  obtain ⟨vs, -, hderives, hts⟩ := viable_iff.mp h
  rcases List.prefix_concat_iff.mp hts with heq | hbefore
  · have htokens : ts = vs := by
      simpa using congrArg (List.filterMap id) heq
    exact htokens ▸ hderives
  · have hnone : none ∈ vs.map some := hbefore.subset (by simp)
    simp at hnone

end Viable

namespace Cursor

theorem span_forward (c : Cursor) (k : Nat) :
    (c.forward k).span = (c.ahead[k]?.map Lexeme.span).getD ⟨c.length, c.length⟩ := by
  have hspan (d : Cursor) : d.span = (d.ahead.head?.map Lexeme.span).getD ⟨d.length, d.length⟩ := by
    obtain ⟨_ | ⟨l, rest⟩, _, _, _⟩ := d <;> rfl
  rw [hspan, ahead_forward, List.head?_drop]
  rfl

theorem split_isPrefix (results : List (Except LexicalError Lexeme)) :
    (split results).1.map .ok <+: results := by
  induction results with
  | nil => exact List.nil_prefix
  | cons r results ih =>
    cases r with
    | error e => exact List.nil_prefix
    | ok l => exact List.cons_prefix_cons.mpr ⟨rfl, ih⟩

theorem ofScan_eq_error {s : Scan} {e : ParseError} (h : ofScan s = .error e) :
    ∃ invalid, e = .lexical invalid ∧ (split s.lexemes).1 = [] ∧
      (split s.lexemes).2 = some invalid := by
  unfold ofScan at h
  generalize split s.lexemes = parts at h ⊢
  obtain ⟨_ | ⟨l, ls⟩, _ | invalid⟩ := parts <;> cases h
  exact ⟨invalid, rfl, rfl, rfl⟩

variable {c : Cursor} {g : GrammarError} {k : Nat}

/-- No program begins with the tokens up to a grammar error, since a run stops at the same token
whatever comes behind it. -/
theorem not_begins_of_error (hreaches : c.Reaches 0) (hprevious : c.previous = ⟨0, 0⟩)
    (hspans : ∀ j, c.Reaches j → (c.forward j).span = (c.forward k).span → j = k)
    (h : Parser.program.run c = .error (.grammar g)) (hspan : g.span = (c.forward k).span)
    (hk : k < c.ahead.length) :
    ¬ Begins (c.tokens.take (k + 1)) := by
  rintro ⟨_, -, ⟨⟨p, hp, rfl⟩⟩, rest, hrest⟩
  -- A cursor on the tokens of the program, the first of which are those of `c`.
  let d : Cursor := ⟨c.ahead.take (k + 1) ++ rest.map fun t => ⟨t, ⟨0, 0⟩⟩, none,
    c.length, c.previous⟩
  have htokens : p.tokens = d.tokens := by
    rw [← hrest]
    simp [d, tokens, List.map_take, Function.comp_def]
  have hclean : d.Clean := rfl
  have hyields : Parser.program.Yields d _ _ :=
    (Concrete.yields_program hclean hprevious).mpr ⟨p, hp, htokens, rfl, rfl⟩
  have hmirrors : Mirrors (k + 1) (d.ahead.length + 1) c d := by
    refine fun _ => ⟨hclean, Nat.lt_succ_self _, ?_, rfl, rfl⟩
    rw [List.take_append_of_le_length (by rw [List.length_take]; omega),
      List.take_take, Nat.min_self]
  have halike := (Parser.local_program (A := Parser.Anywhere)).alike trivial hreaches
    (Nat.lt_succ_self _) hmirrors
  rw [h, hyields] at halike
  cases halike with
  | beyond hbeyond =>
    cases hbeyond with
    | grammar hj hreach hspan' =>
      have heq := hspans _ hreach (hspan'.symm.trans hspan)
      omega

theorem not_derivation_of_error (hclean : c.Clean) (hprevious : c.previous = ⟨0, 0⟩)
    {e : ParseError} (h : Parser.program.run c = .error e) :
    ¬ Nonempty (Concrete.Derivation c.tokens) := by
  rintro ⟨⟨p, hp, htokens⟩⟩
  have hyields : Parser.program.Yields c _ _ :=
    (Concrete.yields_program hclean hprevious).mpr ⟨p, hp, htokens, rfl, rfl⟩
  rw [Parser.Yields, h] at hyields
  cases hyields

end Cursor

namespace Scan

/-- The tokens before the first invalid character. -/
def valid (s : Scan) : List Lexeme :=
  (Cursor.split s.lexemes).1

/-- The first character that starts no token. -/
def invalid? (s : Scan) : Option LexicalError :=
  (Cursor.split s.lexemes).2

/-- The tokens before the first invalid character and their spans. Without such a character, the end
of the text is the last of them. -/
def places (s : Scan) : List (Option Token × Span) :=
  s.valid.map (fun l => (some l.token, l.span)) ++ if s.invalid?.isSome then [] else
    [(none, s.fileEnd)]

/-- The first `n` tokens. -/
def beginning (s : Scan) (n : Nat) : List (Option Token) :=
  (s.places.take n).map Prod.fst

/-- Place `i` is the first one up to which the tokens are not viable. -/
def FirstUnviable (s : Scan) (i : Nat) : Prop :=
  (∀ j ≤ i, Viable (s.beginning j)) ∧ ¬ Viable (s.beginning (i + 1))

def start (s : Scan) : Cursor :=
  ⟨s.valid, s.invalid?, s.length, ⟨0, 0⟩⟩

variable {s : Scan} {i j k : Nat}

theorem length_places_of_some {e : LexicalError} (h : s.invalid? = some e) :
    s.places.length = s.valid.length := by
  simp [places, h]

theorem length_places_of_none (h : s.invalid? = none) : s.places.length = s.valid.length + 1 := by
  simp [places, h]

theorem reaches_iff : s.start.Reaches k ↔ k < s.places.length := by
  cases h : s.invalid? with
  | none =>
    rw [length_places_of_none h, Nat.lt_succ_iff]
    exact ⟨And.left, fun hk => ⟨hk, fun _ => h⟩⟩
  | some e =>
    rw [length_places_of_some h]
    constructor
    · intro hk
      refine Nat.lt_of_le_of_ne hk.1 fun heq => ?_
      cases h.symm.trans (hk.2 heq)
    · exact fun hk => ⟨Nat.le_of_lt hk, fun heq => absurd heq (Nat.ne_of_lt hk)⟩

theorem span_of_places {t : Option Token} {span : Span} (h : s.places[k]? = some (t, span)) :
    (s.start.forward k).span = span := by
  rw [Cursor.span_forward]
  unfold places at h
  show (s.valid[k]?.map Lexeme.span).getD s.fileEnd = span
  cases hl : s.valid[k]? with
  | some l =>
    have hk := (List.getElem?_eq_some_iff.mp hl).1
    rw [List.getElem?_append_left (by simpa using hk), List.getElem?_map, hl] at h
    exact congrArg Prod.snd (Option.some.inj h)
  | none =>
    have hk := List.getElem?_eq_none_iff.mp hl
    rw [List.getElem?_append_right (by simpa using hk), List.length_map] at h
    split at h
    · cases h
    · exact congrArg Prod.snd (List.mem_singleton.mp (List.mem_of_getElem? h)).symm

theorem beginning_le (hk : k ≤ s.valid.length) :
    s.beginning k = ((s.valid.take k).map Lexeme.token).map some := by
  unfold beginning places
  rw [List.take_append_of_le_length (by simpa using hk)]
  simp [List.map_take, Function.comp_def]

theorem beginning_end (h : s.invalid? = none) :
    s.beginning (s.valid.length + 1) = (s.valid.map Lexeme.token).map some ++ [none] := by
  unfold beginning
  rw [List.take_of_length_le (Nat.le_of_eq (length_places_of_none h))]
  simp [places, h, Function.comp_def]

theorem beginning_isPrefix (h : i ≤ j) : s.beginning i <+: s.beginning j :=
  (List.take_prefix_take_left h).map Prod.fst

section Source

variable {source : String}

theorem mem_of_valid {l : Lexeme} (h : l ∈ (ofString source).valid) :
    .ok l ∈ (ofString source).lexemes :=
  (Cursor.split_isPrefix _).subset (List.mem_map_of_mem h)

theorem genuine_valid : AllGenuine (ofString source).start.tokens := by
  intro t ht
  obtain ⟨l, hl, rfl⟩ := List.mem_map.mp ht
  exact genuine_of_mem (mem_of_valid hl)

theorem span_of_mem {l : Lexeme} (h : l ∈ (ofString source).valid) :
    l.span.start < l.span.stop ∧ l.span.stop ≤ (ofString source).length := by
  obtain ⟨before, found, after, hsource, hfound⟩ :=
    (Lexer.tiled_lexemes 0 source.toList).located _ (mem_of_valid h)
  have hspan : l.span = _ := hfound.span
  have hpos := bytes_pos hfound.ne_nil
  have hlength : (ofString source).length = bytes before + bytes found + bytes after := by
    rw [← bytes_append, ← bytes_append, ← hsource]
    rfl
  rw [hspan, hlength]
  constructor <;> dsimp only <;> omega

/-- Each place begins behind the one before it. -/
theorem start_lt_start (hij : i < j) (hj : j ≤ (ofString source).valid.length) :
    ((ofString source).start.forward i).span.start <
      ((ofString source).start.forward j).span.start := by
  have hi : i < (ofString source).valid.length := by omega
  have hordered : (ofString source).valid.Pairwise fun l m => l.span.stop ≤ m.span.start :=
    List.pairwise_map.mp ((Lexer.tiled_lexemes 0 source.toList).pairwise.sublist
      (Cursor.split_isPrefix _).sublist)
  obtain ⟨hpos, hstop⟩ := span_of_mem (List.getElem_mem hi)
  have hspan : ((ofString source).start.forward i).span = ((ofString source).valid[i]).span := by
    rw [Cursor.span_forward]
    simp [start, hi]
  rw [hspan, Cursor.span_forward]
  rcases Nat.lt_or_eq_of_le hj with hlt | rfl
  · have hle := List.pairwise_iff_getElem.mp hordered i j hi hlt hij
    simp only [start, List.getElem?_eq_getElem hlt, Option.map_some, Option.getD_some]
    omega
  · simp only [start, List.getElem?_length, Option.map_none, Option.getD_none]
    omega

theorem eq_of_span_eq (hi : i ≤ (ofString source).valid.length)
    (hj : j ≤ (ofString source).valid.length)
    (h : ((ofString source).start.forward i).span = ((ofString source).start.forward j).span) :
    i = j := by
  rcases Nat.lt_trichotomy i j with hlt | heq | hgt
  · exact absurd (congrArg Span.start h) (Nat.ne_of_lt (start_lt_start hlt hj))
  · exact heq
  · exact absurd (congrArg Span.start h) (Nat.ne_of_gt (start_lt_start hgt hi))

end Source

theorem viable_beginning (hk : k ≤ s.valid.length) :
    Viable (s.beginning k) ↔ Begins (s.start.tokens.take k) := by
  rw [beginning_le hk, viable_some, List.map_take]
  rfl

/-- How parsing ends, told by the tokens alone. -/
inductive Ends (s : Scan) : Except ParseError Program → Prop
  | program {p : Program} : s.invalid? = none → Viable (s.beginning s.places.length) →
      Ends s (.ok p)
  | grammar {g : GrammarError} {k : Nat} : k < s.places.length → g.span = (s.start.forward k).span →
      Viable (s.beginning k) → ¬ Viable (s.beginning (k + 1)) →
        (k + 1 = s.places.length → s.invalid? ≠ none → Judged (s.start.tokens.take k)) →
        Ends s (.error (.grammar g))
  | invalid {e : LexicalError} : s.invalid? = some e → Viable (s.beginning s.places.length) →
      Ends s (.error (.lexical e))
  | taken {e : LexicalError} {k : Nat} {what : Expectation} : s.invalid? = some e →
      k + 1 = s.places.length →
      Viable (s.beginning k) → TakenAs what (s.start.tokens.take k) → Ends s (.error (.lexical e))

theorem unviable_of_error {source : String} {g : GrammarError}
    (hreaches : (ofString source).start.Reaches 0)
    (h : Parser.program.run (ofString source).start = .error (.grammar g))
    (hk : (ofString source).start.Reaches k)
    (hspan : g.span = ((ofString source).start.forward k).span) :
    ¬ Viable ((ofString source).beginning (k + 1)) := by
  rcases Nat.lt_or_eq_of_le hk.1 with hlt | heq
  · rw [viable_beginning hlt]
    refine Cursor.not_begins_of_error hreaches rfl ?_ h hspan hlt
    exact fun j hj => eq_of_span_eq hj.1 hk.1
  · have hclean := hk.2 heq
    obtain rfl : k = (ofString source).valid.length := heq
    rw [beginning_end hclean]
    exact fun hviable => Cursor.not_derivation_of_error hclean rfl h (viable_end hviable)

theorem viable_of_program {source : String} {p : Program} {c : Cursor}
    (hclean : (ofString source).start.Clean)
    (h : Parser.program.Yields (ofString source).start p c) :
    Viable ((ofString source).beginning (ofString source).places.length) := by
  obtain ⟨d, hd, htokens, -⟩ := (Concrete.yields_program hclean rfl).mp h
  rw [length_places_of_none hclean, beginning_end hclean]
  exact viable_iff.mpr ⟨_, genuine_valid, ⟨⟨d, hd, htokens⟩⟩, List.prefix_rfl⟩

theorem ends_of_stops {source : String} {e : ParseError}
    (hreaches : (ofString source).start.Reaches 0)
    (hrun : Parser.program.run (ofString source).start = .error e)
    (h : Parser.Stops [] (ofString source).start e) :
    (ofString source).Ends (.error e) := by
  have hvalid : (ofString source).start.tokens.length = (ofString source).valid.length :=
    List.length_map _
  cases h with
  | @grammar g k hk hspan hbegins hjudged =>
    have hviable := (viable_beginning hk.1).mpr hbegins
    refine .grammar (reaches_iff.mp hk) hspan hviable (unviable_of_error hreaches hrun hk hspan) ?_
    intro hlast hinvalid
    obtain ⟨e, he⟩ := Option.ne_none_iff_exists'.mp hinvalid
    rw [length_places_of_some he, ← hvalid] at hlast
    exact hjudged hlast hinvalid
  | invalid hinvalid hbegins =>
    refine .invalid hinvalid ?_
    rw [length_places_of_some hinvalid, viable_beginning (Nat.le_refl _)]
    exact hbegins.of_isPrefix (List.take_prefix _ _)
  | taken hinvalid hlast hbegins htaken =>
    rw [hvalid] at hlast
    refine .taken hinvalid ?_ ?_ htaken
    · rw [length_places_of_some hinvalid, hlast]
    · exact (viable_beginning (by omega)).mpr hbegins

theorem ends_parse (source : String) : (ofString source).Ends (Program.parse source) := by
  unfold Program.parse Program.ofScan
  cases hstart : Cursor.ofScan (ofString source) with
  | error e =>
    obtain ⟨e, rfl, hvalid, hinvalid⟩ := Cursor.ofScan_eq_error hstart
    refine .invalid hinvalid ?_
    rw [length_places_of_some hinvalid, viable_beginning (Nat.le_refl _)]
    have htokens : (ofString source).start.tokens = [] := congrArg (List.map Lexeme.token) hvalid
    rw [htokens, List.take_nil]
    exact Concrete.allows_declarations [] (List.forall_mem_nil _) (List.forall_mem_nil _)
  | ok c =>
    obtain ⟨rfl, hreaches⟩ := Cursor.ofScan_eq_ok hstart
    change (ofString source).start.Reaches 0 at hreaches
    show (ofString source).Ends (Prod.fst <$> Parser.program.run (ofString source).start)
    cases hrun : Parser.program.run (ofString source).start with
    | ok r =>
      have hclean := Parser.clean_of_program hreaches hrun
      exact .program hclean (viable_of_program hclean hrun)
    | error e =>
      have hstops := (Concrete.prompt_program (A := Parser.Anywhere)).stops trivial
        genuine_valid hreaches (Nat.lt_succ_self _) hrun
      exact ends_of_stops hreaches hrun hstops

theorem viable_of_parse {source : String} {p : Program} (h : Program.parse source = .ok p) :
    Viable ((ofString source).beginning (ofString source).places.length) := by
  have hends := ends_parse source
  rw [h] at hends
  cases hends with
  | program _ hviable => exact hviable

namespace FirstUnviable

theorem of_viable (h : Viable (s.beginning i)) (hnot : ¬ Viable (s.beginning (i + 1))) :
    s.FirstUnviable i :=
  ⟨fun _ hj => h.of_isPrefix (beginning_isPrefix hj), hnot⟩

theorem le (h : s.FirstUnviable i) (hk : Viable (s.beginning k)) : k ≤ i := by
  by_contra hlt
  exact h.2 (hk.of_isPrefix (beginning_isPrefix (by omega)))

theorem eq (h : s.FirstUnviable i) (hk : Viable (s.beginning k))
    (hnot : ¬ Viable (s.beginning (k + 1))) : k = i := by
  have hle := h.le hk
  have hge : ¬ k + 1 ≤ i := fun hlt => hnot (h.1 _ hlt)
  omega

end FirstUnviable

/-- The first place up to which the tokens are not viable is where they are refused, unless the
token there is taken before it is judged and an invalid character comes next. -/
theorem Ends.refused {r : Except ParseError Program} (h : s.Ends r) (hi : s.FirstUnviable i)
    (hlt : i < s.places.length) :
    (∃ g, r = .error (.grammar g) ∧ g.span = (s.start.forward i).span ∧
      (i + 1 = s.places.length → s.invalid? ≠ none → Judged (s.start.tokens.take i))) ∨
    ∃ e what, r = .error (.lexical e) ∧ s.invalid? = some e ∧ i + 1 = s.places.length ∧
      TakenAs what (s.start.tokens.take i) := by
  cases h with
  | program _ hviable => exact absurd (hi.le hviable) (Nat.not_le_of_lt hlt)
  | grammar _ hspan hviable hnot hjudged =>
    obtain rfl := hi.eq hviable hnot
    exact .inl ⟨_, rfl, hspan, hjudged⟩
  | invalid _ hviable => exact absurd (hi.le hviable) (Nat.not_le_of_lt hlt)
  | @taken e k what hinvalid hlast hviable htaken =>
    have hle := hi.le hviable
    obtain rfl : k = i := by omega
    exact .inr ⟨e, what, rfl, hinvalid, hlast, htaken⟩

theorem Ends.of_viable {r : Except ParseError Program} (h : s.Ends r) {e : LexicalError}
    (he : s.invalid? = some e) (hviable : Viable (s.beginning s.places.length)) :
    r = .error (.lexical e) := by
  cases h with
  | program hnone => cases he.symm.trans hnone
  | grammar hlt _ _ hnot => exact absurd (hviable.of_isPrefix (beginning_isPrefix hlt)) hnot
  | invalid he' => rw [Option.some.inj (he.symm.trans he')]
  | taken he' => rw [Option.some.inj (he.symm.trans he')]

end Scan

/-- A text is refused at the first token up to which it is not viable. If an invalid character
follows right behind this token, then it is refused at that character exactly if the token was taken
as a type, as a name or as a length. If the tokens before an invalid character are viable, then it
is refused at that character. -/
theorem Forest.parse_refuses_earliest (source : String) :
    (∀ i t span, (Scan.ofString source).places[i]? = some (t, span) →
      (Scan.ofString source).FirstUnviable i →
      ((Scan.ofString source).invalid? = none ∨ i + 1 < (Scan.ofString source).places.length) →
        ∃ g, parse source = .error (.grammar g) ∧ g.span = span) ∧
    (∀ e, (Scan.ofString source).invalid? = some e →
      Viable ((Scan.ofString source).beginning (Scan.ofString source).places.length) →
        parse source = .error (.lexical e)) ∧
    ∀ i t span e, (Scan.ofString source).places[i]? = some (t, span) →
      (Scan.ofString source).FirstUnviable i →
      i + 1 = (Scan.ofString source).places.length → (Scan.ofString source).invalid? = some e →
        (parse source = .error (.lexical e) ∨
          ∃ g, parse source = .error (.grammar g) ∧ g.span = span) ∧
        (parse source = .error (.lexical e) ↔
          ∃ what, TakenAs what (((Scan.ofString source).valid.take i).map Lexeme.token)) := by
  have hends := Scan.ends_parse source
  refine ⟨?_, ?_, ?_⟩
  · intro i t span hplace hfirst hjudged
    have hlt := (List.getElem?_eq_some_iff.mp hplace).1
    rcases hends.refused hfirst hlt with ⟨g, hg, hspan, -⟩ | ⟨e, what, -, he, hlast, -⟩
    · exact ⟨g, parse_eq_error hg, hspan.trans (Scan.span_of_places hplace)⟩
    · rcases hjudged with hnone | hbefore
      · cases hnone.symm.trans he
      · omega
  · intro e he hviable
    exact parse_eq_error (hends.of_viable he hviable)
  · intro i t span e hplace hfirst hlast he
    have hlt := (List.getElem?_eq_some_iff.mp hplace).1
    rw [List.map_take]
    rcases hends.refused hfirst hlt with ⟨g, hg, hspan, hjudged⟩ |
      ⟨e', what, he', hinvalid, -, htaken⟩
    · have hparse := parse_eq_error hg
      refine ⟨.inr ⟨g, hparse, hspan.trans (Scan.span_of_places hplace)⟩, ?_⟩
      have hnot : parse source ≠ .error (.lexical e) := by
        rw [hparse]
        exact fun h => nomatch h
      have hnone : (Scan.ofString source).invalid? ≠ none := by
        rw [he]
        exact fun h => nomatch h
      exact iff_of_false hnot fun ⟨what, htaken⟩ => hjudged hlast hnone what htaken
    · obtain rfl := Option.some.inj (he.symm.trans hinvalid)
      exact ⟨.inl (parse_eq_error he'), iff_of_true (parse_eq_error he') ⟨what, htaken⟩⟩

/-- What a program that begins with a type goes on with. -/
theorem Begins.declared {ts : List Token} (h : Begins (.keyword .int :: ts)) : ∃ name length rest,
    ts <+: .identifier name ::
      (Concrete.Variable.lengthTokens length ++ Token.mark .semicolon :: rest) := by
  obtain ⟨_, -, ⟨⟨⟨ds⟩, -, rfl⟩⟩, hts⟩ := h
  rcases ds with _ | ⟨v | g, ds⟩
  · exact absurd hts (by simp [Concrete.Program.tokens])
  · have htokens : Concrete.Program.tokens ⟨.variable v :: ds⟩ = v.type.token ::
        .identifier v.name ::
        (Concrete.Variable.lengthTokens v.length ++ Token.mark .semicolon ::
          Concrete.Program.tokens ⟨ds⟩) := by
      simp [Concrete.Program.tokens, Concrete.Declaration.tokens, Concrete.Variable.tokens]
    rw [htokens] at hts
    exact ⟨_, _, _, (List.cons_prefix_cons.mp hts).2⟩
  · cases (List.cons_prefix_cons.mp hts).1

theorem Forest.parse_refuses_earliest_array :
    ((Scan.ofString "int a[x];").FirstUnviable 3 ∧
      ∃ g, parse "int a[x];" = .error (.grammar g) ∧ g.span = ⟨6, 7⟩) ∧
    (Viable ((Scan.ofString "int a[#").beginning 3) ∧
      parse "int a[#" = .error (.lexical ⟨'#', ⟨6, 7⟩⟩)) ∧
    ((Scan.ofString "int a[x#").FirstUnviable 3 ∧
      parse "int a[x#" = .error (.lexical ⟨'#', ⟨7, 8⟩⟩)) ∧
    (Scan.ofString "int a x#").FirstUnviable 2 ∧
      ∃ g, parse "int a x#" = .error (.grammar g) ∧ g.span = ⟨6, 7⟩ := by
  have hviable {ts : List (Option Token)} (hts : ts <+: (Scan.ofString "int a[1];").beginning 6) :
      Viable ts := by
    obtain ⟨-, -, hwhole⟩ : ∃ p, Program.parse "int a[1];" = .ok p ∧
        Viable ((Scan.ofString "int a[1];").beginning (Scan.ofString "int a[1];").places.length) :=
      exists_ok_of_isSome (by decide +kernel) fun _ => Scan.viable_of_parse
    exact hwhole.of_isPrefix (hts.trans (Scan.beginning_isPrefix (by decide +kernel)))
  have hlength : ¬ Viable ([.keyword .int, .identifier "a", .mark .leftBracket,
      .identifier "x"].map some) := by
    intro h
    obtain ⟨name, _ | length, rest, h⟩ := (viable_some.mp h).declared <;>
      simp [Concrete.Variable.lengthTokens] at h
  have hbare : ¬ Viable ([.keyword .int, .identifier "a", .identifier "x"].map some) := by
    intro h
    obtain ⟨name, _ | length, rest, h⟩ := (viable_some.mp h).declared <;>
      simp [Concrete.Variable.lengthTokens] at h
  have hjudged : (Scan.ofString "int a[x];").FirstUnviable 3 :=
    .of_viable (hviable (by decide +kernel)) hlength
  have hcut : Viable ((Scan.ofString "int a[#").beginning 3) := hviable (by decide +kernel)
  have hlast : (Scan.ofString "int a[x#").FirstUnviable 3 :=
    .of_viable (hviable (by decide +kernel)) hlength
  have hname : (Scan.ofString "int a x#").FirstUnviable 2 :=
    .of_viable (hviable (by decide +kernel)) hbare
  refine ⟨⟨hjudged, ?_⟩, ⟨hcut, ?_⟩, ⟨hlast, ?_⟩, hname, ?_⟩
  · exact (parse_refuses_earliest _).1 3 (some (.identifier "x")) _ (by decide +kernel) hjudged
      (.inl (by decide +kernel))
  · exact (parse_refuses_earliest _).2.1 _ (by decide +kernel) hcut
  · have htaken := ((parse_refuses_earliest _).2.2 3 (some (.identifier "x")) ⟨6, 7⟩ ⟨'#', ⟨7, 8⟩⟩
      (by decide +kernel) hlast (by decide +kernel) (by decide +kernel)).2
    exact htaken.mpr ⟨_, .length [] .int "a"⟩
  · obtain ⟨hrefused, htaken⟩ := (parse_refuses_earliest _).2.2 2 (some (.identifier "x"))
      ⟨6, 7⟩ ⟨'#', ⟨7, 8⟩⟩ (by decide +kernel) hname (by decide +kernel) (by decide +kernel)
    refine hrefused.resolve_left fun h => ?_
    obtain ⟨what, h⟩ := htaken.mp h
    have hend : Judged ([Token.keyword .int] ++ [Token.identifier "a"]) :=
      judged_concat rfl (by simp)
    exact hend what h

end DecafCheck
