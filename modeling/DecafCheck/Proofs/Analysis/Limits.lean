import DecafCheck.Proofs.Analysis.Progress
import DecafCheck.Proofs.Grammar.Earliest
import DecafCheck.Proofs.Grammar.Growth.Calls
import DecafCheck.Proofs.Token.Numeral

namespace DecafCheck

namespace Cursor

theorem current_forward (c : Cursor) (k : Nat) :
    (c.forward k).current = (c.ahead.map Lexeme.token)[k]? := by
  rw [current, ahead_forward, List.head?_drop, List.getElem?_map]

end Cursor

namespace Parser

variable {α : Type} {c : Cursor}

theorem run_takeAs_clean {judge : Option Token → Span → Except GrammarFault α} {t : Token}
    (hc : c.Clean) (ht : c.current = some t) :
    (takeAs judge).run c = match judge (some t) c.span with
      | .ok a => .ok (a, c.forward 1)
      | .error fault => .error (.grammar ⟨fault, c.span⟩) := by
  have hrun := run_takeAs judge c
  rw [(Cursor.advance_eq_ok_iff ht).mpr ⟨hc.passes, rfl⟩, ht] at hrun
  exact hrun

theorem run_skip_clean {t : Token} (hc : c.Clean) (ht : c.current = some t) :
    skip.run c = .ok ((), c.forward 1) := by
  rw [run_skip ht, run_takeAs_clean hc ht]
  rfl

/-- What is left of a declaration behind its length. -/
def afterLength (name : String) (type : DataType) (start : Span) (length : Nat) :
    Parser Variable := do
  expect .rightBracket
  expect .semicolon
  return ⟨name, type, length, ← spanFrom start⟩

theorem eq_of_afterLength {name : String} {type : DataType} {start : Span} {length : Nat}
    {v : Variable} {d : Cursor} (h : (afterLength name type start length).run c = .ok (v, d)) :
    v.name = name ∧ v.type = type ∧ v.length = length := by
  obtain ⟨_, _, -, h⟩ := yields_bind.mp h
  obtain ⟨_, _, -, h⟩ := yields_bind.mp h
  obtain ⟨_, _, -, h⟩ := yields_bind.mp h
  obtain ⟨rfl, -⟩ := yields_pure.mp h
  exact ⟨rfl, rfl, rfl⟩

section Judge

variable {s : String} {span : Span}

theorem judgeLength_of_lt (h : Integer.value s < arrayBound) :
    judgeLength (some (.integer s)) span = .ok (Integer.value s) := by
  have hbound : arrayBound ≤ integerBound := by decide
  rw [judgeLength, if_pos (Nat.lt_of_lt_of_le h hbound), if_pos h]

theorem judgeLength_tooLong (hle : arrayBound ≤ Integer.value s)
    (hlt : Integer.value s < integerBound) :
    judgeLength (some (.integer s)) span = .error (.arrayTooLong (Integer.value s)) := by
  rw [judgeLength, if_pos hlt, if_neg (Nat.not_lt.mpr hle)]

theorem judgeLength_invalid (hle : integerBound ≤ Integer.value s) :
    judgeLength (some (.integer s)) span = .error (.integerTooLarge s) := by
  rw [judgeLength, if_neg (Nat.not_lt.mpr hle)]

end Judge

theorem run_variableDeclaration {type : DataType} {name : String} {t : Token} (hc : c.Clean)
    (htype : c.current = some type.token) (hname : (c.forward 1).current = some (.identifier name))
    (hbracket : (c.forward 2).current = some (.mark .leftBracket))
    (ht : (c.forward 3).current = some t) :
    variableDeclaration.run c = match judgeLength (some t) (c.forward 3).span with
      | .ok length => (afterLength name type c.span length).run (c.forward 4)
      | .error fault => .error (.grammar ⟨fault, (c.forward 3).span⟩) := by
  have hstart : currentSpan.run c = .ok (c.span, c) := rfl
  have htype' : dataType.run c = .ok (type, c.forward 1) :=
    yields_dataType.mpr ⟨htype, hc.passes, rfl⟩
  have hname' : identifier.run (c.forward 1) = .ok ((name, (c.forward 1).span), c.forward 2) :=
    yields_identifier.mpr ⟨hname, rfl, hc.forward.passes, (c.forward_add 1 1).symm⟩
  have hbracket' : (accept .leftBracket).run (c.forward 2) = .ok (true, c.forward 3) :=
    yields_accept.mpr (.inl ⟨hbracket, rfl, hc.forward.passes, (c.forward_add 2 1).symm⟩)
  rw [variableDeclaration, run_bind, hstart]
  dsimp only
  rw [run_bind, htype']
  dsimp only
  rw [run_bind, hname']
  dsimp only
  rw [arrayLength_eq, bind_assoc, run_bind, hbracket']
  dsimp only
  rw [if_pos rfl, bind_assoc, run_bind, run_takeAs_clean hc.forward ht]
  cases judgeLength (some t) (c.forward 3).span with
  | error fault => rfl
  | ok length =>
    rw [← c.forward_add 3 1]
    simp only [afterLength, bind_assoc, pure_bind]

end Parser

/-- The nodes of a forest are in another one as they are. -/
theorem Forest.node?_of_isPrefix {f g : Forest} (h : f.nodes.toList <+: g.nodes.toList)
    {id : NodeId} (hid : id < f.size) : g.node? id = f.node? id := by
  obtain ⟨more, hmore⟩ := h
  rw [node?, node?, ← Array.getElem?_toList, ← Array.getElem?_toList, ← hmore]
  exact List.getElem?_append_left hid

theorem Forest.kindOf?_add (f : Forest) (kind : Kind) (span : Span) :
    (f.add kind span).1.kindOf? f.size = some kind := by
  simp [add, kindOf?, node?, size]

theorem Forest.spanOf_add (f : Forest) (kind : Kind) (span : Span) :
    (f.add kind span).1.spanOf f.size = span := by
  simp [add, spanOf, node?, size]

theorem Forest.lt_size_add (f : Forest) (kind : Kind) (span : Span) :
    f.size < (f.add kind span).1.size := by
  simp [add, size]

namespace Growing

section Meets

variable {α : Type} {q : Nat → Growing α} {source : String} {start : Cursor} {k : Nat}
  {f g : Forest}

/-- However deep calls may nest from some depth on, parsing the text comes to call `q` at the token
numbered `k`, and by then the forest is `f`. -/
def Meets (source : String) (q : Nat → Growing α) (k : Nat) (f : Forest) : Prop :=
  ∃ start, Cursor.ofScan (Scan.ofString source) = .ok start ∧
    ∃ least, ∀ n, least ≤ n → ∃ depth, Calls (q depth) (start.forward k) f (program some n) start {}

/-- The end of a call, as the whole text shows it. -/
theorem Meets.ends (h : Meets source q k f)
    (hstart : Cursor.ofScan (Scan.ofString source) = .ok start) {r : Except ParseError (α × Cursor)}
    (hq : ∀ depth, q depth (start.forward k) f = none ∨ q depth (start.forward k) f = some (r, g)) :
    (∀ e, r = .error e → Forest.parse source = .error (.ofParseError e)) ∧
      ∀ whole, Forest.parse source = .ok whole → ∀ id < g.size,
        whole.kindOf? id = g.kindOf? id ∧ whole.spanOf id = g.spanOf id := by
  obtain ⟨_, hstart', least, hcalls⟩ := h
  cases hstart.symm.trans hstart'
  obtain ⟨s, g', ⟨m, hparse⟩, houtcome, -⟩ := parse_eq source fun _ _ => rfl
  have hrun := hparse (max m least) (Nat.le_max_left _ _)
  rw [parse, hstart] at hrun
  obtain ⟨⟨r', g''⟩, hrun, hr'⟩ := Option.map_eq_some_iff.mp hrun
  cases hr'
  obtain ⟨depth, hcalls⟩ := hcalls (max m least) (Nat.le_max_right _ _)
  have hsome : q depth (start.forward k) f = some (r, g) := by
    rcases hq depth with hnone | hsome
    · cases (hcalls.eq_none hnone).symm.trans hrun
    · exact hsome
  constructor
  · rintro e rfl
    cases (hcalls.eq_error hsome).symm.trans hrun
    exact houtcome
  · intro whole hwhole id hid
    obtain rfl := eq_linked_of_outcome (houtcome.symm.trans hwhole)
    have hnode := Forest.node?_of_isPrefix (hcalls.isPrefix hsome hrun) hid
    have halike := g'.alike_linked
    rw [halike.kind, halike.span, Forest.kindOf?, Forest.spanOf, hnode]
    exact ⟨rfl, rfl⟩

end Meets

section Literal

variable {c : Cursor} {s : String}

theorem primary_of_lt (hc : c.Clean) (ht : c.current = some (.integer s))
    (hlt : Integer.value s < integerBound) (depth : Nat) (f : Forest) :
    primary some (depth + 1) c f =
      some (.ok (f.size, c.forward 1), (f.add (.literal (.int (Integer.value s))) c.span).1) := by
  have hspan : Parser.currentSpan.run c = .ok (c.span, c) := rfl
  have hfound : Parser.current.run c = .ok (some (.integer s), c) := by rw [← ht]; rfl
  have hvalue : (Parser.integer s c.span).run c = .ok (Integer.value s, c) := by
    rw [Parser.integer, if_pos hlt]
    rfl
  simp only [Growing.primary, bind_apply, reading, hspan, hfound, hvalue,
    Parser.run_skip_clean hc ht]
  rfl

theorem primary_of_le (ht : c.current = some (.integer s)) (hle : integerBound ≤ Integer.value s)
    (depth : Nat) (f : Forest) : primary some (depth + 1) c f =
      some (.error (.grammar ⟨.integerTooLarge s, c.span⟩), f) := by
  have hspan : Parser.currentSpan.run c = .ok (c.span, c) := rfl
  have hfound : Parser.current.run c = .ok (some (.integer s), c) := by rw [← ht]; rfl
  have hvalue : (Parser.integer s c.span).run c =
      .error (.grammar ⟨.integerTooLarge s, c.span⟩) := by
    rw [Parser.integer, if_neg (Nat.not_lt.mpr hle)]
    rfl
  simp only [Growing.primary, bind_apply, reading, hspan, hfound, hvalue]

theorem variableDeclaration_apply (c : Cursor) (f : Forest) : variableDeclaration some c f =
    match Parser.variableDeclaration.run c with
      | .ok (v, d) => some (.ok (f.size, d), (f.add (.variable v.name v.type v.length) v.span).1)
      | .error e => some (.error e, f) := by
  rw [variableDeclaration, bind_apply, reading]
  cases Parser.variableDeclaration.run c <;> rfl

end Literal

section Limits

variable {source : String} {start : Cursor} {k n : Nat} {s : String} {span : Span} {f : Forest}

/-- What becomes of an expression at the token numbered `k`, which spells `n`. Below 2^63 it is a
literal: its node is the next of the forest, and is in the forest of the whole text. All other
numbers are refused. -/
structure LiteralAt (source : String) (start : Cursor) (k n : Nat) (s : String) (span : Span)
    (f : Forest) : Prop where
  literal : n < 9223372036854775808 →
    (∀ depth, primary some (depth + 1) (start.forward k) f =
      some (.ok (f.size, start.forward (k + 1)), (f.add (.literal (.int n)) span).1)) ∧
    ∀ whole, Forest.parse source = .ok whole →
      whole.kindOf? f.size = some (.literal (.int n)) ∧ whole.spanOf f.size = span
  invalid : 9223372036854775808 ≤ n →
    (Forest.parse source).mapError Stop.failure =
    .error (.grammar ("invalid integer literal: " ++ s) span)

/-- What becomes of a declaration at the token numbered `k` whose length is `n`. Below 2^32 it has
that many elements, and so has the variable in the forest of the whole text. All other numbers are
refused. -/
structure LengthAt (source : String) (start : Cursor) (k n : Nat) (s : String) (span : Span)
    (name : String) (type : DataType) (f : Forest) : Prop where
  length : n < 4294967296 →
    Parser.variableDeclaration.run (start.forward k) =
      (Parser.afterLength name type (start.forward k).span n).run (start.forward (k + 4)) ∧
    ∀ whole, Forest.parse source = .ok whole → whole.kindOf? f.size = some (.variable name type n)
  tooLong : 4294967296 ≤ n → n < 9223372036854775808 →
    (Forest.parse source).mapError Stop.failure =
      .error (.grammar ("array length " ++ toString n ++ " is too large") span)
  invalid : 9223372036854775808 ≤ n →
    (Forest.parse source).mapError Stop.failure =
    .error (.grammar ("invalid integer literal: " ++ s) span)

theorem Meets.literalAt (h : Meets source (primary some) k f)
    (hstart : Cursor.ofScan (Scan.ofString source) = .ok start) (hclean : start.Clean)
    (ht : (start.forward k).current = some (.integer s)) (hspan : (start.forward k).span = span)
    (hvalue : Integer.value s = n) : LiteralAt source start k n s span f := by
  subst hspan hvalue
  constructor
  case literal =>
    intro hlt
    have hrun := primary_of_lt hclean.forward ht hlt (f := f)
    rw [← start.forward_add] at hrun
    have hends := h.ends hstart fun depth => by
      cases depth with
      | zero => exact .inl rfl
      | succ depth => exact .inr (hrun depth)
    refine ⟨hrun, fun whole hwhole => ?_⟩
    have hnode := hends.2 whole hwhole f.size (f.lt_size_add _ _)
    rwa [Forest.kindOf?_add, Forest.spanOf_add] at hnode
  case invalid =>
    intro hle
    have hrun := primary_of_le ht hle (f := f)
    have hends := h.ends hstart fun depth => by
      cases depth with
      | zero => exact .inl rfl
      | succ depth => exact .inr (hrun depth)
    rw [hends.1 _ rfl]
    rfl

theorem Meets.lengthAt {name : String} {type : DataType}
    (h : Meets source (fun _ => variableDeclaration some) k f)
    (hstart : Cursor.ofScan (Scan.ofString source) = .ok start) (hclean : start.Clean)
    (htype : (start.forward k).current = some type.token)
    (hname : (start.forward (k + 1)).current = some (.identifier name))
    (hbracket : (start.forward (k + 2)).current = some (.mark .leftBracket))
    (ht : (start.forward (k + 3)).current = some (.integer s))
    (hspan : (start.forward (k + 3)).span = span) (hvalue : Integer.value s = n) :
    LengthAt source start k n s span name type f := by
  subst hspan hvalue
  have hrun := Parser.run_variableDeclaration hclean.forward htype (by rwa [← start.forward_add])
    (by rwa [← start.forward_add]) (by rwa [← start.forward_add])
  rw [← start.forward_add, ← start.forward_add] at hrun
  have hrefused {fault : GrammarFault}
      (hfault : Parser.judgeLength (some (.integer s)) (start.forward (k + 3)).span =
        .error fault) :
      (Forest.parse source).mapError Stop.failure =
      .error (.grammar fault.message (start.forward (k + 3)).span) := by
    rw [hfault] at hrun
    have hends := h.ends hstart fun _ => .inr (by rw [variableDeclaration_apply, hrun])
    rw [hends.1 _ rfl]
    rfl
  constructor
  case length =>
    intro hlt
    rw [Parser.judgeLength_of_lt hlt] at hrun
    refine ⟨hrun, fun whole hwhole => ?_⟩
    cases hend : Parser.variableDeclaration.run (start.forward k) with
    | error e =>
      have hends := h.ends hstart fun _ => .inr (by rw [variableDeclaration_apply, hend])
      cases (hends.1 e rfl).symm.trans hwhole
    | ok r =>
      obtain ⟨v, d⟩ := r
      obtain ⟨rfl, rfl, hlength⟩ := Parser.eq_of_afterLength (hrun.symm.trans hend)
      have hends := h.ends hstart fun _ => .inr (by rw [variableDeclaration_apply, hend])
      have hnode := hends.2 whole hwhole f.size (f.lt_size_add _ _)
      rw [hnode.1, Forest.kindOf?_add, hlength]
  case tooLong => exact fun hle hlt => hrefused (Parser.judgeLength_tooLong hle hlt)
  case invalid => exact fun hle => hrefused (Parser.judgeLength_invalid hle)

/-- The spellings of a number, in decimal or in hexadecimal with digits of either case, with zeros
in front or without, are one token each where no letter, digit or underscore follows. In a text
without invalid characters the number decides what becomes of the token: as an expression it is a
literal below 2^63, as the length of an array it is that length below 2^32, and everything else is
refused at the token. -/
theorem integer_limits {n : Nat} {cs : List Char} (h : Integer.Spells n cs) :
    (∀ (rest : List Char) (offset : Nat), (∀ c ∈ rest.head?, Lexer.isWordChar c = false) →
      Scanner.next ⟨cs ++ rest, offset⟩ =
        (.ok (some (.integer (String.ofList cs)), ⟨offset, offset + bytes cs⟩),
          ⟨rest, offset + bytes cs⟩)) ∧
    ∀ (source : String) (ls : List Lexeme) (start : Cursor),
      (Scan.ofString source).tokens = .ok ls → Cursor.ofScan (Scan.ofString source) = .ok start →
      ∀ (k : Nat) (span : Span) (f : Forest),
      (ls[k]? = some ⟨.integer (String.ofList cs), span⟩ → Meets source (primary some) k f →
        LiteralAt source start k n (String.ofList cs) span f) ∧
      ∀ (type : DataType) (name : String), (ls.map Lexeme.token)[k]? = some type.token →
        (ls.map Lexeme.token)[k + 1]? = some (.identifier name) →
        (ls.map Lexeme.token)[k + 2]? = some (.mark .leftBracket) →
        ls[k + 3]? = some ⟨.integer (String.ofList cs), span⟩ →
        Meets source (fun _ => variableDeclaration some) k f →
        LengthAt source start k n (String.ofList cs) span name type f := by
  refine ⟨fun rest offset hrest => Scanner.next_spelling h hrest offset, ?_⟩
  intro source ls start hls hstart k span f
  cases hstart.symm.trans (Cursor.ofScan_eq hls)
  have ht {k : Nat} (hl : ls[k]? = some ⟨.integer (String.ofList cs), span⟩) :
      (Cursor.forward ⟨ls, none, (Scan.ofString source).length, ⟨0, 0⟩⟩ k).current =
        some (.integer (String.ofList cs)) := by
    rw [Cursor.current_forward, List.getElem?_map, hl]
    rfl
  have hspan {k : Nat} (hl : ls[k]? = some ⟨.integer (String.ofList cs), span⟩) :
      (Cursor.forward ⟨ls, none, (Scan.ofString source).length, ⟨0, 0⟩⟩ k).span = span := by
    rw [Cursor.span_forward, hl]
    rfl
  constructor
  · intro hl hmeets
    exact hmeets.literalAt hstart rfl (ht hl) (hspan hl) h.value
  · intro type name htype hname hbracket hl hmeets
    exact hmeets.lengthAt hstart rfl ((Cursor.current_forward _ _).trans htype)
      ((Cursor.current_forward _ _).trans hname) ((Cursor.current_forward _ _).trans hbracket)
      (ht hl) (hspan hl) h.value

/-- The longest array, and the least number that no literal stands for. -/
theorem integer_limits_reached :
    (∃ whole, Integer.Spells 4294967295 "0x0fFFFFffF".toList ∧
      Meets "int a[0x0fFFFFffF];" (fun _ => variableDeclaration some) 0 {} ∧
      Forest.parse "int a[0x0fFFFFffF];" = .ok whole ∧
      whole.kindOf? 0 = some (.variable "a" .int 4294967295)) ∧
    Integer.Spells 9223372036854775808 "09223372036854775808".toList ∧
    Meets "def int f() \x7b return 09223372036854775808; \x7d" (primary some) 7 {} ∧
    (Forest.parse "def int f() \x7b return 09223372036854775808; \x7d").mapError Stop.failure =
      .error (.grammar "invalid integer literal: 09223372036854775808" ⟨21, 41⟩) := by
  constructor
  · have hls : (Scan.ofString "int a[0x0fFFFFffF];").tokens =
        .ok [⟨.keyword .int, 0, 3⟩, ⟨.identifier "a", 4, 5⟩,
        ⟨.mark .leftBracket, 5, 6⟩, ⟨.integer "0x0fFFFFffF", 6, 17⟩, ⟨.mark .rightBracket, 17, 18⟩,
        ⟨.mark .semicolon, 18, 19⟩] := by decide +kernel
    have hspells : Integer.Spells 4294967295 "0x0fFFFFffF".toList := by decide +kernel
    have hmeets : Meets "int a[0x0fFFFFffF];" (fun _ => variableDeclaration some) 0 {} := by
      refine ⟨_, Cursor.ofScan_eq hls, 1, fun n hn => ⟨0, ?_⟩⟩
      obtain ⟨m, rfl⟩ : ∃ m, n = m + 1 := ⟨n - 1, by omega⟩
      refine .behind rfl (.inside (fun _ => ?_) (.behind rfl (.inside (fun _ => ?_) .here)))
      · exact (keeps_reading _).bind fun _ => (keeps_add ..).bind fun _ => keeps_setRoot _
      · exact (keeps_declarations m).bind fun _ => keeps_pure _
    have hlength := ((integer_limits hspells).2 _ _ _ hls (Cursor.ofScan_eq hls) 0 ⟨6, 17⟩ {}).2
      .int "a" rfl rfl rfl (by decide +kernel) hmeets
    obtain ⟨whole, hwhole, hkind⟩ := exists_ok_of_isSome (x := Forest.parse "int a[0x0fFFFFffF];")
      (by decide +kernel) (hlength.length (by decide)).2
    exact ⟨whole, hspells, hmeets, hwhole, hkind⟩
  · have hls : (Scan.ofString "def int f() \x7b return 09223372036854775808; \x7d").tokens = .ok
        [⟨.keyword .def_, 0, 3⟩, ⟨.keyword .int, 4, 7⟩, ⟨.identifier "f", 8, 9⟩,
          ⟨.mark .leftParen, 9, 10⟩, ⟨.mark .rightParen, 10, 11⟩, ⟨.mark .leftBrace, 12, 13⟩,
          ⟨.keyword .return_, 14, 20⟩,
          ⟨.integer "09223372036854775808", 21, 41⟩, ⟨.mark .semicolon, 41, 42⟩,
          ⟨.mark .rightBrace, 43, 44⟩] := by
      decide +kernel
    have hspells : Integer.Spells 9223372036854775808 "09223372036854775808".toList := by
      decide +kernel
    have hmeets : Meets "def int f() \x7b return 09223372036854775808; \x7d"
        (primary some) 7 {} := by
      refine ⟨_, Cursor.ofScan_eq hls, 13, fun n hn => ?_⟩
      obtain ⟨m, rfl⟩ : ∃ m, n = m + 13 := ⟨n - 13, by omega⟩
      refine ⟨m + 1, ?_⟩
      -- From the program to the function's block, to the statement in it, and to the value that it
      -- returns.
      refine .behind rfl (.inside (fun _ => ?_)
        (.behind rfl (.inside (fun _ => ?_) (.behind rfl (.behind rfl
        (.behind rfl (.behind rfl (.behind rfl (.inside (fun _ => ?_) ?_)))))))))
      · exact (keeps_reading _).bind fun _ => (keeps_add ..).bind fun _ => keeps_setRoot _
      · exact (keeps_declarations _).bind fun _ => keeps_pure _
      · exact (keeps_reading _).bind fun _ => keeps_add ..
      refine .behind rfl (.behind rfl
        (.behind rfl (.inside (fun _ => ?_) (.behind rfl (.inside (fun _ => ?_) ?_)))))
      · exact (keeps_reading _).bind fun _ => (keeps_reading _).bind fun _ => keeps_add ..
      · exact (blocksKeeping some _).statements.bind fun _ => keeps_pure _
      refine .behind rfl (.behind rfl
        (.behind rfl (.inside (fun _ => ?_) (.behind rfl (.inside (fun _ => ?_) ?_)))))
      · exact (keeps_reading _).bind fun _ => (keeps_reading _).bind fun _ => keeps_add ..
      · exact keeps_pure _
      exact calls_primary rfl BinaryOp.strata (m + 1) _
    have hliteral := ((integer_limits hspells).2 _ _ _ hls (Cursor.ofScan_eq hls) 7 ⟨21, 41⟩ {}).1
      (by decide +kernel) hmeets
    exact ⟨hspells, hmeets, hliteral.invalid (by decide)⟩

end Limits

end Growing

end DecafCheck
