import DecafCheck.Proofs.Grammar.Locality
import DecafCheck.Proofs.Grammar.Parsing
import DecafCheck.Proofs.Token.Spelling

namespace DecafCheck

namespace Parser

variable {α : Type} {A : Cursor → Prop} {least b b' : Nat}

section Lists

variable {item item' : Parser α}

theorem local_separated (h : Local Anywhere least b b' item item') :
    Local A least b b' (separated item) (separated item') := by
  have hlater : Local (fun c => (c.current == some (.mark .comma)) = true) 1 b b'
      (skip >>= fun _ => item) (skip >>= fun _ => item') :=
    local_bind_first (local_skip.mono fun c hc => beq_iff_eq.mp hc) fun _ => h
  unfold separated
  apply local_bind_first h.anywhere
  intro first
  apply local_bind (local_many rfl hlater)
  intro rest
  exact local_pure

theorem local_parenthesized (h : Local Anywhere 0 b b' item item') :
    Local A 1 b b' (parenthesized item) (parenthesized item') := by
  have hclose (items : List α) : Local Anywhere 0 b b' (expect .rightParen >>= fun _ => pure items)
      (expect .rightParen >>= fun _ => pure items) :=
    local_bind local_expect fun _ => local_pure
  unfold parenthesized
  apply local_bind_first local_expect
  intro _
  apply local_sees
  intro found
  cases found with
  | true => exact local_bind local_pure hclose
  | false => exact local_bind (local_separated h) hclose

end Lists

section Expression

variable {E E' : Parser Expr}

theorem local_index? (h : Local Anywhere 0 b b' E E') : Local A 0 b b' (index? E) (index? E') := by
  unfold index?
  apply local_bind local_accept
  intro found
  cases found with
  | true => exact local_bind h fun _ => local_bind local_expect fun _ => local_pure
  | false => exact local_pure

theorem local_reference (h : Local Anywhere 0 b b' E E') :
    Local A 1 (b + 1) (b' + 1) (reference E) (reference E') := by
  unfold reference
  apply local_bind_past local_identifier
  intro (name, start)
  apply local_sees
  intro found
  cases found with
  | true => exact local_bind (local_parenthesized h) fun _ => local_spanFrom fun _ => local_pure
  | false => exact local_bind (local_index? h) fun _ => local_spanFrom fun _ => local_pure

theorem local_primary (h : Local Anywhere 0 b b' E E') :
    Local A 1 (b + 1) (b' + 1) (primary E) (primary E') := by
  unfold primary
  apply local_currentSpan
  intro span
  apply local_current
  intro found
  have hskip {t : Token} (ht : found = some t) :
      Local (fun c => (A c ∧ c.span = span) ∧ c.current = found) 1 (b + 1) (b' + 1) skip skip :=
    local_skip.mono fun c hc => hc.2.trans ht
  split
  · next spelling =>
    -- The literal is judged where it stands, and then it is taken.
    by_cases hlt : Integer.value spelling < integerBound
    · simp only [integer, if_pos hlt, pure_bind]
      exact local_bind_first (hskip rfl) fun _ => local_pure
    · simp only [integer, if_neg hlt, failAt_bind]
      exact local_failAt.mono fun c hc => hc.1.2
  · exact local_bind_first (hskip rfl) fun _ => local_pure
  · exact local_bind_first (hskip rfl) fun _ => local_pure
  · exact local_reference h
  · exact local_bind_past (hskip rfl) fun _ => local_bind h fun _ => local_bind local_expect
      fun _ => local_pure
  · exact local_fail

theorem sign_eq : sign = takeAs fun found span => match found.bind UnaryOp.ofToken? with
    | some op => .ok (op, span)
    | none => .error (.noExpression found) := by
  unfold sign takeAs
  congr
  funext ⟨found, span⟩
  dsimp only
  cases found.bind UnaryOp.ofToken? <;> rfl

theorem local_sign : Local A 1 b b' sign sign := by
  rw [sign_eq]
  exact local_takeAs fun _ => ⟨_, rfl⟩

theorem local_unary (h : Local Anywhere 0 b b' E E') :
    Local A 1 (b + 1) (b' + 1) (unary E) (unary E') := by
  unfold unary
  apply local_bind (local_many rfl local_sign)
  intro signs
  exact local_bind_first (local_primary h) fun _ => local_pure

theorem rightSide_eq (stratum : List BinaryOp) (operand : Parser Expr) : rightSide stratum operand =
    takeAs (fun found _ => match found.bind (BinaryOp.ofToken? stratum) with
      | some op => .ok op
      | none => .error (.noExpression found)) >>= fun op => operand >>= fun e => pure (op, e) := by
  unfold rightSide takeAs
  rw [bind_assoc]
  congr
  funext ⟨found, span⟩
  dsimp only
  cases found.bind (BinaryOp.ofToken? stratum) with
  | none => exact failAt_bind.symm
  | some op => simp only [pure_bind]

theorem local_rightSide {operand operand' : Parser Expr}
    (h : Local Anywhere least b b' operand operand') (stratum : List BinaryOp) :
    Local A 1 b b' (rightSide stratum operand) (rightSide stratum operand') := by
  rw [rightSide_eq, rightSide_eq]
  exact local_bind_first (local_takeAs fun _ => ⟨_, rfl⟩) fun _ => local_bind h fun _ => local_pure

theorem local_binary {operand operand' : Parser Expr}
    (h : Local Anywhere least b b' operand operand') (strata : List (List BinaryOp)) :
    Local Anywhere least b b' (binary operand strata) (binary operand' strata) := by
  induction strata with
  | nil => exact h
  | cons stratum tighter ih =>
    unfold binary
    apply local_bind_first ih
    intro first
    exact local_bind (local_many rfl (local_rightSide ih stratum)) fun _ => local_pure

theorem local_nested (depth depth' : Nat) :
    Local Anywhere 1 depth depth' (nested depth) (nested depth') := by
  induction depth generalizing depth' with
  | zero => exact ⟨fun _ _ hb => absurd hb (Nat.not_lt_zero _)⟩
  | succ depth ih =>
    have hsucc (depth' : Nat) : Local Anywhere 1 (depth + 1) (depth' + 1) (nested (depth + 1))
        (nested (depth' + 1)) :=
      local_binary (local_unary ((ih depth').weaken (Nat.zero_le 1))) BinaryOp.strata
    cases depth' with
    | zero => exact (hsucc 0).unmirrored
    | succ depth' => exact hsucc depth'

/-- The depth that the number of tokens allows is always enough. -/
theorem local_expression : Local Anywhere 1 b b' expression expression := by
  constructor
  intro n c d hA hc hb hd
  have hrun (c : Cursor) : expression.run c = (nested (c.ahead.length + 1)).run c := by
    rw [expression, run_bind, run_remaining]
  rw [hrun, hrun]
  apply (local_nested _ _).alike hA hc (Nat.lt_succ_self _)
  intro hn
  obtain ⟨hclean, -, hrest⟩ := hd hn
  exact ⟨hclean, Nat.lt_succ_self _, hrest⟩

end Expression

section Statement

/-- How the token in the brackets of a declaration is judged. -/
def judgeLength (found : Option Token) (_ : Span) : Except GrammarFault Nat :=
  match found with
  | some (.integer spelling) =>
    if Integer.value spelling < integerBound then
      if Integer.value spelling < arrayBound then .ok (Integer.value spelling)
      else .error (.arrayTooLong (Integer.value spelling))
    else .error (.integerTooLarge spelling)
  | _ => .error (.expected .arrayLength found)

theorem arrayLength_eq : arrayLength = accept .leftBracket >>= fun found =>
    if found then takeAs judgeLength >>= fun length => expect .rightBracket >>= fun _ => pure length
    else pure 1 := by
  unfold arrayLength takeAs
  congr
  funext found
  cases found with
  | false => rfl
  | true =>
    rw [if_pos rfl, if_pos rfl, bind_assoc]
    congr
    funext ⟨found, span⟩
    rcases found with _ | (_ | _ | spelling | _)
    case some.integer =>
      by_cases hinteger : Integer.value spelling < integerBound
      · by_cases harray : Integer.value spelling < arrayBound
        · simp [judgeLength, integer, hinteger, harray]
        · simp [judgeLength, integer, hinteger, harray, failAt_bind]
      · simp [judgeLength, integer, hinteger, failAt_bind]
    all_goals rfl

theorem local_arrayLength : Local A 0 b b' arrayLength arrayLength := by
  rw [arrayLength_eq]
  apply local_bind local_accept
  intro found
  cases found with
  | true =>
    exact local_bind (local_takeAs fun _ => ⟨_, rfl⟩) fun _ => local_bind local_expect
      fun _ => local_pure
  | false => exact local_pure

theorem local_variableDeclaration : Local A 1 b b' variableDeclaration variableDeclaration := by
  unfold variableDeclaration
  apply local_currentSpan
  intro start
  apply local_bind_first local_dataType
  intro type
  apply local_bind local_identifier
  intro (name, _)
  apply local_bind local_arrayLength
  intro length
  apply local_bind local_expect
  intro _
  exact local_spanFrom fun _ => local_pure

theorem local_assignmentOrCall : Local A 1 b b' assignmentOrCall assignmentOrCall := by
  unfold assignmentOrCall
  apply local_bind_first local_identifier
  intro (name, start)
  apply local_sees
  intro found
  have hexpression : Local Anywhere 0 b b' expression expression :=
    local_expression.weaken (Nat.zero_le 1)
  cases found with
  | true =>
    apply local_bind (local_parenthesized hexpression)
    intro arguments
    exact local_bind local_expect fun _ => local_spanFrom fun _ => local_pure
  | false =>
    apply local_bind (local_index? hexpression)
    intro index
    apply local_spanFrom
    intro target
    apply local_bind local_expect
    intro _
    apply local_bind local_expression
    intro value
    exact local_bind local_expect fun _ => local_spanFrom fun _ => local_pure

theorem local_returned? : Local A 0 b b' returned? returned? := by
  unfold returned?
  apply local_sees
  intro found
  cases found with
  | true => exact local_pure
  | false => exact local_bind local_expression.anywhere fun _ => local_pure

theorem local_condition : Local A 1 b b' condition condition := by
  unfold condition
  apply local_bind_first local_expect
  intro _
  apply local_bind local_expression
  intro e
  exact local_bind local_expect fun _ => local_pure

variable {B B' : Parser Block}

theorem local_otherwise? (h : Local Anywhere 0 b b' B B') :
    Local A 0 b b' (otherwise? B) (otherwise? B') := by
  unfold otherwise?
  apply local_current
  intro found
  split
  · next hfound =>
    have hskip : Local (fun c => A c ∧ c.current = found) 1 b b' skip skip :=
      local_skip.mono fun c hc => hc.2.trans (beq_iff_eq.mp hfound)
    exact local_bind hskip fun _ => local_bind h fun _ => local_pure
  · exact local_pure

theorem local_statement (h : Local Anywhere 0 b b' B B') :
    Local A 1 b b' (statement B) (statement B') := by
  unfold statement
  apply local_currentSpan
  intro start
  apply local_current
  intro found
  have hskip {t : Token} (ht : found = some t) :
      Local (fun c => (A c ∧ c.span = start) ∧ c.current = found) 1 b b' skip skip :=
    local_skip.mono fun c hc => hc.2.trans ht
  split
  · exact local_assignmentOrCall
  · apply local_bind_first (hskip rfl)
    intro _
    apply local_bind local_condition
    intro test
    apply local_bind h
    intro yes
    exact local_bind (local_otherwise? h) fun _ => local_spanFrom fun _ => local_pure
  · apply local_bind_first (hskip rfl)
    intro _
    apply local_bind local_condition
    intro guard
    exact local_bind h fun _ => local_spanFrom fun _ => local_pure
  · apply local_bind_first (hskip rfl)
    intro _
    apply local_bind local_returned?
    intro value
    exact local_bind local_expect fun _ => local_spanFrom fun _ => local_pure
  · exact local_bind_first (hskip rfl) fun _ => local_bind local_expect fun _ =>
      local_spanFrom fun _ => local_pure
  · exact local_bind_first (hskip rfl) fun _ => local_bind local_expect fun _ =>
      local_spanFrom fun _ => local_pure
  · exact local_fail

theorem local_nestedBlock (depth depth' : Nat) :
    Local Anywhere 1 depth depth' (nestedBlock depth) (nestedBlock depth') := by
  induction depth generalizing depth' with
  | zero => exact ⟨fun _ _ hb => absurd hb (Nat.not_lt_zero _)⟩
  | succ depth ih =>
    have hsucc (depth' : Nat) :
        Local Anywhere 1 (depth + 1) (depth' + 1) (nestedBlock (depth + 1))
        (nestedBlock (depth' + 1)) := by
      unfold nestedBlock
      apply local_currentSpan
      intro start
      apply local_bind_past local_expect
      intro _
      apply local_bind (local_many rfl local_variableDeclaration)
      intro vars
      apply local_bind (local_many rfl (local_statement ((ih depth').weaken (Nat.zero_le 1))))
      intro statements
      exact local_bind local_expect fun _ => local_spanFrom fun _ => local_pure
    cases depth' with
    | zero => exact (hsucc 0).unmirrored
    | succ depth' => exact hsucc depth'

theorem local_block : Local Anywhere 1 b b' block block := by
  constructor
  intro n c d hA hc hb hd
  have hrun (c : Cursor) : block.run c = (nestedBlock (c.ahead.length + 1)).run c := by
    rw [block, run_bind, run_remaining]
  rw [hrun, hrun]
  apply (local_nestedBlock _ _).alike hA hc (Nat.lt_succ_self _)
  intro hn
  obtain ⟨hclean, -, hrest⟩ := hd hn
  exact ⟨hclean, Nat.lt_succ_self _, hrest⟩

end Statement

theorem local_parameter : Local A 1 b b' parameter parameter := by
  unfold parameter
  apply local_currentSpan
  intro start
  apply local_bind_first local_dataType
  intro type
  apply local_bind local_identifier
  intro (name, span)
  exact local_pure

theorem local_function : Local A 1 b b' function function := by
  unfold function
  apply local_currentSpan
  intro start
  apply local_bind_first local_expectToken
  intro _
  apply local_bind local_dataType
  intro returns
  apply local_bind local_identifier
  intro (name, _)
  apply local_bind (local_parenthesized (local_parameter.weaken (Nat.zero_le 1)))
  intro parameters
  apply local_bind local_block
  intro body
  exact local_spanFrom fun _ => local_pure

theorem local_declaration : Local A 1 b b' declaration declaration := by
  unfold declaration
  apply local_current
  intro found
  split
  · exact local_bind_first local_function fun _ => local_pure
  · split
    · exact local_bind_first local_variableDeclaration fun _ => local_pure
    · exact local_fail

theorem local_program : Local A 0 b b' program program := by
  unfold program
  apply local_currentSpan
  intro start
  apply local_bind (local_many rfl local_declaration)
  intro declarations
  exact local_spanFrom fun _ => local_pure

/-- A program reaches to the end of the text, so there is nothing invalid in it. -/
theorem clean_of_program {c c' : Cursor} {p : Program} (hc : c.Reaches 0)
    (h : program.Yields c p c') : c.Clean := by
  have hend : c'.tokens = [] := by
    simp only [program, yields_bind, yields_currentSpan, yields_spanFrom, yields_pure] at h
    obtain ⟨_, _, ⟨rfl, rfl⟩, as, b, has, _, _, ⟨rfl, rfl⟩, rfl, rfl⟩ := h
    exact Concrete.tokens_of_declarations has
  have hbeyond := (local_program (A := Anywhere)).alike trivial hc (Nat.lt_succ_self _)
    (Cursor.mirrors_zero (b := 0) (d := c))
  have hbeyond : Beyond 0 0 c (.ok (p, c')) := h ▸ hbeyond.beyond_zero
  generalize hr : Except.ok (p, c') = r at hbeyond
  cases hbeyond with
  | @ok a k _ _ hk =>
    obtain ⟨-, rfl⟩ := Prod.mk.inj (Except.ok.inj hr)
    apply hk.2
    have hlength := congrArg List.length hend
    rw [Cursor.tokens_forward, List.length_drop, Cursor.tokens, List.length_map,
      List.length_nil] at hlength
    have hle := hk.1
    omega
  | grammar => cases hr
  | lexical => cases hr

end Parser

theorem Cursor.split_eq_none {results : List (Except LexicalError Lexeme)} {ls : List Lexeme}
    (h : split results = (ls, none)) : results = ls.map .ok := by
  induction results generalizing ls with
  | nil =>
    obtain rfl : [] = ls := congrArg Prod.fst h
    rfl
  | cons r results ih =>
    cases r with
    | error e => cases h
    | ok l =>
      obtain ⟨hls, hnone⟩ := Prod.mk.inj h
      rw [ih (Prod.ext rfl hnone), ← hls]
      rfl

/-- Where reading a text starts. -/
theorem Cursor.ofScan_eq_ok {s : Scan} {c : Cursor} (h : ofScan s = .ok c) :
    c = ⟨(split s.lexemes).1, (split s.lexemes).2, s.length, ⟨0, 0⟩⟩ ∧ c.Reaches 0 := by
  unfold ofScan at h
  generalize split s.lexemes = parts at h ⊢
  obtain ⟨_ | ⟨l, ls⟩, _ | e⟩ := parts <;> cases h
  · exact ⟨rfl, Nat.zero_le _, fun _ => rfl⟩
  · exact ⟨rfl, Nat.zero_le _, fun h => nomatch h⟩
  · exact ⟨rfl, Nat.zero_le _, fun h => nomatch h⟩

/-- A text that is parsed has no invalid characters. -/
theorem Program.exists_tokens_of_parse {source : String} {p : Program} (h : parse source = .ok p) :
    ∃ ls, (Scan.ofString source).tokens = .ok ls := by
  cases hstart : Cursor.ofScan (Scan.ofString source) with
  | error e =>
    rw [parse, ofScan, hstart] at h
    cases h
  | ok start =>
    obtain ⟨c, hc⟩ := (ofScan_eq_ok_iff hstart).mp h
    obtain ⟨rfl, hreaches⟩ := Cursor.ofScan_eq_ok hstart
    have hclean := Parser.clean_of_program hreaches hc
    exact ⟨_, Scan.tokens_of_lexemes (Cursor.split_eq_none (Prod.ext rfl hclean))⟩

end DecafCheck
