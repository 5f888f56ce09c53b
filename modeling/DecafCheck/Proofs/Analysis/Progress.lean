import DecafCheck.Proofs.Analysis.Dump
import DecafCheck.Proofs.Grammar.Growth.Statement
import DecafCheck.Proofs.Token.Lines

namespace DecafCheck

theorem Lexer.length_lexemes_le (start inside : Nat) (cs : List Char) :
    (lexemes start inside cs).length ≤ bytes cs := by
  induction cs generalizing start inside with
  | nil => exact Nat.le_refl 0
  | cons c cs ih =>
    have hpos := c.utf8Size_pos
    have hbytes : bytes (c :: cs) = c.utf8Size + bytes cs := rfl
    cases inside with
    | succ n =>
      have hrest := ih (start + c.utf8Size) n
      rw [lexemes]
      omega
    | zero =>
      have hrest := ih (start + c.utf8Size) (piece c cs).2
      rw [lexemes]
      dsimp only
      split
      · rw [List.length_cons]
        omega
      · omega
      · rw [List.length_cons]
        omega

theorem Cursor.length_split_le (results : List (Except LexicalError Lexeme)) :
    (split results).1.length ≤ results.length := by
  induction results with
  | nil => exact Nat.le_refl 0
  | cons r results ih =>
    cases r with
    | error e => exact Nat.zero_le _
    | ok l => exact Nat.succ_le_succ ih

theorem Forest.alike_linked (f : Forest) : f.linked.Alike f := by
  rw [linked]
  dsimp only
  split
  · exact (alike_setParent _ _ _).trans (alike_setParents f _)
  · exact alike_setParents f _

namespace Growing

variable {number : Numbering}

/-- The productions that give a node: how each is read, how what it has read is planted, and how it
is grown at once. -/
inductive Production (number : Numbering) :
    {α : Type} → Parser α → (Forest → α → Forest × NodeId) → (Nat → Growing NodeId) → Prop
  | variableDeclaration : Production number .variableDeclaration Variable.plant fun _ =>
    variableDeclaration number
  | function : Production number .function Function.plant (function number)
  | block : Production number .block Block.plant (block number)
  | statement : Production number (.statement .block) Stmt.plant (statement number)
  | level (strata : List (List BinaryOp)) :
      Production number (.binary (.unary .expression) strata) Expr.plant (level number strata)
  | unary : Production number (.unary .expression) Expr.plant (unary number)
  | primary : Production number (.primary .expression) Expr.plant (primary number)

variable {α : Type} {p : Parser α} {plant : Forest → α → Forest × NodeId} {q : Nat → Growing NodeId}
  {source : String} {c : Cursor}

theorem Production.raises (h : Production number p plant q) (limit b : Nat)
    (hnumber : ∀ n < limit, number n = some n) :
    Raises limit Parser.Anywhere 1 (b + 1) p plant q := by
  cases h with
  | variableDeclaration => exact raises_variableDeclaration hnumber
  | function => exact raises_function hnumber
  | block => exact raises_block hnumber
  | statement => exact raises_statement hnumber (raises_block hnumber)
  | level strata =>
    exact raises_level hnumber (raises_unary hnumber (raises_expression hnumber)) strata
  | unary => exact raises_unary hnumber (raises_expression hnumber)
  | primary => exact raises_primary hnumber (raises_expression hnumber)

/-- The cursor is at a place in the text that parsing can come to. -/
def Place (source : String) (c : Cursor) : Prop :=
  ∃ start k, Cursor.ofScan (Scan.ofString source) = .ok start ∧ start.Reaches k ∧
    c = start.forward k

theorem Place.reaches (h : Place source c) : c.Reaches 0 := by
  obtain ⟨start, k, -, hk, rfl⟩ := h
  exact (Cursor.reaches_forward hk).mpr hk

theorem Place.forward (h : Place source c) {k : Nat} (hk : c.Reaches k) :
    Place source (c.forward k) := by
  obtain ⟨start, j, hstart, hj, rfl⟩ := h
  exact ⟨start, j + k, hstart, (Cursor.reaches_forward hj).mp hk, (start.forward_add j k).symm⟩

/-- A run of a production ends. If it fails, so does reading it. If it succeeds, at least one token
has been taken, and there are no more new nodes than tokens taken. -/
def Progresses (source : String) (p : Parser α) (plant : Forest → α → Forest × NodeId)
    (q : Nat → Growing NodeId) (c : Cursor) (f : Forest) : Prop :=
  (∃ e g, p.run c = .error e ∧ Settles (fun depth => q depth c f) (.error e, g)) ∨
    ∃ a k, 1 ≤ k ∧ k ≤ c.ahead.length ∧ p.run c = .ok (a, c.forward k) ∧
    Place source (c.forward k) ∧
      Settles (fun depth => q depth c f) (.ok ((plant f a).2, c.forward k), (plant f a).1) ∧
      (plant f a).1.size ≤ f.size + k

theorem Production.progresses (h : Production some p plant q) (hc : Place source c) (f : Forest) :
    Progresses source p plant q c f := by
  have hraises := h.raises (f.size + c.ahead.length) c.ahead.length fun _ _ => rfl
  obtain ⟨r, hr, hfollows⟩ := hraises.grows trivial
    ⟨hc.reaches, Nat.lt_succ_self _, Nat.le_refl (f.size + c.ahead.length + 0)⟩
  unfold Progresses
  generalize p.run c = s at hfollows ⊢
  cases hfollows with
  | error => exact .inl ⟨_, _, rfl, hr⟩
  | @ok a d id g ha =>
    obtain ⟨k, hk, hreach, rfl⟩ := ha.leads
    have hroom := ha.ready.room
    have hle := hreach.1
    rw [Cursor.ahead_forward, List.length_drop] at hroom
    refine .inr ⟨a, k, hk, hle, rfl, hc.forward hreach, ?_, ?_⟩
    · rw [ha.planted]
      exact hr
    · rw [ha.planted]
      dsimp only
      omega

/-- What comes of a text that has been parsed into a forest. -/
def outcome (r : Except ParseError Unit) (g : Forest) : Except Stop Forest := do
  r.mapError Stop.ofParseError
  g.link.mapError Stop.fault

theorem eq_linked_of_outcome {r : Except ParseError Unit} {g f : Forest} (h : outcome r g = .ok f) :
    f = g.linked := by
  cases r with
  | error e => cases h
  | ok _ =>
    cases hlink : g.link with
    | error e =>
      rw [outcome, hlink] at h
      cases h
    | ok f' =>
      rw [outcome, hlink] at h
      cases h
      unfold Forest.link at hlink
      split at hlink
      · cases hlink
      · cases hlink
        rfl

theorem parse_eq (source : String)
    (hnumber : ∀ n ≤ (Scan.ofString source).lexemes.length, number n = some n) :
    ∃ r g, Settles (parse number source) (r, g) ∧ Forest.parse source = outcome r g ∧
      g.size ≤ (Scan.ofString source).lexemes.length + 1 := by
  unfold parse Forest.parse Program.parse Program.ofScan
  cases hstart : Cursor.ofScan (Scan.ofString source) with
  | error e => exact ⟨_, _, settles_const _, rfl, Nat.zero_le _⟩
  | ok start =>
    obtain ⟨hstart', hreach⟩ := Cursor.ofScan_eq_ok hstart
    have hlength : start.ahead.length ≤ (Scan.ofString source).lexemes.length := by
      rw [hstart']
      exact Cursor.length_split_le _
    have hready : Ready ((Scan.ofString source).lexemes.length + 1)
        (start.ahead.length + 1) 1 start {} :=
      ⟨hreach, Nat.lt_succ_self _, by rw [Forest.size, Array.size_empty]; omega⟩
    obtain ⟨r, hr, hfollows⟩ := grows_program (fun n hn => hnumber n (Nat.lt_succ_iff.mp hn)) hready
    simp only [bind, Except.bind, StateT.run'_eq]
    generalize Parser.program.run start = s at hfollows ⊢
    cases hfollows with
    | error hsize => exact ⟨_, _, hr.map _, rfl, hsize⟩
    | ok h =>
      obtain ⟨rfl, hsize⟩ := h
      exact ⟨_, _, hr.map _, rfl, hsize⟩

theorem Numbering.word_of_lt {n : Nat} (h : n < 4294967296) : word n = some n := by
  have hsame : (UInt32.ofNat n).toNat = n := UInt32.toNat_ofNat'.trans (Nat.mod_eq_of_lt h)
  rw [word, if_pos hsame]

theorem length_answers (source : String) :
    (Scanner.ofString source).answers.length = (Scan.ofString source).lexemes.length + 1 := by
  rw [Scanner.answers_ofString, List.length_append, List.length_map]
  rfl

theorem size_tables_le {source : String} {policy : Policy} {a : Analysis}
    (h : check policy source = .ok a) :
    ∃ f, Forest.parse source = .ok f ∧ a.forest.tables.size ≤ f.size := by
  cases hf : Forest.parse source with
  | error e =>
    rw [check, hf] at h
    cases h
  | ok f =>
    obtain ⟨p, hp, rfl⟩ := Forest.parse_eq_ok_iff.mp hf
    obtain ⟨types, -, hcheck⟩ := check_of_parse_ok hp policy
    cases hcheck.symm.trans h
    refine ⟨_, rfl, ?_⟩
    have hperm := (Forest.scopeIds_tables p policy).length_eq
    rw [List.length_range] at hperm
    calc (p.annotated policy).tables.size = _ := hperm.symm
      _ ≤ p.grown.scopeIds.length := List.length_filterMap_le _ _
      _ ≤ (List.range p.grown.size).length := List.length_filter_le _ _
      _ = p.grown.size := List.length_range

/-- Wherever in the text a production is called it ends, and if it succeeds it has gone past at
least one token and has added no more nodes than it has gone past tokens. So parsing ends on every
text with what reading and planting it gives, and the forest has no more nodes than there are
answers up to the end of the file, of which there are no more than bytes and one. In a text of less
than 2^32 bytes every node and every table has a number that 32 bits can hold. -/
theorem parse_progress (source : String) :
    (∀ {α : Type} {p : Parser α} {plant : Forest → α → Forest × NodeId} {q : Nat → Growing NodeId},
      Production some p plant q → ∀ (c : Cursor) (f : Forest), Place source c →
        Progresses source p plant q c f) ∧
    (∃ r g, Settles (parse some source) (r, g) ∧ Forest.parse source = outcome r g ∧
      g.size ≤ (Scanner.ofString source).answers.length ∧
      (Scanner.ofString source).answers.length ≤ source.utf8ByteSize + 1) ∧
    (source.utf8ByteSize < 4294967296 →
      (∃ r g, Settles (parse .word source) (r, g) ∧ Forest.parse source = outcome r g) ∧
      ∀ (policy : Policy) (a : Analysis), check policy source = .ok a →
        ∀ id < a.forest.tables.size, Numbering.word id = some id) := by
  have hbytes : (Scan.ofString source).lexemes.length ≤ source.utf8ByteSize := by
    rw [← bytes_toList]
    exact Lexer.length_lexemes_le 0 0 source.toList
  refine ⟨fun h c f hc => h.progresses hc f, ?_, fun hsmall => ⟨?_, ?_⟩⟩
  · obtain ⟨r, g, hparse, houtcome, hsize⟩ := parse_eq source fun _ _ => rfl
    rw [length_answers]
    exact ⟨r, g, hparse, houtcome, hsize, Nat.succ_le_succ hbytes⟩
  · obtain ⟨r, g, hparse, houtcome, -⟩ :=
      parse_eq source fun n hn => Numbering.word_of_lt (by omega)
    exact ⟨r, g, hparse, houtcome⟩
  · intro policy a ha id hid
    obtain ⟨f, hf, htables⟩ := size_tables_le ha
    obtain ⟨r, g, -, houtcome, hsize⟩ := parse_eq source fun _ _ => rfl
    have hf' : f.size = g.size :=
      eq_linked_of_outcome (houtcome.symm.trans hf) ▸ g.alike_linked.size
    exact Numbering.word_of_lt (by omega)

/-- A block in a block, and a production at the only token of a text. -/
theorem parse_progress_nested :
    (∃ a, check {} "def int f() \x7b while (true) \x7b \x7d return 1; \x7d" = .ok a ∧
      3 < a.forest.tables.size ∧ Numbering.word 3 = some 3) ∧
    (∃ r g, Settles (parse .word "def int f() \x7b while (true) \x7b \x7d return 1; \x7d") (r, g) ∧
      Forest.parse "def int f() \x7b while (true) \x7b \x7d return 1; \x7d" = outcome r g) ∧
    ∃ c d g, Place "true" c ∧
      Progresses "true" (.primary .expression) Expr.plant (primary some) c {} ∧
      Settles (fun depth => primary some depth c {}) (.ok (0, d), g) ∧ g.size = 1 := by
  obtain ⟨-, -, hsmall⟩ := parse_progress "def int f() \x7b while (true) \x7b \x7d return 1; \x7d"
  obtain ⟨hword, htables⟩ := hsmall (by decide +kernel)
  refine ⟨?_, hword, ?_⟩
  · obtain ⟨a, ha, hsize⟩ := exists_ok_of_map (g := fun a => a.forest.tables.size) (b := 4)
      (x := check {} "def int f() \x7b while (true) \x7b \x7d return 1; \x7d") (by decide +kernel)
    exact ⟨a, ha, by omega, htables {} a ha 3 (by omega)⟩
  · have hplace : Place "true" ⟨[⟨.keyword .true_, ⟨0, 4⟩⟩], none, 4, ⟨0, 0⟩⟩ :=
      ⟨_, 0, rfl, ⟨Nat.zero_le _, fun _ => rfl⟩, rfl⟩
    have hrun : Settles (fun depth => primary some depth ⟨[⟨.keyword .true_, ⟨0, 4⟩⟩], none,
        4, ⟨0, 0⟩⟩ {}) (.ok (0, ⟨[], none, 4, ⟨0, 4⟩⟩),
        (Forest.add {} (.literal (.bool true)) ⟨0, 4⟩).1) :=
      Settles.of_succ (settles_const _)
    exact ⟨_, _, _, hplace, (parse_progress "true").1 .primary _ {} hplace, hrun, rfl⟩

end Growing

end DecafCheck
