import DecafCheck.Proofs.Grammar.Unambiguous
import DecafCheck.Proofs.Scope.Program

namespace DecafCheck

/-- How tokens derive from the grammar as a program. -/
structure Concrete.Derivation (ts : List Token) where
  program : Concrete.Program
  proper : program.Proper
  tokens : program.tokens = ts

theorem Concrete.Derivation.subsingleton (ts : List Token) : Subsingleton (Derivation ts) := by
  constructor
  rintro ⟨d, hd, rfl⟩ ⟨d', hd', ht⟩
  obtain rfl := Program.eq_of_tokens_eq hd' hd ht
  rfl

theorem Cursor.split_map_ok (ls : List Lexeme) : split (ls.map .ok) = (ls, none) := by
  induction ls with
  | nil => rfl
  | cons l ls ih => rw [List.map_cons, split, ih]

theorem Scan.lexemes_eq {s : Scan} {ls : List Lexeme} (h : s.tokens = .ok ls) :
    s.lexemes = ls.map .ok := by
  unfold Scan.tokens at h
  generalize s.lexemes = xs at h ⊢
  induction xs generalizing ls with
  | nil =>
    cases h
    rfl
  | cons x xs ih =>
    rw [List.mapM_cons] at h
    cases x with
    | error e => cases h
    | ok l =>
      cases hrest : xs.mapM id with
      | error e =>
        simp only [id_eq, hrest] at h
        cases h
      | ok rest =>
        simp only [id_eq, hrest] at h
        cases h
        rw [ih hrest, List.map_cons]

theorem Cursor.ofScan_eq {s : Scan} {ls : List Lexeme} (h : s.tokens = .ok ls) :
    ofScan s = .ok ⟨ls, none, s.length, ⟨0, 0⟩⟩ := by
  unfold ofScan
  rw [Scan.lexemes_eq h, split_map_ok]
  cases ls <;> rfl

theorem Program.ofScan_eq_ok_iff {s : Scan} {start : Cursor} (hs : Cursor.ofScan s = .ok start)
    {p : Program} :
    ofScan s = .ok p ↔ ∃ c, Parser.program.Yields start p c := by
  have hrun : ofScan s = Prod.fst <$> Parser.program.run start := by
    unfold ofScan
    rw [hs]
    rfl
  rw [hrun]
  unfold Parser.Yields
  cases Parser.program.run start with
  | error e => simp
  | ok r => simp [Prod.ext_iff]

/-- What a text without lexical errors holds is what the derivation of its tokens stands for. -/
theorem Program.parse_eq_ok_iff {source : String} {ls : List Lexeme}
    (h : (Scan.ofString source).tokens = .ok ls) {p : Program} :
    parse source = .ok p ↔
      ∃ d : Concrete.Derivation (ls.map Lexeme.token), d.program.along
        (Scan.ofString source).length ls = p := by
  have hclean : Cursor.Clean ⟨ls, none, (Scan.ofString source).length, ⟨0, 0⟩⟩ := rfl
  unfold parse
  rw [ofScan_eq_ok_iff (Cursor.ofScan_eq h)]
  constructor
  · rintro ⟨c, hc⟩
    obtain ⟨d, hd, ht, hp, -⟩ := (Concrete.yields_program hclean rfl).mp hc
    exact ⟨⟨d, hd, ht⟩, hp⟩
  · rintro ⟨⟨d, hd, ht⟩, hp⟩
    exact ⟨_, (Concrete.yields_program hclean rfl).mpr ⟨d, hd, ht, hp, rfl⟩⟩

/-- A text without lexical errors is parsed exactly if its tokens derive from the grammar. They do
so in at most one way, and the nodes that parsing builds are those of the tree of this
derivation. -/
theorem Forest.parses_exactly_derivations {source : String} {lexemes : List Lexeme}
    (h : (Scan.ofString source).tokens = .ok lexemes) :
    ((∃ f, parse source = .ok f) ↔ Nonempty (Concrete.Derivation (lexemes.map Lexeme.token))) ∧
      Subsingleton (Concrete.Derivation (lexemes.map Lexeme.token)) ∧
        ∀ (d : Concrete.Derivation (lexemes.map Lexeme.token)) (f : Forest), parse source = .ok f →
          f.Carries (d.program.along (Scan.ofString source).length lexemes).tree := by
  have hunique := Concrete.Derivation.subsingleton (lexemes.map Lexeme.token)
  refine ⟨⟨?_, ?_⟩, hunique, ?_⟩
  · rintro ⟨f, hf⟩
    obtain ⟨p, hp, -⟩ := parse_eq_ok_iff.mp hf
    obtain ⟨d, -⟩ := (Program.parse_eq_ok_iff h).mp hp
    exact ⟨d⟩
  · rintro ⟨d⟩
    exact ⟨_, parse_eq_ok_iff.mpr ⟨_, (Program.parse_eq_ok_iff h).mpr ⟨d, rfl⟩, rfl⟩⟩
  · intro d f hf
    obtain ⟨p, hp, rfl⟩ := parse_eq_ok_iff.mp hf
    obtain ⟨d', rfl⟩ := (Program.parse_eq_ok_iff h).mp hp
    obtain rfl := hunique.elim d d'
    exact Program.grown_carries _

/-- All operators. Differences associate to the left, whether that is written or not. -/
def strataText : String :=
  "def bool f() \x7b return (1 - 2) - 3 + 4 * 5 / 6 % 7 < 8 <= 9 > 10 >= 11 == true != false" ++
    " && !true || false; \x7d"

/-- The nodes of its tree, in post-order. -/
def strataKinds : List Kind :=
  [.literal (.int 1), .literal (.int 2), .binary .sub 0 1, .literal (.int 3), .binary .sub 2 3,
   .literal (.int 4), .literal (.int 5), .binary .mul 5 6, .literal (.int 6), .binary .div 7 8,
   .literal (.int 7), .binary .mod 9 10, .binary .add 4 11, .literal (.int 8), .binary .lt 12 13,
   .literal (.int 9), .binary .le 14 15, .literal (.int 10), .binary .gt 16 17, .literal (.int 11),
   .binary .ge 18 19, .literal (.bool true), .binary .eq 20 21, .literal (.bool false),
   .binary .ne 22 23, .literal (.bool true), .unary .not 25, .binary .and 24 26,
   .literal (.bool false), .binary .or 27 28, .ret (some 29), .block [] [30],
   .function "f" .bool [] 31, .program [] [32]]

theorem Forest.parses_exactly_derivations_difference :
    ∃ lexemes, (Scan.ofString strataText).tokens = .ok lexemes ∧
      ∃ f, parse strataText = .ok f ∧
        f.nodes.toList.map Node.kind = strataKinds ∧
        ∃ d : Concrete.Derivation (lexemes.map Lexeme.token), (∀ d', d' = d) ∧
          f.Carries (d.program.along (Scan.ofString strataText).length lexemes).tree := by
  apply exists_ok_of_isSome (by decide +kernel)
  intro lexemes h
  have hkinds : (parse strataText).toOption.map (fun f => f.nodes.toList.map Node.kind) =
      some strataKinds := by
    decide +kernel
  obtain ⟨f, hf, hkinds⟩ := exists_ok_of_map hkinds
  obtain ⟨hiff, hunique, htree⟩ := parses_exactly_derivations h
  obtain ⟨d⟩ := hiff.mp ⟨f, hf⟩
  exact ⟨f, hf, hkinds, d, fun d' => hunique.elim d' d, htree d f hf⟩

end DecafCheck
