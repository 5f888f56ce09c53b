import DecafCheck.Proofs.Grammar.Parsing
import DecafCheck.Proofs.Program.Bare
import DecafCheck.Proofs.Grammar.Locality
import DecafCheck.Proofs.Tree.Sketch

namespace DecafCheck

/-- Both cursors are on texts without invalid characters and have the same tokens ahead. -/
structure Cursor.Matches (c d : Cursor) : Prop where
  left : c.Clean
  right : d.Clean
  tokens : c.tokens = d.tokens

namespace Cursor.Matches

variable {c d : Cursor}

theorem current (h : c.Matches d) : c.current = d.current := by
  have hhead := congrArg List.head? h.tokens
  rwa [Cursor.tokens, Cursor.tokens, List.head?_map, List.head?_map] at hhead

theorem length (h : c.Matches d) : c.ahead.length = d.ahead.length := by
  have hlength := congrArg List.length h.tokens
  simpa only [Cursor.tokens, List.length_map] using hlength

theorem advance (h : c.Matches d) :
    ∃ c' d', c.advance = .ok c' ∧ d.advance = .ok d' ∧ c'.Matches d' := by
  obtain ⟨hc, hd, htokens⟩ := h
  obtain ⟨ahead, invalid, length, previous⟩ := c
  obtain ⟨ahead', invalid', length', previous'⟩ := d
  obtain rfl : invalid = none := hc
  obtain rfl : invalid' = none := hd
  cases ahead with
  | nil =>
    cases ahead' with
    | nil => exact ⟨_, _, rfl, rfl, rfl, rfl, rfl⟩
    | cons l' rest' => cases htokens
  | cons l rest =>
    cases ahead' with
    | nil => cases htokens
    | cons l' rest' =>
      have hrest := congrArg List.tail htokens
      exact ⟨⟨rest, none, length, l.span⟩, ⟨rest', none, length', l'.span⟩, by cases rest <;> rfl,
        by cases rest' <;> rfl, rfl, rfl, hrest⟩

end Cursor.Matches

namespace Parser

open Cursor (Matches)

variable {α β γ δ : Type}

/-- Results that cannot be told apart through `view`: two values and what is ahead then, or the same
fault. -/
inductive Agree (view : α → γ) :
    Except ParseError (α × Cursor) → Except ParseError (α × Cursor) → Prop
  | ok {a b : α} {c d : Cursor} : view a = view b → c.Matches d →
      Agree view (.ok (a, c)) (.ok (b, d))
  | grammar {fault : GrammarFault} {span span' : Span} :
      Agree view (.error (.grammar ⟨fault, span⟩)) (.error (.grammar ⟨fault, span'⟩))

/-- On the same tokens the two parsers come to the same, as far as `view` can tell. -/
structure Blind (view : α → γ) (p q : Parser α) : Prop where
  agree : ∀ {c d : Cursor}, c.Matches d → Agree view (p.run c) (q.run d)

section Combinators

variable {view : α → γ} {look : β → δ}

theorem blind_bind {p q : Parser α} {f g : α → Parser β} (hp : Blind view p q)
    (hf : ∀ a b, view a = view b → Blind look (f a) (g b)) : Blind look (p >>= f) (q >>= g) := by
  constructor
  intro c d hcd
  rw [run_bind, run_bind]
  have h := hp.agree hcd
  generalize p.run c = r at h
  generalize q.run d = s at h
  cases h with
  | ok hab hnext => exact (hf _ _ hab).agree hnext
  | grammar => exact .grammar

/-- A value without places in it is the same in both runs. -/
theorem blind_bind_id {p q : Parser α} {f g : α → Parser β} (hp : Blind id p q)
    (hf : ∀ a, Blind look (f a) (g a)) :
    Blind look (p >>= f) (q >>= g) := by
  apply blind_bind hp
  intro a b hab
  obtain rfl : a = b := hab
  exact hf a

theorem blind_pure {a b : α} (h : view a = view b) : Blind view (pure a) (pure b) :=
  ⟨fun hcd => .ok h hcd⟩

/-- What is found out without taking tokens. -/
theorem blind_look {p : Parser α} {φ : Cursor → α} (hp : ∀ c, p.run c = .ok (φ c, c))
    (hφ : ∀ {c d : Cursor}, c.Matches d → view (φ c) = view (φ d)) : Blind view p p := by
  constructor
  intro c d hcd
  rw [hp, hp]
  exact .ok (hφ hcd) hcd

theorem blind_current : Blind id current current :=
  blind_look (fun _ => rfl) fun h => h.current

theorem blind_remaining : Blind id remaining remaining :=
  blind_look (fun _ => rfl) fun h => h.length

theorem blind_sees (m : Mark) : Blind id (sees m) (sees m) :=
  blind_look (φ := fun c => c.current == some (.mark m)) (fun _ => rfl) fun h => by rw [h.current]

theorem blind_currentSpan : Blind Span.forget currentSpan currentSpan :=
  blind_look (fun _ => rfl) fun _ => rfl

theorem blind_spanFrom (start start' : Span) :
    Blind Span.forget (spanFrom start) (spanFrom start') :=
  ⟨fun hcd => .ok rfl hcd⟩

theorem blind_failAt (span span' : Span) (fault : GrammarFault) :
    Blind view (failAt span fault) (failAt span' fault) :=
  ⟨fun _ => .grammar⟩

theorem blind_fail (fault : GrammarFault) : Blind view (fail fault) (fail fault) :=
  ⟨fun _ => .grammar⟩

theorem blind_take : Blind Prod.fst take take := by
  constructor
  intro c d hcd
  obtain ⟨c', d', hc, hd, hnext⟩ := hcd.advance
  rw [run_take, run_take, hc, hd]
  exact .ok hcd.current hnext

theorem blind_skip : Blind id skip skip :=
  blind_bind blind_take fun _ _ _ => blind_pure rfl

theorem blind_expectToken (t : Token) : Blind id (expectToken t) (expectToken t) := by
  apply blind_bind_id blind_current
  intro found
  split
  · exact blind_skip
  · exact blind_fail _

theorem blind_expect (m : Mark) : Blind id (expect m) (expect m) :=
  blind_expectToken _

theorem blind_accept (m : Mark) : Blind id (accept m) (accept m) := by
  apply blind_bind_id (blind_sees m)
  intro found
  split
  · exact blind_bind_id blind_skip fun _ => blind_pure rfl
  · exact blind_pure rfl

theorem blind_identifier : Blind Prod.fst identifier identifier := by
  apply blind_bind blind_take
  rintro ⟨found, span⟩ ⟨_, span'⟩ rfl
  dsimp only
  split
  · exact blind_pure rfl
  · exact blind_failAt span span' _

theorem blind_dataType : Blind id dataType dataType := by
  apply blind_bind blind_take
  rintro ⟨found, span⟩ ⟨_, span'⟩ rfl
  dsimp only
  split
  · exact blind_pure rfl
  · exact blind_failAt span span' _

theorem blind_integer (spelling : String) (span span' : Span) :
    Blind id (integer spelling span) (integer spelling span') := by
  unfold integer
  split
  · exact blind_pure rfl
  · exact blind_failAt span span' _

variable {item item' : Parser α} {continues : Option Token → Bool}

theorem blind_manyUpTo (hitem : Blind view item item') (bound : Nat) :
    Blind (List.map view) (manyUpTo continues item bound) (manyUpTo continues item' bound) := by
  induction bound with
  | zero => exact blind_pure rfl
  | succ bound ih =>
    apply blind_bind_id blind_current
    intro found
    split
    · refine blind_bind hitem fun first first' hfirst =>
        blind_bind ih fun rest rest' hrest => blind_pure ?_
      rw [List.map_cons, List.map_cons, hfirst, hrest]
    · exact blind_pure rfl

theorem blind_many (hitem : Blind view item item') :
    Blind (List.map view) (many continues item) (many continues item') := by
  apply blind_bind_id blind_remaining
  exact blind_manyUpTo hitem

theorem blind_separated (hitem : Blind view item item') :
    Blind (List.map view) (separated item) (separated item') := by
  refine blind_bind hitem fun first first' hfirst => ?_
  have hlater : Blind view (skip >>= fun _ => item) (skip >>= fun _ => item') :=
    blind_bind_id blind_skip fun _ => hitem
  refine blind_bind (blind_many hlater) fun rest rest' hrest => blind_pure ?_
  rw [List.map_cons, List.map_cons, hfirst, hrest]

theorem blind_parenthesized (hitem : Blind view item item') :
    Blind (List.map view) (parenthesized item) (parenthesized item') := by
  have hclose (items items' : List α) (h : items.map view = items'.map view) :
      Blind (List.map view) (expect .rightParen >>= fun _ => pure items)
      (expect .rightParen >>= fun _ => pure items') :=
    blind_bind_id (blind_expect .rightParen) fun _ => blind_pure h
  apply blind_bind_id (blind_expect .leftParen)
  intro _
  apply blind_bind_id (blind_sees .rightParen)
  intro found
  cases found with
  | true => exact hclose [] [] rfl
  | false => exact blind_bind (blind_separated hitem) hclose

end Combinators

section Expression

variable {E E' : Parser Expr}

theorem blind_index? (h : Blind Expr.bare E E') :
    Blind (Option.map Expr.bare) (index? E) (index? E') := by
  apply blind_bind_id (blind_accept .leftBracket)
  intro found
  cases found with
  | true =>
    refine blind_bind h fun i i' hi => blind_bind_id (blind_expect .rightBracket)
      fun _ => blind_pure ?_
    exact congrArg some hi
  | false => exact blind_pure rfl

theorem blind_reference (h : Blind Expr.bare E E') :
    Blind Expr.bare (reference E) (reference E') := by
  apply blind_bind blind_identifier
  rintro ⟨name, start⟩ ⟨_, start'⟩ rfl
  apply blind_bind_id (blind_sees .leftParen)
  intro found
  cases found with
  | true =>
    refine blind_bind (blind_parenthesized h) fun es es' hes =>
      blind_bind (blind_spanFrom start start') ?_
    intro _ _ _
    apply blind_pure
    rw [Expr.bare_call, Expr.bare_call, hes]
  | false =>
    refine blind_bind (blind_index? h) fun i i' hi => blind_bind (blind_spanFrom start start') ?_
    intro _ _ _
    apply blind_pure
    rw [Expr.bare_location, Expr.bare_location, hi]

theorem blind_primary (h : Blind Expr.bare E E') : Blind Expr.bare (primary E) (primary E') := by
  refine blind_bind blind_currentSpan fun span span' _ => blind_bind_id blind_current ?_
  intro found
  split
  · next spelling =>
    apply blind_bind_id (blind_integer spelling span span')
    exact fun value => blind_bind_id blind_skip fun _ => blind_pure rfl
  · exact blind_bind_id blind_skip fun _ => blind_pure rfl
  · exact blind_bind_id blind_skip fun _ => blind_pure rfl
  · exact blind_reference h
  · refine blind_bind_id blind_skip fun _ => blind_bind h fun e e' he => ?_
    exact blind_bind_id (blind_expect .rightParen) fun _ => blind_pure he
  · exact blind_fail _

theorem blind_sign : Blind Prod.fst sign sign := by
  apply blind_bind blind_take
  rintro ⟨found, span⟩ ⟨_, span'⟩ rfl
  dsimp only
  split
  · exact blind_pure rfl
  · exact blind_failAt span span' _

theorem bare_signed {signs signs' : List (UnaryOp × Span)} {e e' : Expr}
    (hs : signs.map Prod.fst = signs'.map Prod.fst) (he : e.bare = e'.bare) :
    (signs.foldr (fun s e => .unary s.1 e (s.2.merge e.span)) e : Expr).bare =
      (signs'.foldr (fun s e => .unary s.1 e (s.2.merge e.span)) e' : Expr).bare := by
  induction signs generalizing signs' with
  | nil =>
    obtain rfl := List.map_eq_nil_iff.mp hs.symm
    exact he
  | cons s signs ih =>
    cases signs' with
    | nil => cases hs
    | cons s' signs' =>
      obtain ⟨hop, hrest⟩ := List.cons.inj hs
      rw [List.foldr_cons, List.foldr_cons, Expr.bare, Expr.bare, hop, ih hrest]

theorem blind_unary (h : Blind Expr.bare E E') : Blind Expr.bare (unary E) (unary E') := by
  refine blind_bind (blind_many blind_sign) fun signs signs' hs => blind_bind (blind_primary h) ?_
  exact fun e e' he => blind_pure (bare_signed hs he)

theorem blind_rightSide (stratum : List BinaryOp) (h : Blind Expr.bare E E') :
    Blind (Prod.map id Expr.bare) (rightSide stratum E) (rightSide stratum E') := by
  apply blind_bind blind_take
  rintro ⟨found, span⟩ ⟨_, span'⟩ rfl
  dsimp only
  split
  · next op _ => exact blind_bind h fun e e' he => blind_pure (congrArg (Prod.mk op) he)
  · exact blind_failAt span span' _

theorem bare_chained {rest rest' : List (BinaryOp × Expr)} {e e' : Expr}
    (hr : rest.map (Prod.map id Expr.bare) = rest'.map (Prod.map id Expr.bare))
    (he : e.bare = e'.bare) :
    (rest.foldl (fun left r => .binary r.1 left r.2 (left.span.merge r.2.span)) e : Expr).bare =
      (rest'.foldl (fun left r => .binary r.1 left r.2 (left.span.merge r.2.span))
        e' : Expr).bare := by
  induction rest generalizing rest' e e' with
  | nil =>
    obtain rfl := List.map_eq_nil_iff.mp hr.symm
    exact he
  | cons r rest ih =>
    cases rest' with
    | nil => cases hr
    | cons r' rest' =>
      obtain ⟨hhead, hrest⟩ := List.cons.inj hr
      obtain ⟨hop, hright⟩ := Prod.mk.inj hhead
      apply ih hrest
      rw [Expr.bare, Expr.bare, he, hright, show r.1 = r'.1 from hop]

theorem blind_binary (h : Blind Expr.bare E E') (strata : List (List BinaryOp)) :
    Blind Expr.bare (binary E strata) (binary E' strata) := by
  induction strata with
  | nil => exact h
  | cons stratum tighter ih =>
    refine blind_bind ih fun e e' he => blind_bind (blind_many (blind_rightSide stratum ih)) ?_
    exact fun rest rest' hr => blind_pure (bare_chained hr he)

theorem blind_nested (depth : Nat) : Blind Expr.bare (nested depth) (nested depth) := by
  induction depth with
  | zero => exact blind_bind_id blind_current fun _ => blind_fail _
  | succ depth ih => exact blind_binary (blind_unary ih) _

theorem blind_expression : Blind Expr.bare expression expression :=
  blind_bind_id blind_remaining fun n => blind_nested (n + 1)

end Expression

section Statement

variable {B B' : Parser Block}

theorem blind_arrayLength : Blind id arrayLength arrayLength := by
  apply blind_bind_id (blind_accept .leftBracket)
  intro found
  cases found with
  | false => exact blind_pure rfl
  | true =>
    apply blind_bind blind_take
    rintro ⟨found, span⟩ ⟨_, span'⟩ rfl
    dsimp only
    split
    · next spelling =>
      apply blind_bind_id (blind_integer spelling span span')
      intro length
      split
      · exact blind_bind_id (blind_expect .rightBracket) fun _ => blind_pure rfl
      · exact blind_failAt span span' _
    · exact blind_failAt span span' _

theorem blind_variableDeclaration :
    Blind Variable.bare variableDeclaration variableDeclaration := by
  refine blind_bind blind_currentSpan fun start start' _ => blind_bind_id blind_dataType
    fun type => ?_
  apply blind_bind blind_identifier
  rintro ⟨name, _⟩ ⟨_, _⟩ rfl
  refine blind_bind_id blind_arrayLength fun length =>
    blind_bind_id (blind_expect .semicolon) fun _ => ?_
  exact blind_bind (blind_spanFrom start start') fun _ _ _ => blind_pure rfl

theorem blind_assignmentOrCall : Blind Stmt.bare assignmentOrCall assignmentOrCall := by
  apply blind_bind blind_identifier
  rintro ⟨name, start⟩ ⟨_, start'⟩ rfl
  apply blind_bind_id (blind_sees .leftParen)
  intro found
  cases found with
  | true =>
    refine blind_bind (blind_parenthesized blind_expression) fun es es' hes => ?_
    refine blind_bind_id (blind_expect .semicolon) fun _ =>
      blind_bind (blind_spanFrom start start') ?_
    intro _ _ _
    apply blind_pure
    rw [Stmt.bare, Stmt.bare, hes]
  | false =>
    refine blind_bind (blind_index? blind_expression) fun i i' hi =>
      blind_bind (blind_spanFrom start start') ?_
    intro target target' _
    refine blind_bind_id (blind_expect .assign) fun _ => blind_bind blind_expression
      fun e e' he => ?_
    refine blind_bind_id (blind_expect .semicolon) fun _ =>
      blind_bind (blind_spanFrom start start') ?_
    intro _ _ _
    apply blind_pure
    rw [Stmt.bare, Stmt.bare, hi, he]

theorem blind_returned? : Blind (Option.map Expr.bare) returned? returned? := by
  apply blind_bind_id (blind_sees .semicolon)
  intro found
  cases found with
  | true => exact blind_pure rfl
  | false => exact blind_bind blind_expression fun e e' he => blind_pure (congrArg some he)

theorem blind_condition : Blind Expr.bare condition condition := by
  refine blind_bind_id (blind_expect .leftParen) fun _ => blind_bind blind_expression
    fun e e' he => ?_
  exact blind_bind_id (blind_expect .rightParen) fun _ => blind_pure he

theorem blind_otherwise? (h : Blind Block.bare B B') :
    Blind Block.bare? (otherwise? B) (otherwise? B') := by
  apply blind_bind_id blind_current
  intro found
  split
  · exact blind_bind_id blind_skip fun _ => blind_bind h fun b b' hb =>
      blind_pure (congrArg some hb)
  · exact blind_pure rfl

theorem blind_statement (h : Blind Block.bare B B') :
    Blind Stmt.bare (statement B) (statement B') := by
  refine blind_bind blind_currentSpan fun start start' _ => blind_bind_id blind_current ?_
  intro found
  have hspan {σ σ' : Span → Stmt} (hσ : ∀ s s', (σ s).bare = (σ' s').bare) :
      Blind Stmt.bare (spanFrom start >>= fun s => pure (σ s))
      (spanFrom start' >>= fun s => pure (σ' s)) :=
    blind_bind (blind_spanFrom start start') fun s s' _ => blind_pure (hσ s s')
  split
  · exact blind_assignmentOrCall
  · refine blind_bind_id blind_skip fun _ => blind_bind blind_condition fun e e' he =>
      blind_bind h fun b b' hb => ?_
    refine blind_bind (blind_otherwise? h) fun no no' hno => hspan fun _ _ => ?_
    rw [Stmt.bare, Stmt.bare, he, hb, hno]
  · refine blind_bind_id blind_skip fun _ => blind_bind blind_condition fun e e' he =>
      blind_bind h fun b b' hb => ?_
    refine hspan fun _ _ => ?_
    rw [Stmt.bare, Stmt.bare, he, hb]
  · refine blind_bind_id blind_skip fun _ => blind_bind blind_returned? fun e e' he => ?_
    refine blind_bind_id (blind_expect .semicolon) fun _ => hspan fun _ _ => ?_
    rw [Stmt.bare, Stmt.bare, he]
  · exact blind_bind_id blind_skip fun _ => blind_bind_id (blind_expect .semicolon) fun _ =>
      hspan fun _ _ => rfl
  · exact blind_bind_id blind_skip fun _ => blind_bind_id (blind_expect .semicolon) fun _ =>
      hspan fun _ _ => rfl
  · exact blind_fail _

theorem blind_nestedBlock (depth : Nat) :
    Blind Block.bare (nestedBlock depth) (nestedBlock depth) := by
  induction depth with
  | zero => exact blind_bind_id blind_current fun _ => blind_fail _
  | succ depth ih =>
    refine blind_bind blind_currentSpan fun start start' _ =>
      blind_bind_id (blind_expect .leftBrace) fun _ => ?_
    refine blind_bind (blind_many blind_variableDeclaration) fun vars vars' hvars => ?_
    refine blind_bind (blind_many (blind_statement ih)) fun ss ss' hss => ?_
    refine blind_bind_id (blind_expect .rightBrace) fun _ =>
      blind_bind (blind_spanFrom start start') ?_
    intro _ _ _
    apply blind_pure
    rw [Block.bare, Block.bare, Stmt.bareAll_eq, Stmt.bareAll_eq, hvars, hss]

theorem blind_block : Blind Block.bare block block :=
  blind_bind_id blind_remaining fun n => blind_nestedBlock (n + 1)

end Statement

theorem blind_parameter : Blind Parameter.bare parameter parameter := by
  refine blind_bind blind_currentSpan fun start start' _ => blind_bind_id blind_dataType
    fun type => ?_
  apply blind_bind blind_identifier
  rintro ⟨name, _⟩ ⟨_, _⟩ rfl
  exact blind_pure rfl

theorem blind_function : Blind Function.bare function function := by
  refine blind_bind blind_currentSpan fun start start' _ =>
    blind_bind_id (blind_expectToken _) fun _ => ?_
  apply blind_bind_id blind_dataType
  intro returns
  apply blind_bind blind_identifier
  rintro ⟨name, _⟩ ⟨_, _⟩ rfl
  refine blind_bind (blind_parenthesized blind_parameter) fun ps ps' hps => blind_bind blind_block
    fun b b' hb => ?_
  refine blind_bind (blind_spanFrom start start') fun _ _ _ => blind_pure ?_
  rw [Function.bare, Function.bare, hps, hb]

theorem blind_declaration : Blind Declaration.bare declaration declaration := by
  apply blind_bind_id blind_current
  intro found
  split
  · exact blind_bind blind_function fun g g' hg => blind_pure (congrArg Declaration.function hg)
  · split
    · exact blind_bind blind_variableDeclaration fun v v' hv =>
        blind_pure (congrArg Declaration.variable hv)
    · exact blind_fail _

theorem blind_program : Blind Program.bare program program := by
  refine blind_bind blind_currentSpan fun start start' _ =>
    blind_bind (blind_many blind_declaration) ?_
  intro ds ds' hds
  refine blind_bind (blind_spanFrom start start') fun _ _ _ => blind_pure ?_
  rw [Program.bare, Program.bare, hds]

end Parser

/-- Texts of the same tokens hold programs that differ in their spans only, or the same fault keeps
both from holding one. -/
theorem Program.parse_layout {source source' : String} {ls ls' : List Lexeme}
    (h : (Scan.ofString source).tokens = .ok ls) (h' : (Scan.ofString source').tokens = .ok ls')
    (htokens : ls.map Lexeme.token = ls'.map Lexeme.token) :
    (∃ p q, parse source = .ok p ∧ parse source' = .ok q ∧ p.bare = q.bare) ∨
      ∃ e e', parse source = .error (.grammar e) ∧ parse source' = .error (.grammar e') ∧
        e.fault = e'.fault := by
  have hrun {source : String} {ls : List Lexeme} (h : (Scan.ofString source).tokens = .ok ls) :
      parse source = Prod.fst <$> Parser.program.run
        ⟨ls, none, (Scan.ofString source).length, ⟨0, 0⟩⟩ := by
    rw [parse, ofScan, Cursor.ofScan_eq h]
    rfl
  have hagree := Parser.blind_program.agree (c := ⟨ls, none, (Scan.ofString source).length, ⟨0, 0⟩⟩)
    (d := ⟨ls', none, (Scan.ofString source').length, ⟨0, 0⟩⟩) ⟨rfl, rfl, htokens⟩
  rw [hrun h, hrun h']
  -- from here on all that counts about the two runs is that they agree
  generalize Parser.program.run _ = r at hagree ⊢
  generalize Parser.program.run _ = r' at hagree ⊢
  cases hagree with
  | ok hbare _ => exact .inl ⟨_, _, rfl, rfl, hbare⟩
  | grammar => exact .inr ⟨_, _, rfl, rfl, rfl⟩

end DecafCheck
