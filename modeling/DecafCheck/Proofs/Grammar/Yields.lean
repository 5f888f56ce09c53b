import DecafCheck.Program.Parser.Basic
import DecafCheck.Program.Printer
import Mathlib.Data.List.Infix

namespace DecafCheck

namespace Lexeme

def spanAt (ls : List Lexeme) (i : Nat) : Span :=
  (ls[i]?.map span).getD ⟨0, 0⟩

/-- From the first of `n` lexemes to the last of them. -/
def cover (ls : List Lexeme) (n : Nat) : Span :=
  (spanAt ls 0).merge (spanAt ls (n - 1))

theorem spanAt_drop (ls : List Lexeme) (k i : Nat) : spanAt (ls.drop k) i = spanAt ls (k + i) := by
  simp [spanAt]

end Lexeme

namespace Cursor

def tokens (c : Cursor) : List Token :=
  c.ahead.map Lexeme.token

/-- Behind the next `k` tokens. -/
def forward (c : Cursor) (k : Nat) : Cursor :=
  { c with
    ahead := c.ahead.drop k
    previous := if k = 0 then c.previous else Lexeme.spanAt c.ahead (k - 1) }

/-- No character further on is invalid. -/
def Clean (c : Cursor) : Prop :=
  c.invalid = none

/-- The current token can be gone past. -/
def Passes (c : Cursor) : Prop :=
  ∃ c', c.advance = .ok c'

theorem Clean.passes {c : Cursor} (h : c.Clean) : c.Passes := by
  obtain ⟨ahead, invalid, length, previous⟩ := c
  obtain rfl : invalid = none := h
  rcases ahead with _ | ⟨l, _ | ⟨m, rest⟩⟩ <;> exact ⟨_, rfl⟩

theorem advance_eq_ok_iff {c c' : Cursor} {t : Token} (ht : c.current = some t) :
    c.advance = .ok c' ↔ c.Passes ∧ c.forward 1 = c' := by
  obtain ⟨ahead, invalid, length, previous⟩ := c
  rcases ahead with _ | ⟨l, rest⟩
  · cases ht
  · rcases rest with _ | ⟨m, rest⟩ <;> cases invalid <;>
      simp [Passes, advance, forward, Lexeme.spanAt]

theorem Clean.forward {c : Cursor} (h : c.Clean) {k : Nat} : (c.forward k).Clean := h

@[simp] theorem forward_zero (c : Cursor) : c.forward 0 = c := rfl

theorem forward_add (c : Cursor) (a b : Nat) : c.forward (a + b) = (c.forward a).forward b := by
  rcases b with _ | b
  · rfl
  · simp [forward, Lexeme.spanAt_drop, ← Nat.add_assoc]

theorem forward_cons (c : Cursor) (t : Token) (ts : List Token) :
    c.forward (t :: ts).length = (c.forward 1).forward ts.length := by
  rw [List.length_cons, Nat.add_comm, forward_add]

theorem forward_append (c : Cursor) (ts us : List Token) :
    c.forward (ts ++ us).length = (c.forward ts.length).forward us.length := by
  rw [List.length_append, forward_add]

theorem ahead_forward (c : Cursor) (k : Nat) : (c.forward k).ahead = c.ahead.drop k := rfl

theorem tokens_forward (c : Cursor) (k : Nat) : (c.forward k).tokens = c.tokens.drop k := by
  simp [tokens, forward, List.map_drop]

theorem length_forward_lt {c : Cursor} {t : Token} (ht : c.current = some t) :
    (c.forward 1).tokens.length < c.tokens.length := by
  obtain ⟨_ | ⟨l, rest⟩, invalid, length, previous⟩ := c
  · cases ht
  · simp [tokens, forward]

theorem current_eq (c : Cursor) : c.current = c.tokens.head? := by
  simp [current, tokens]

theorem span_eq {c : Cursor} {t : Token} (ht : c.current = some t) :
    c.span = Lexeme.spanAt c.ahead 0 := by
  obtain ⟨_ | ⟨l, rest⟩, invalid, length, previous⟩ := c
  · cases ht
  · rfl

theorem previous_forward (c : Cursor) {k : Nat} (hk : k ≠ 0) :
    (c.forward k).previous = Lexeme.spanAt c.ahead (k - 1) := by
  simp [forward, hk]

theorem previous_forward_one {c : Cursor} {t : Token} (ht : c.current = some t) :
    (c.forward 1).previous = c.span := by
  rw [span_eq ht, previous_forward c Nat.one_ne_zero]

theorem cons_prefix_iff {c : Cursor} {t : Token} {ts : List Token} :
    t :: ts <+: c.tokens ↔ c.current = some t ∧ ts <+: (c.forward 1).tokens := by
  rw [tokens_forward, current_eq]
  cases c.tokens with
  | nil => simp
  | cons u us => simp [List.cons_prefix_cons, eq_comm]

theorem append_prefix_iff {c : Cursor} {ts us : List Token} :
    ts ++ us <+: c.tokens ↔ ts <+: c.tokens ∧ us <+: (c.forward ts.length).tokens := by
  induction ts generalizing c with
  | nil => simp
  | cons t ts ih =>
    rw [List.cons_append, cons_prefix_iff, cons_prefix_iff, ih, and_assoc, forward_cons]

/-- The span from the current token to the last of the tokens that follow. -/
theorem merge_forward {c : Cursor} {ts : List Token} (hts : ts <+: c.tokens) (hne : ts ≠ []) :
    c.span.merge (c.forward ts.length).previous = Lexeme.cover c.ahead ts.length := by
  obtain ⟨t, ts, rfl⟩ := List.exists_cons_of_ne_nil hne
  rw [span_eq (cons_prefix_iff.mp hts).1, previous_forward c (by simp), Lexeme.cover]

end Cursor

namespace Parser

variable {α β : Type} {c c' : Cursor}

/-- The parser succeeds at `c` and ends up at `c'`. -/
def Yields (p : Parser α) (c : Cursor) (a : α) (c' : Cursor) : Prop :=
  p.run c = .ok (a, c')

@[simp] theorem yields_pure {a b : α} : Yields (pure a) c b c' ↔ a = b ∧ c = c' := by
  rw [Yields, StateT.run_pure]
  simp [pure, Except.pure]

@[simp] theorem yields_bind {p : Parser α} {f : α → Parser β} {b : β} :
    Yields (p >>= f) c b c' ↔ ∃ a d, Yields p c a d ∧ Yields (f a) d b c' := by
  simp only [Yields, StateT.run_bind]
  cases h : p.run c with
  | error e => simp [bind, Except.bind]
  | ok r => simp [bind, Except.bind, Prod.ext_iff, and_assoc]

@[simp] theorem yields_map {p : Parser α} {f : α → β} {b : β} :
    Yields (f <$> p) c b c' ↔ ∃ a, Yields p c a c' ∧ f a = b := by
  rw [← bind_pure_comp, yields_bind]
  simp only [yields_pure]
  constructor
  · rintro ⟨a, d, hp, hf, rfl⟩
    exact ⟨a, hp, hf⟩
  · rintro ⟨a, hp, hf⟩
    exact ⟨a, c', hp, hf, rfl⟩

@[simp] theorem yields_failAt {span : Span} {fault : GrammarFault} {a : α} :
    ¬ Yields (failAt span fault) c a c' := by
  simp [Yields, failAt, throw, throwThe, MonadExceptOf.throw, StateT.run, StateT.lift,
    bind, Except.bind]

@[simp] theorem yields_get {s : Cursor} : Yields get c s c' ↔ c = s ∧ c = c' := by
  simp [Yields, pure, Except.pure]

@[simp] theorem yields_set {s : Cursor} {u : PUnit} : Yields (set s) c u c' ↔ s = c' := by
  simp [Yields, pure, Except.pure]

@[simp] theorem yields_lift {x : Except ParseError α} {a : α} :
    Yields (liftM x) c a c' ↔ x = .ok a ∧ c = c' := by
  cases x <;> simp [Yields, bind, Except.bind, pure, Except.pure]

@[simp] theorem yields_ite {b : Prop} [Decidable b] {p q : Parser α} {a : α} :
    Yields (if b then p else q) c a c' ↔ b ∧ Yields p c a c' ∨ ¬ b ∧ Yields q c a c' := by
  split <;> simp [*]

@[simp] theorem yields_current {t : Option Token} :
    Yields current c t c' ↔ c.current = t ∧ c = c' := by
  simp [current, and_comm]

@[simp] theorem yields_currentSpan {s : Span} :
    Yields currentSpan c s c' ↔ c.span = s ∧ c = c' := by
  simp [currentSpan, and_comm]

@[simp] theorem yields_remaining {n : Nat} :
    Yields remaining c n c' ↔ c.tokens.length = n ∧ c = c' := by
  simp [remaining, Cursor.tokens, and_comm]

@[simp] theorem yields_spanFrom {start s : Span} :
    Yields (spanFrom start) c s c' ↔ start.merge c.previous = s ∧ c = c' := by
  simp [spanFrom, previousSpan, and_comm]

@[simp] theorem yields_fail {fault : GrammarFault} {a : α} : ¬ Yields (fail fault) c a c' := by
  simp [fail]

theorem yields_take {x : Option Token × Span} :
    Yields take c x c' ↔ c.advance = .ok c' ∧ (c.current, c.span) = x := by
  simp [take]

theorem yields_skip {u : Unit} {t : Token} (ht : c.current = some t) :
    Yields skip c u c' ↔ c.Passes ∧ c.forward 1 = c' := by
  rw [← Cursor.advance_eq_ok_iff ht]
  simp [skip, Functor.discard, map_const, yields_take]

@[simp] theorem yields_sees {m : Mark} {b : Bool} :
    Yields (sees m) c b c' ↔ (c.current == some (.mark m)) = b ∧ c = c' := by
  simp [sees, and_comm]

@[simp] theorem yields_expectToken {t : Token} {u : Unit} :
    Yields (expectToken t) c u c' ↔ c.current = some t ∧ c.Passes ∧ c.forward 1 = c' := by
  simp only [expectToken, yields_bind, yields_current, yields_ite, beq_iff_eq]
  constructor
  · rintro ⟨_, _, ⟨rfl, rfl⟩, ⟨ht, h⟩ | ⟨-, h⟩⟩
    · exact ⟨ht, (yields_skip ht).mp h⟩
    · exact absurd h yields_fail
  · rintro ⟨ht, h⟩
    exact ⟨_, _, ⟨rfl, rfl⟩, .inl ⟨ht, (yields_skip ht).mpr h⟩⟩

@[simp] theorem yields_expect {m : Mark} {u : Unit} :
    Yields (expect m) c u c' ↔ c.current = some (.mark m) ∧ c.Passes ∧ c.forward 1 = c' :=
  yields_expectToken

@[simp] theorem yields_accept {m : Mark} {b : Bool} :
    Yields (accept m) c b c' ↔
      c.current = some (.mark m) ∧ b = true ∧ c.Passes ∧ c.forward 1 = c' ∨
        c.current ≠ some (.mark m) ∧ b = false ∧ c = c' := by
  simp only [accept, yields_bind, yields_sees, yields_ite, yields_pure]
  constructor
  · rintro ⟨_, _, ⟨rfl, rfl⟩, ⟨ht, _, _, h, rfl, rfl⟩ | ⟨ht, rfl, rfl⟩⟩
    · have ht := beq_iff_eq.mp ht
      exact .inl ⟨ht, rfl, (yields_skip ht).mp h⟩
    · exact .inr ⟨by simpa using ht, rfl, rfl⟩
  · rintro (⟨ht, rfl, h⟩ | ⟨ht, rfl, rfl⟩)
    · exact ⟨_, _, ⟨rfl, rfl⟩, .inl ⟨beq_iff_eq.mpr ht, (), c', (yields_skip ht).mpr h, rfl, rfl⟩⟩
    · exact ⟨_, _, ⟨rfl, rfl⟩, .inr ⟨by simpa using ht, rfl, rfl⟩⟩

@[simp] theorem yields_identifier {x : String × Span} :
    Yields identifier c x c' ↔
      c.current = some (.identifier x.1) ∧ c.span = x.2 ∧ c.Passes ∧ c.forward 1 = c' := by
  simp only [identifier, yields_bind, yields_take, Prod.exists, Prod.mk.injEq]
  constructor
  · rintro ⟨_, _, d, ⟨hd, rfl, rfl⟩, h⟩
    split at h
    · next name hn =>
      obtain ⟨rfl, rfl⟩ := yields_pure.mp h
      exact ⟨hn, rfl, (Cursor.advance_eq_ok_iff hn).mp hd⟩
    · exact absurd h yields_failAt
  · rintro ⟨hn, hs, h⟩
    refine ⟨_, _, c', ⟨(Cursor.advance_eq_ok_iff hn).mpr h, rfl, rfl⟩, ?_⟩
    rw [hn, hs]
    exact yields_pure.mpr ⟨rfl, rfl⟩

theorem ofToken?_eq_some_iff {t : Token} {type : DataType} :
    DataType.ofToken? t = some type ↔ t = type.token := by
  constructor
  · intro h
    unfold DataType.ofToken? at h
    split at h <;> cases h <;> rfl
  · rintro rfl
    cases type <;> rfl

@[simp] theorem yields_dataType {type : DataType} :
    Yields dataType c type c' ↔ c.current = some type.token ∧ c.Passes ∧ c.forward 1 = c' := by
  simp only [dataType, yields_bind, yields_take, Prod.exists, Prod.mk.injEq]
  constructor
  · rintro ⟨_, _, d, ⟨hd, rfl, rfl⟩, h⟩
    split at h
    · next found hn =>
      obtain ⟨rfl, rfl⟩ := yields_pure.mp h
      obtain ⟨t, ht, htype⟩ := Option.bind_eq_some_iff.mp hn
      obtain rfl := ofToken?_eq_some_iff.mp htype
      exact ⟨ht, (Cursor.advance_eq_ok_iff ht).mp hd⟩
    · exact absurd h yields_failAt
  · rintro ⟨ht, h⟩
    refine ⟨_, _, c', ⟨(Cursor.advance_eq_ok_iff ht).mpr h, rfl, rfl⟩, ?_⟩
    have htype : (some type.token).bind DataType.ofToken? = some type :=
      ofToken?_eq_some_iff.mpr rfl
    rw [ht, htype]
    exact yields_pure.mpr ⟨rfl, rfl⟩

@[simp] theorem yields_integer {spelling : String} {span : Span} {n : Nat} :
    Yields (integer spelling span) c n c' ↔
      Integer.value spelling < integerBound ∧ Integer.value spelling = n ∧ c = c' := by
  simp [integer]

theorem yields_parenthesized {item : Parser α} {as : List α} :
    Yields (parenthesized item) c as c' ↔ c.current = some (.mark .leftParen) ∧ c.Passes ∧
      ∃ d, ((c.forward 1).current = some (.mark .rightParen) ∧ [] = as ∧ c.forward 1 = d ∨
          (c.forward 1).current ≠ some (.mark .rightParen) ∧
          Yields (separated item) (c.forward 1) as d) ∧
        d.current = some (.mark .rightParen) ∧ d.Passes ∧ d.forward 1 = c' := by
  simp only [parenthesized, yields_bind, yields_expect, yields_sees, yields_ite, yields_pure]
  constructor
  · rintro ⟨_, _, ⟨ht, hp, rfl⟩, _, _, ⟨rfl, rfl⟩, ⟨hr, _, _, ⟨rfl, rfl⟩, _, _, h, rfl, rfl⟩ |
      ⟨hr, _, d, hs, _, _, h, rfl, rfl⟩⟩
    · exact ⟨ht, hp, _, .inl ⟨beq_iff_eq.mp hr, rfl, rfl⟩, h⟩
    · exact ⟨ht, hp, d, .inr ⟨by simpa using hr, hs⟩, h⟩
  · rintro ⟨ht, hp, d, ⟨hr, rfl, rfl⟩ | ⟨hr, hs⟩, h⟩
    · exact ⟨(), _, ⟨ht, hp, rfl⟩, _, _, ⟨rfl, rfl⟩, .inl ⟨beq_iff_eq.mpr hr, _, _, ⟨rfl, rfl⟩, (),
        _, h, rfl, rfl⟩⟩
    · exact ⟨(), _, ⟨ht, hp, rfl⟩, _, _, ⟨rfl, rfl⟩,
        .inr ⟨by simpa using hr, _, d, hs, (), _, h, rfl, rfl⟩⟩

end Parser

end DecafCheck
