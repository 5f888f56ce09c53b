import DecafCheck.Program.Parser.Expression
import DecafCheck.Proofs.Grammar.Concrete

namespace DecafCheck

namespace BinaryOp

theorem token_injective {a b : BinaryOp} (h : a.token = b.token) : a = b := by
  cases a <;> cases b <;> simp [token] at h ⊢

theorem stratum_lt (op : BinaryOp) : op.stratum < UnaryOp.stratum := by
  cases op <;> decide

theorem mem_strata {k : Nat} (hk : k < UnaryOp.stratum) {op : BinaryOp} :
    op ∈ strata[k] ↔ op.stratum = k := by
  cases op <;> (revert k; decide)

theorem ofToken?_eq_some_iff {k : Nat} (hk : k < UnaryOp.stratum) {t : Token} {op : BinaryOp} :
    ofToken? strata[k] t = some op ↔ op.token = t ∧ op.stratum = k := by
  rw [← mem_strata hk, ofToken?]
  constructor
  · intro h
    exact ⟨by simpa using List.find?_some h, List.mem_of_find?_eq_some h⟩
  · rintro ⟨rfl, hop⟩
    have hs : (strata[k].find? fun o => o.token == op.token).isSome :=
      List.find?_isSome.mpr ⟨op, hop, beq_self_eq_true op.token⟩
    obtain ⟨found, hf⟩ := Option.isSome_iff_exists.mp hs
    obtain rfl : found = op := token_injective (by simpa using List.find?_some hf)
    exact hf

end BinaryOp

theorem UnaryOp.token_injective {a b : UnaryOp} (h : a.token = b.token) : a = b := by
  cases a <;> cases b <;> simp [token] at h ⊢

theorem UnaryOp.ofToken?_eq_some_iff {t : Token} {op : UnaryOp} :
    UnaryOp.ofToken? t = some op ↔ op.token = t := by
  constructor
  · intro h
    unfold UnaryOp.ofToken? at h
    split at h <;> cases h <;> rfl
  · rintro rfl
    cases op <;> rfl

namespace Concrete.Expr

/-- The derivations of a stratum or a tighter one. -/
def form (k : Nat) : Form Expr DecafCheck.Expr :=
  ⟨fun e => e.Proper ∧ k ≤ e.stratum, tokens, along⟩

/-- The tokens that do not go on with an expression of a stratum. -/
def Ends (k : Nat) (t : Option Token) : Prop :=
  t ≠ some (.mark .leftParen) ∧ t ≠ some (.mark .leftBracket) ∧ ∀ op : BinaryOp, k ≤ op.stratum →
    t ≠ some op.token

theorem laterTokens_eq (es : List Expr) : laterTokens es = (form 0).later.tokens es := by
  induction es with
  | nil => rfl
  | cons e es ih =>
    rw [laterTokens, ih]
    rfl

theorem rowTokens_eq (es : List Expr) : rowTokens es = (form 0).row.tokens es := by
  cases es with
  | nil => rfl
  | cons e es =>
    rw [rowTokens, laterTokens_eq]
    rfl

theorem alongRow_eq (ls : List Lexeme) (es : List Expr) :
    alongRow ls es = (form 0).row.along ls es := by
  have hlater (ls : List Lexeme) (es : List Expr) :
      alongRow (ls.drop 1) es = (form 0).later.along ls es := by
    induction es generalizing ls with
    | nil => rfl
    | cons e es ih =>
      have hcons : (form 0).later.along ls (e :: es) =
        along (ls.drop 1) e :: (form 0).later.along (ls.drop ((tokens e).length + 1)) es := rfl
      rw [hcons, ← ih, alongRow, List.drop_drop, List.drop_drop, Nat.add_comm 1]
  cases es with
  | nil => rfl
  | cons e es =>
    have hcons : (form 0).row.along ls (e :: es) =
      along ls e :: (form 0).later.along (ls.drop (tokens e).length) es := rfl
    rw [hcons, ← hlater, alongRow, List.drop_drop]

/-- An index in brackets or nothing. -/
def index : Form (Option Expr) (Option DecafCheck.Expr) where
  Proper i := ∀ e ∈ i, (form 0).Proper e
  tokens
    | none => []
    | some e => .mark .leftBracket :: (e.tokens ++ [.mark .rightBracket])
  along ls i := i.map (along (ls.drop 1))

section Spells

variable {c c' : Cursor} {k : Nat}

theorem spells_integer (hk : k ≤ UnaryOp.stratum + 1) {spelling : String} {e : DecafCheck.Expr} :
    (form k).Spells c (.integer spelling) e c' ↔ c.current = some (.integer spelling) ∧
      Integer.value spelling < integerBound ∧ .literal (.int (Integer.value spelling)) c.span = e ∧
        c.forward 1 = c' := by
  have hproper : (Expr.integer spelling).Proper ∧ k ≤ (Expr.integer spelling).stratum ↔
      Integer.value spelling < integerBound := by
    constructor
    · rintro ⟨h, -⟩
      cases h with
      | integer h => exact h
    · intro h
      exact ⟨.integer h, hk⟩
  simp only [Form.Spells, form, hproper, along, tokens, Cursor.cons_prefix_iff, Cursor.forward_cons]
  constructor
  · rintro ⟨hp, ⟨ht, -⟩, rfl, rfl⟩
    exact ⟨ht, hp, by rw [Cursor.span_eq ht], rfl⟩
  · rintro ⟨ht, hp, rfl, rfl⟩
    exact ⟨hp, ⟨ht, List.nil_prefix⟩, by rw [Cursor.span_eq ht], rfl⟩

theorem spells_truth (hk : k ≤ UnaryOp.stratum + 1) {value : Bool} {e : DecafCheck.Expr} :
    (form k).Spells c (.truth value) e c' ↔ c.current = some (Literal.bool value).token ∧
      .literal (.bool value) c.span = e ∧ c.forward 1 = c' := by
  have hproper : (Expr.truth value).Proper ∧ k ≤ (Expr.truth value).stratum := ⟨.truth, hk⟩
  simp only [Form.Spells, form, hproper, along, tokens, Cursor.cons_prefix_iff, Cursor.forward_cons]
  constructor
  · rintro ⟨-, ⟨ht, -⟩, rfl, rfl⟩
    exact ⟨ht, by rw [Cursor.span_eq ht], rfl⟩
  · rintro ⟨ht, rfl, rfl⟩
    exact ⟨⟨trivial, trivial⟩, ⟨ht, List.nil_prefix⟩, by rw [Cursor.span_eq ht], rfl⟩

theorem spells_index_none {o : Option DecafCheck.Expr} :
    index.Spells c none o c' ↔ none = o ∧ c = c' := by
  simp [Form.Spells, index]

theorem spells_index_some {d : Expr} {o : Option DecafCheck.Expr} :
    index.Spells c (some d) o c' ↔ c.current = some (.mark .leftBracket) ∧
      ∃ e b, (form 0).Spells (c.forward 1) d e b ∧ b.current = some (.mark .rightBracket) ∧
      b.forward 1 = c' ∧ some e = o := by
  simp only [Form.Spells, index, Option.mem_some_iff, forall_eq', Cursor.cons_prefix_iff,
    Cursor.append_prefix_iff, Cursor.forward_cons, Cursor.forward_append, Option.map_some]
  constructor
  · rintro ⟨hp, ⟨ht, hd, hr, -⟩, rfl, rfl⟩
    exact ⟨ht, _, _, ⟨hp, hd, rfl, rfl⟩, hr, rfl, rfl⟩
  · rintro ⟨ht, _, _, ⟨hp, hd, rfl, rfl⟩, hr, rfl, rfl⟩
    exact ⟨hp, ⟨ht, hd, hr, List.nil_prefix⟩, rfl, rfl⟩

theorem tokens_location (name : String) (i : Option Expr) :
    tokens (.location name i) = .identifier name :: index.tokens i := by
  cases i <;> rfl

theorem along_location (name : String) (i : Option Expr) (ls : List Lexeme) :
    along ls (.location name i) =
    .location name (index.along (ls.drop 1) i)
      (Lexeme.cover ls (tokens (.location name i)).length) := by
  cases i with
  | none => rfl
  | some i => simp [along, index, tokens, -List.drop_one]

theorem spells_location (hk : k ≤ UnaryOp.stratum + 1) {name : String} {d : Option Expr}
    {e : DecafCheck.Expr} :
    (form k).Spells c (.location name d) e c' ↔ c.current = some (.identifier name) ∧
      ∃ i, index.Spells (c.forward 1) d i c' ∧ .location name i (c.span.merge c'.previous) = e := by
  have hproper : (Expr.location name d).Proper ∧ k ≤ (Expr.location name d).stratum ↔
      index.Proper d := by
    simp only [index, form, Nat.zero_le, and_true]
    constructor
    · rintro ⟨h, -⟩
      cases h with
      | location h => exact h
    · intro h
      exact ⟨.location h, hk⟩
  exact Form.spells_iff_led (DecafCheck.Expr.location name) hproper (tokens_location name d)
    (along_location name d)

theorem tokens_call (name : String) (ds : List Expr) :
    tokens (.call name ds) = .identifier name :: (form 0).parenthesized.tokens ds := by
  rw [tokens, rowTokens_eq]
  rfl

theorem along_call (name : String) (ds : List Expr) (ls : List Lexeme) : along ls (.call name ds) =
    .call name ((form 0).parenthesized.along (ls.drop 1) ds)
      (Lexeme.cover ls (tokens (.call name ds)).length) := by
  rw [along, alongRow_eq]
  simp [Form.parenthesized, tokens, -List.drop_one]

theorem spells_call (hk : k ≤ UnaryOp.stratum + 1) {name : String} {ds : List Expr}
    {e : DecafCheck.Expr} :
    (form k).Spells c (.call name ds) e c' ↔ c.current = some (.identifier name) ∧
      ∃ as, (form 0).parenthesized.Spells (c.forward 1) ds as c' ∧
      .call name as (c.span.merge c'.previous) = e := by
  have hproper : (Expr.call name ds).Proper ∧ k ≤ (Expr.call name ds).stratum ↔
      (form 0).parenthesized.Proper ds := by
    simp only [Form.parenthesized, Form.row, form, Nat.zero_le, and_true]
    constructor
    · rintro ⟨h, -⟩
      cases h with
      | call h => exact h
    · intro h
      exact ⟨.call h, hk⟩
  exact Form.spells_iff_led (DecafCheck.Expr.call name) hproper (tokens_call name ds)
    (along_call name ds)

theorem tokens_group (e : Expr) :
    tokens (.group e) = .mark .leftParen :: (tokens e ++ [.mark .rightParen]) := rfl

theorem spells_group (hk : k ≤ UnaryOp.stratum + 1) {d : Expr} {e : DecafCheck.Expr} :
    (form k).Spells c (.group d) e c' ↔ c.current = some (.mark .leftParen) ∧
      ∃ b, (form 0).Spells (c.forward 1) d e b ∧ b.current = some (.mark .rightParen) ∧
      b.forward 1 = c' := by
  have hproper : (Expr.group d).Proper ∧ k ≤ (Expr.group d).stratum ↔ d.Proper ∧ 0 ≤ d.stratum := by
    constructor
    · rintro ⟨h, -⟩
      cases h with
      | group h => exact ⟨h, Nat.zero_le _⟩
    · rintro ⟨h, -⟩
      exact ⟨.group h, hk⟩
  simp only [Form.Spells, form, hproper, along, tokens, Cursor.cons_prefix_iff,
    Cursor.append_prefix_iff, Cursor.forward_cons, Cursor.forward_append]
  constructor
  · rintro ⟨hp, ⟨ht, hd, hr, -⟩, rfl, rfl⟩
    exact ⟨ht, _, ⟨hp, hd, rfl, rfl⟩, hr, rfl⟩
  · rintro ⟨ht, _, ⟨hp, hd, rfl, rfl⟩, hr, rfl⟩
    exact ⟨hp, ⟨ht, hd, hr, List.nil_prefix⟩, rfl, rfl⟩

theorem spells_unary (hk : k ≤ UnaryOp.stratum) {op : UnaryOp} {d : Expr} {e : DecafCheck.Expr} :
    (form k).Spells c (.unary op d) e c' ↔ c.current = some op.token ∧
      ∃ x, (form UnaryOp.stratum).Spells (c.forward 1) d x c' ∧
      .unary op x (c.span.merge x.span) = e := by
  have hproper : (Expr.unary op d).Proper ∧ k ≤ (Expr.unary op d).stratum ↔
      d.Proper ∧ UnaryOp.stratum ≤ d.stratum := by
    constructor
    · rintro ⟨h, -⟩
      cases h with
      | unary hs h => exact ⟨h, hs⟩
    · rintro ⟨h, hs⟩
      exact ⟨.unary hs h, hk⟩
  simp only [Form.Spells, form, hproper, along, tokens, Cursor.cons_prefix_iff, Cursor.forward_cons]
  constructor
  · rintro ⟨hp, ⟨ht, hd⟩, rfl, rfl⟩
    exact ⟨ht, _, ⟨hp, hd, rfl, rfl⟩, by rw [Cursor.span_eq ht]; rfl⟩
  · rintro ⟨ht, _, ⟨hp, hd, rfl, rfl⟩, rfl⟩
    exact ⟨hp, ⟨ht, hd⟩, by rw [Cursor.span_eq ht]; rfl, rfl⟩

end Spells

theorem ends_mark {k : Nat} {m : Mark}
    (hm : m ∈ [Mark.rightParen, .rightBracket, .comma, .semicolon, .assign]) :
    Ends k (some (.mark m)) := by
  refine ⟨?_, ?_, fun op _ => ?_⟩
  · rintro ⟨⟩
    revert hm
    decide
  · rintro ⟨⟩
    revert hm
    decide
  · intro h
    cases op <;> (cases h; revert hm; decide)

/-- The tokens that begin expressions. -/
def begins : Token → Bool
  | .integer _ | .identifier _ => true
  | .keyword .true_ | .keyword .false_ => true
  | .mark .leftParen | .mark .minus | .mark .not => true
  | _ => false

theorem starts (k : Nat) : (form k).Starts fun t => begins t = true := by
  rintro d ⟨hd, -⟩
  induction hd with
  | integer _ => exact ⟨_, _, rfl, rfl⟩
  | @truth value => exact ⟨_, _, rfl, by cases value <;> rfl⟩
  | @location name index _ _ => exact ⟨_, _, tokens_location name index, rfl⟩
  | call _ _ => exact ⟨_, _, rfl, rfl⟩
  | group _ _ => exact ⟨_, _, rfl, rfl⟩
  | @unary op operand _ _ _ => exact ⟨_, _, rfl, by cases op <;> rfl⟩
  | @binary op left right _ _ _ _ ih _ =>
    obtain ⟨t, ts, ht, hb⟩ := ih
    exact ⟨t, ts ++ op.token :: right.tokens, by simp only [form, tokens] at ht ⊢; rw [ht]; rfl, hb⟩

section Primary

open DecafCheck.Parser

variable {E : Parser DecafCheck.Expr} {bound : Nat}

theorem reads_index (h : (form 0).Reads E (Ends 0) bound) :
    index.Reads (index? E) (· ≠ some (.mark .leftBracket)) (bound + 1) := by
  constructor
  · intro c c' o hy
    simp only [index?, yields_bind, yields_accept, yields_ite, yields_expect, yields_pure] at hy
    obtain ⟨b, _, ⟨ht, rfl, -, rfl⟩ | ⟨ht, rfl, rfl⟩, hy⟩ := hy
    · obtain ⟨-, e, _, he, _, _, ⟨hr, -, rfl⟩, rfl, rfl⟩ | ⟨hf, -⟩ := hy
      · obtain ⟨d, hd⟩ := h.sound he
        exact ⟨some d, spells_index_some.mpr ⟨ht, e, _, hd, hr, rfl, rfl⟩⟩
      · exact absurd rfl hf
    · obtain ⟨hf, -⟩ | ⟨-, rfl, rfl⟩ := hy
      · cases hf
      · exact ⟨none, spells_index_none.mpr ⟨rfl, rfl⟩⟩
  · intro c c' d o hc hb hd hn
    simp only [index?, yields_bind, yields_accept, yields_ite, yields_expect, yields_pure]
    cases d with
    | none =>
      obtain ⟨rfl, rfl⟩ := spells_index_none.mp hd
      exact ⟨false, c, .inr ⟨hn, rfl, rfl⟩, .inr ⟨Bool.false_ne_true, rfl, rfl⟩⟩
    | some d =>
      obtain ⟨ht, e, b, hi, hr, rfl, rfl⟩ := spells_index_some.mp hd
      have hshort := Cursor.length_forward_lt ht
      have he := h.complete hc.forward (by omega) hi (hr ▸ ends_mark (by decide))
      exact ⟨true, _, .inl ⟨ht, rfl, hc.passes, rfl⟩,
        .inl ⟨rfl, e, b, he, (), _, ⟨hr, (hi.clean hc).passes, rfl⟩, rfl, rfl⟩⟩

theorem starts_argument : (form 0).Starts fun t => t ≠ .mark .rightParen := by
  intro d hd
  obtain ⟨t, ts, ht, hb⟩ := starts 0 d hd
  refine ⟨t, ts, ht, ?_⟩
  rintro rfl
  cases hb

theorem reads_arguments (h : (form 0).Reads E (Ends 0) bound) :
    (form 0).parenthesized.Reads (parenthesized E) (fun _ => True) (bound + 1) :=
  Form.reads_parenthesized h (ends_mark (by decide)) (ends_mark (by decide)) starts_argument

theorem reference_sound (h : (form 0).Reads E (Ends 0) bound) {c c' : Cursor} {e : DecafCheck.Expr}
    (hy : (reference E).Yields c e c') : ∃ d, (form (UnaryOp.stratum + 1)).Spells c d e c' := by
  simp only [reference, yields_bind, yields_identifier, yields_sees, yields_ite, yields_spanFrom,
    yields_pure] at hy
  obtain ⟨⟨name, _⟩, _, ⟨ht, rfl, -, rfl⟩, _, _, ⟨rfl, rfl⟩, hy⟩ := hy
  rcases hy with ⟨-, as, _, has, _, _, ⟨rfl, rfl⟩, rfl, rfl⟩ |
    ⟨-, i, _, hi, _, _, ⟨rfl, rfl⟩, rfl, rfl⟩
  · obtain ⟨ds, hds⟩ := (reads_arguments h).sound has
    exact ⟨.call name ds, (spells_call le_rfl).mpr ⟨ht, as, hds, rfl⟩⟩
  · obtain ⟨d, hd⟩ := (reads_index h).sound hi
    exact ⟨.location name d, (spells_location le_rfl).mpr ⟨ht, i, hd, rfl⟩⟩

theorem reference_call (h : (form 0).Reads E (Ends 0) bound) {c c' : Cursor} {name : String}
    {ds : List Expr} {e : DecafCheck.Expr} (hc : c.Clean) (hb : c.tokens.length < bound + 1)
    (hs : (form (UnaryOp.stratum + 1)).Spells c (.call name ds) e c') :
    (reference E).Yields c e c' := by
  obtain ⟨ht, as, hds, rfl⟩ := (spells_call le_rfl).mp hs
  have hshort := Cursor.length_forward_lt ht
  have hopen := (Form.spells_parenthesized.mp hds).1
  have has := (reads_arguments h).complete hc.forward (by omega) hds trivial
  simp only [reference, yields_bind, yields_identifier, yields_sees, yields_ite,
    yields_spanFrom, yields_pure]
  exact ⟨(name, c.span), _, ⟨ht, rfl, hc.passes, rfl⟩, _, _, ⟨rfl, rfl⟩,
    .inl ⟨beq_iff_eq.mpr hopen, as, c', has, _, _, ⟨rfl, rfl⟩, rfl, rfl⟩⟩

theorem reference_location (h : (form 0).Reads E (Ends 0) bound) {c c' : Cursor} {name : String}
    {d : Option Expr} {e : DecafCheck.Expr} (hc : c.Clean) (hb : c.tokens.length < bound + 1)
    (hs : (form (UnaryOp.stratum + 1)).Spells c (.location name d) e c') {k : Nat}
    (he : Ends k c'.current) :
    (reference E).Yields c e c' := by
  obtain ⟨ht, i, hd, rfl⟩ := (spells_location le_rfl).mp hs
  have hshort := Cursor.length_forward_lt ht
  have hi := (reads_index h).complete hc.forward (by omega) hd he.2.1
  -- Behind the name is the bracket of an index or, without one, what ends the expression.
  have hopen : (c.forward 1).current ≠ some (.mark .leftParen) := by
    cases d with
    | none =>
      obtain ⟨-, rfl⟩ := spells_index_none.mp hd
      exact he.1
    | some d =>
      rw [(spells_index_some.mp hd).1]
      decide
  simp only [reference, yields_bind, yields_identifier, yields_sees, yields_ite,
    yields_spanFrom, yields_pure]
  exact ⟨(name, c.span), _, ⟨ht, rfl, hc.passes, rfl⟩, _, _, ⟨rfl, rfl⟩,
    .inr ⟨by simpa using hopen, i, c', hi, _, _, ⟨rfl, rfl⟩, rfl, rfl⟩⟩

theorem primary_sound (h : (form 0).Reads E (Ends 0) bound) {c c' : Cursor} {e : DecafCheck.Expr}
    (hy : (primary E).Yields c e c') : ∃ d, (form (UnaryOp.stratum + 1)).Spells c d e c' := by
  simp only [primary, yields_bind, yields_currentSpan, yields_current] at hy
  obtain ⟨_, _, ⟨rfl, rfl⟩, _, _, ⟨rfl, rfl⟩, hy⟩ := hy
  split at hy
  · next spelling ht =>
    simp only [yields_bind, yields_integer, yields_pure] at hy
    obtain ⟨_, _, ⟨hlt, rfl, rfl⟩, _, _, hs, rfl, rfl⟩ := hy
    exact ⟨.integer spelling, (spells_integer le_rfl).mpr
      ⟨ht, hlt, rfl, ((yields_skip ht).mp hs).2⟩⟩
  · next ht =>
    simp only [yields_bind, yields_pure] at hy
    obtain ⟨_, _, hs, rfl, rfl⟩ := hy
    exact ⟨.truth true, (spells_truth le_rfl).mpr ⟨ht, rfl, ((yields_skip ht).mp hs).2⟩⟩
  · next ht =>
    simp only [yields_bind, yields_pure] at hy
    obtain ⟨_, _, hs, rfl, rfl⟩ := hy
    exact ⟨.truth false, (spells_truth le_rfl).mpr ⟨ht, rfl, ((yields_skip ht).mp hs).2⟩⟩
  · exact reference_sound h hy
  · next ht =>
    simp only [yields_bind, yields_expect, yields_pure] at hy
    obtain ⟨_, _, hs, e, b, he, _, _, ⟨hr, -, rfl⟩, rfl, rfl⟩ := hy
    obtain ⟨-, rfl⟩ := (yields_skip ht).mp hs
    obtain ⟨d, hd⟩ := h.sound he
    exact ⟨.group d, (spells_group le_rfl).mpr ⟨ht, b, hd, hr, rfl⟩⟩
  · exact absurd hy yields_fail

theorem primary_complete (h : (form 0).Reads E (Ends 0) bound) {c c' : Cursor} {d : Expr}
    {e : DecafCheck.Expr} (hc : c.Clean) (hb : c.tokens.length < bound + 1)
    (hs : (form (UnaryOp.stratum + 1)).Spells c d e c')
    (he : Ends (UnaryOp.stratum + 1) c'.current) : (primary E).Yields c e c' := by
  simp only [primary, yields_bind, yields_currentSpan, yields_current]
  refine ⟨_, _, ⟨rfl, rfl⟩, _, _, ⟨rfl, rfl⟩, ?_⟩
  cases d with
  | integer spelling =>
    obtain ⟨ht, hlt, rfl, rfl⟩ := (spells_integer le_rfl).mp hs
    simp only [ht, yields_bind, yields_integer, yields_pure]
    exact ⟨_, _, ⟨hlt, rfl, rfl⟩, (), _, (yields_skip ht).mpr ⟨hc.passes, rfl⟩, rfl, rfl⟩
  | truth value =>
    obtain ⟨ht, rfl, rfl⟩ := (spells_truth le_rfl).mp hs
    cases value <;> simp only [ht, Literal.token, yields_bind, yields_pure] <;>
      exact ⟨(), _, (yields_skip ht).mpr ⟨hc.passes, rfl⟩, trivial, rfl⟩
  | location name d =>
    have ht := ((spells_location le_rfl).mp hs).1
    simp only [ht]
    exact reference_location h hc hb hs he
  | call name ds =>
    have ht := ((spells_call le_rfl).mp hs).1
    simp only [ht]
    exact reference_call h hc hb hs
  | group d =>
    obtain ⟨ht, b, hd, hr, rfl⟩ := (spells_group le_rfl).mp hs
    have hshort := Cursor.length_forward_lt ht
    have hinner := h.complete hc.forward (by omega) hd (hr ▸ ends_mark (by decide))
    simp only [ht, yields_bind, yields_expect, yields_pure]
    exact ⟨(), _, (yields_skip ht).mpr ⟨hc.passes, rfl⟩, e, b, hinner, (), _,
      ⟨hr, (hd.clean hc).passes, rfl⟩, rfl, rfl⟩
  | unary op d => exact absurd hs.1.2 (Nat.not_succ_le_self _)
  | binary op l r => exact absurd hs.1.2 (Nat.not_le_of_lt (Nat.lt_succ_of_lt op.stratum_lt))

theorem reads_primary (h : (form 0).Reads E (Ends 0) bound) :
    (form (UnaryOp.stratum + 1)).Reads (primary E) (Ends (UnaryOp.stratum + 1)) (bound + 1) :=
  ⟨primary_sound h, primary_complete h⟩

end Primary

/-- A unary operator by itself. -/
def signForm : Form UnaryOp (UnaryOp × Span) where
  Proper _ := True
  tokens op := [op.token]
  along ls op := (op, Lexeme.spanAt ls 0)

section Unary

open DecafCheck.Parser

variable {E : Parser DecafCheck.Expr} {bound : Nat} {c c' : Cursor}

theorem spells_sign {op : UnaryOp} {x : UnaryOp × Span} :
    signForm.Spells c op x c' ↔ c.current = some op.token ∧ (op, c.span) = x ∧
      c.forward 1 = c' := by
  simp only [Form.Spells, signForm, Cursor.cons_prefix_iff, Cursor.forward_cons, true_and]
  constructor
  · rintro ⟨⟨ht, -⟩, rfl, rfl⟩
    exact ⟨ht, by rw [Cursor.span_eq ht], rfl⟩
  · rintro ⟨ht, rfl, rfl⟩
    exact ⟨⟨ht, List.nil_prefix⟩, by rw [Cursor.span_eq ht], rfl⟩

theorem reads_sign (bound : Nat) : signForm.Reads sign (fun _ => True) bound := by
  constructor
  · intro c c' x hy
    simp only [sign, yields_bind, yields_take, Prod.exists, Prod.mk.injEq] at hy
    obtain ⟨_, _, d, ⟨hd, rfl, rfl⟩, hy⟩ := hy
    split at hy
    · next op hop =>
      obtain ⟨rfl, rfl⟩ := yields_pure.mp hy
      obtain ⟨t, ht, htoken⟩ := Option.bind_eq_some_iff.mp hop
      obtain rfl := UnaryOp.ofToken?_eq_some_iff.mp htoken
      exact ⟨op, spells_sign.mpr ⟨ht, rfl, ((Cursor.advance_eq_ok_iff ht).mp hd).2⟩⟩
    · exact absurd hy yields_failAt
  · intro c c' op x hc _ hs _
    obtain ⟨ht, rfl, rfl⟩ := spells_sign.mp hs
    have htoken : (some op.token).bind UnaryOp.ofToken? = some op :=
      UnaryOp.ofToken?_eq_some_iff.mpr rfl
    simp only [sign, yields_bind, yields_take, Prod.exists, Prod.mk.injEq]
    refine ⟨_, _, _, ⟨(Cursor.advance_eq_ok_iff ht).mpr ⟨hc.passes, rfl⟩, rfl, rfl⟩, ?_⟩
    rw [ht, htoken]
    exact yields_pure.mpr ⟨rfl, rfl⟩

theorem spells_signs {ops : List UnaryOp} {d : Expr} {e : DecafCheck.Expr} :
    (form UnaryOp.stratum).Spells c (ops.foldr .unary d) e c' ↔
      ∃ signs b x, signForm.many.Spells c ops signs b ∧
      (form UnaryOp.stratum).Spells b d x c' ∧
        signs.foldr (fun s e => .unary s.1 e (s.2.merge e.span)) x = e := by
  induction ops generalizing c e with
  | nil => simp [Form.spells_nil]
  | cons op ops ih =>
    simp only [List.foldr_cons, spells_unary le_rfl, ih, Form.spells_cons, spells_sign]
    constructor
    · rintro ⟨ht, _, ⟨signs, b, x, hs, hd, rfl⟩, rfl⟩
      exact ⟨_, b, x, ⟨_, _, signs, ⟨ht, rfl, rfl⟩, hs, rfl⟩, hd, rfl⟩
    · rintro ⟨_, b, x, ⟨_, _, signs, ⟨ht, rfl, rfl⟩, hs, rfl⟩, hd, rfl⟩
      exact ⟨ht, _, ⟨signs, b, x, hs, hd, rfl⟩, rfl⟩

/-- A derivation of the unary stratum is a primary one behind operators. -/
theorem exists_signs {d : Expr} (hd : (form UnaryOp.stratum).Proper d) :
    ∃ (ops : List UnaryOp) (p : Expr), d = ops.foldr .unary p ∧
      (form (UnaryOp.stratum + 1)).Proper p := by
  obtain ⟨hd, hs⟩ := hd
  induction hd with
  | @unary op operand hs' _ ih =>
    obtain ⟨ops, p, rfl, hp⟩ := ih hs'
    exact ⟨op :: ops, p, rfl, hp⟩
  | @binary op left right => exact absurd hs (Nat.not_le_of_lt op.stratum_lt)
  | integer h => exact ⟨[], _, rfl, .integer h, le_rfl⟩
  | truth => exact ⟨[], _, rfl, .truth, le_rfl⟩
  | location h => exact ⟨[], _, rfl, .location h, le_rfl⟩
  | call h => exact ⟨[], _, rfl, .call h, le_rfl⟩
  | group h => exact ⟨[], _, rfl, .group h, le_rfl⟩

theorem spells_of_le {j k : Nat} (hjk : j ≤ k) {d : Expr} {e : DecafCheck.Expr}
    (h : (form k).Spells c d e c') :
    (form j).Spells c d e c' :=
  ⟨⟨h.1.1, hjk.trans h.1.2⟩, h.2⟩

theorem starts_primary :
    (form (UnaryOp.stratum + 1)).Starts fun t => UnaryOp.ofToken? t = none := by
  rintro d ⟨hd, hs⟩
  cases hd with
  | integer _ => exact ⟨_, _, rfl, rfl⟩
  | @truth value => exact ⟨_, _, rfl, by cases value <;> rfl⟩
  | @location name index _ => exact ⟨_, _, tokens_location name index, rfl⟩
  | call _ => exact ⟨_, _, rfl, rfl⟩
  | group _ => exact ⟨_, _, rfl, rfl⟩
  | unary _ _ => exact absurd hs (Nat.not_succ_le_self _)
  | @binary op left right => exact absurd hs (Nat.not_le_of_lt (Nat.lt_succ_of_lt op.stratum_lt))

theorem starts_sign :
    signForm.Starts fun t => ((some t).bind UnaryOp.ofToken?).isSome = true ∧
      (fun _ => True) (some t) := by
  intro op _
  exact ⟨_, _, rfl, by cases op <;> rfl, trivial⟩

theorem reads_unary (h : (form 0).Reads E (Ends 0) bound) :
    (form UnaryOp.stratum).Reads (Parser.unary E) (Ends UnaryOp.stratum) (bound + 1) := by
  have hsigns : signForm.many.Reads (many (fun t => (t.bind UnaryOp.ofToken?).isSome) sign)
      (fun t => True ∧ (t.bind UnaryOp.ofToken?).isSome = false) (bound + 1) := by
    exact Form.reads_many (fun _ => (reads_sign (bound + 1)).sound)
      (reads_sign (bound + 1)).complete starts_sign
  constructor
  · intro c c' e hy
    simp only [Parser.unary, yields_bind, yields_pure] at hy
    obtain ⟨signs, b, hs, x, _, hx, rfl, rfl⟩ := hy
    obtain ⟨ops, hops⟩ := hsigns.sound hs
    obtain ⟨d, hd⟩ := (reads_primary h).sound hx
    exact ⟨ops.foldr .unary d,
      spells_signs.mpr ⟨signs, b, x, hops, spells_of_le (Nat.le_succ _) hd, rfl⟩⟩
  · intro c c' d e hc hb hs he
    obtain ⟨ops, p, rfl, hp⟩ := exists_signs hs.1
    obtain ⟨signs, b, x, hops, hx, rfl⟩ := spells_signs.mp hs
    have hx : (form (UnaryOp.stratum + 1)).Spells b p x c' := ⟨hp, hx.2⟩
    obtain ⟨t, ht, hfirst⟩ := hx.current starts_primary
    have hlength := hops.length
    simp only [Parser.unary, yields_bind, yields_pure]
    refine ⟨signs, b, hsigns.complete hc hb hops ⟨trivial, ?_⟩, x, c', ?_, rfl, rfl⟩
    · simp [ht, hfirst]
    · refine (reads_primary h).complete (hops.clean hc) (by omega) hx
        ⟨he.1, he.2.1, fun op hop => ?_⟩
      exact absurd hop (Nat.not_le_of_lt (Nat.lt_succ_of_lt op.stratum_lt))

end Unary

/-- An operator of a stratum and what stands to its right. -/
def rightForm (k : Nat) : Form (BinaryOp × Expr) (BinaryOp × DecafCheck.Expr) where
  Proper x := x.1.stratum = k ∧ (form (k + 1)).Proper x.2
  tokens x := x.1.token :: x.2.tokens
  along ls x := (x.1, x.2.along (ls.drop 1))

/-- Operands joined from left to right. -/
def chain (first : Expr) (rest : List (BinaryOp × Expr)) : Expr :=
  rest.foldl (fun left x => .binary x.1 left x.2) first

section Binary

open DecafCheck.Parser

variable {operand : Parser DecafCheck.Expr} {bound k : Nat} {c c' : Cursor}

theorem spells_right {x : BinaryOp × Expr} {y : BinaryOp × DecafCheck.Expr} :
    (rightForm k).Spells c x y c' ↔ x.1.stratum = k ∧ c.current = some x.1.token ∧
      ∃ e, (form (k + 1)).Spells (c.forward 1) x.2 e c' ∧ (x.1, e) = y := by
  simp only [Form.Spells, rightForm, form, Cursor.cons_prefix_iff, Cursor.forward_cons]
  constructor
  · rintro ⟨⟨hk, hp⟩, ⟨ht, hx⟩, rfl, rfl⟩
    exact ⟨hk, ht, _, ⟨hp, hx, rfl, rfl⟩, rfl⟩
  · rintro ⟨hk, ht, _, ⟨hp, hx, rfl, rfl⟩, rfl⟩
    exact ⟨⟨hk, hp⟩, ⟨ht, hx⟩, rfl, rfl⟩

theorem spells_binary {x : BinaryOp × Expr} {left : Expr} {e : DecafCheck.Expr}
    (hx : x.1.stratum = k) :
    (form k).Spells c (.binary x.1 left x.2) e c' ↔ ∃ a b y, (form k).Spells c left a b ∧
      (rightForm k).Spells b x y c' ∧ .binary y.1 a y.2 (a.span.merge y.2.span) = e := by
  obtain ⟨op, right⟩ := x
  subst hx
  have hproper : (Expr.binary op left right).Proper ∧
      op.stratum ≤ (Expr.binary op left right).stratum ↔
      (left.Proper ∧ op.stratum ≤ left.stratum) ∧ right.Proper ∧
      op.stratum + 1 ≤ right.stratum := by
    constructor
    · rintro ⟨h, -⟩
      cases h with
      | binary hl hr hleft hright => exact ⟨⟨hleft, hl⟩, hright, hr⟩
    · rintro ⟨⟨hleft, hl⟩, hright, hr⟩
      exact ⟨.binary hl hr hleft hright, le_rfl⟩
  simp only [spells_right]
  simp only [Form.Spells, form, hproper, along, tokens, Cursor.cons_prefix_iff,
    Cursor.append_prefix_iff, Cursor.forward_cons, Cursor.forward_append]
  constructor
  · rintro ⟨⟨hl, hr⟩, ⟨htl, ht, htr⟩, rfl, rfl⟩
    refine ⟨_, _, _, ⟨hl, htl, rfl, rfl⟩, ⟨trivial, ht, _, ⟨hr, htr, rfl, rfl⟩, rfl⟩, ?_⟩
    simp only [Cursor.ahead_forward, List.drop_drop]
  · rintro ⟨_, _, _, ⟨hl, htl, rfl, rfl⟩, ⟨-, ht, _, ⟨hr, htr, rfl, rfl⟩, rfl⟩, rfl⟩
    refine ⟨⟨hl, hr⟩, ⟨htl, ht, htr⟩, ?_, rfl⟩
    simp only [Cursor.ahead_forward, List.drop_drop]

theorem spells_chain {first : Expr} {rest : List (BinaryOp × Expr)}
    (hrest : (rightForm k).many.Proper rest) {e : DecafCheck.Expr} :
    (form k).Spells c (chain first rest) e c' ↔ ∃ a b ys, (form k).Spells c first a b ∧
      (rightForm k).many.Spells b rest ys c' ∧
        ys.foldl (fun left y => .binary y.1 left y.2 (left.span.merge y.2.span)) a = e := by
  induction rest generalizing first with
  | nil => simp [chain, Form.spells_nil]
  | cons x rest ih =>
    have hx := (hrest x List.mem_cons_self).1
    have hchain : chain first (x :: rest) = chain (.binary x.1 first x.2) rest := rfl
    rw [hchain, ih fun y hy => hrest y (List.mem_cons_of_mem x hy)]
    simp only [spells_binary hx, Form.spells_cons]
    constructor
    · rintro ⟨_, b, ys, ⟨a, d, y, hf, hy, rfl⟩, hys, rfl⟩
      exact ⟨a, d, y :: ys, hf, ⟨y, b, ys, hy, hys, rfl⟩, rfl⟩
    · rintro ⟨a, d, _, hf, ⟨y, b, ys, hy, hys, rfl⟩, rfl⟩
      exact ⟨_, b, ys, ⟨a, d, y, hf, hy, rfl⟩, hys, rfl⟩

/-- A derivation of a stratum is a chain of derivations of tighter ones. -/
theorem exists_chain (hk : k < UnaryOp.stratum) {d : Expr} (hd : (form k).Proper d) : ∃ first rest,
    d = chain first rest ∧ (form (k + 1)).Proper first ∧ (rightForm k).many.Proper rest := by
  have hsingle {d : Expr} (hd : (form (k + 1)).Proper d) : ∃ first rest, d = chain first rest ∧
      (form (k + 1)).Proper first ∧ (rightForm k).many.Proper rest :=
    ⟨d, [], rfl, hd, fun _ h => absurd h List.not_mem_nil⟩
  obtain ⟨hd, hs⟩ := hd
  induction hd with
  | @binary op left right hl hr hleft hright ih _ =>
    rcases Nat.lt_or_eq_of_le hs with hlt | rfl
    · exact hsingle ⟨.binary hl hr hleft hright, hlt⟩
    · obtain ⟨first, rest, rfl, hf, hrest⟩ := ih hl
      refine ⟨first, rest ++ [(op, right)], ?_, hf, ?_⟩
      · simp [chain]
      · intro x hx
        rcases List.mem_append.mp hx with hx | hx
        · exact hrest x hx
        · obtain rfl := List.mem_singleton.mp hx
          exact ⟨rfl, hright, hr⟩
  | unary ho hd => exact hsingle ⟨.unary ho hd, hk⟩
  | integer h => exact hsingle ⟨.integer h, Nat.le_succ_of_le hk⟩
  | truth => exact hsingle ⟨.truth, Nat.le_succ_of_le hk⟩
  | location h => exact hsingle ⟨.location h, Nat.le_succ_of_le hk⟩
  | call h => exact hsingle ⟨.call h, Nat.le_succ_of_le hk⟩
  | group h => exact hsingle ⟨.group h, Nat.le_succ_of_le hk⟩

theorem ends_iff (hk : k < UnaryOp.stratum) {t : Option Token} :
    Ends k t ↔ Ends (k + 1) t ∧ (t.bind (BinaryOp.ofToken? BinaryOp.strata[k])).isSome = false := by
  have hnone : (t.bind (BinaryOp.ofToken? BinaryOp.strata[k])).isSome = false ↔
      ∀ op : BinaryOp, op.stratum = k → t ≠ some op.token := by
    rw [Option.isSome_eq_false_iff, Option.isNone_iff_eq_none, Option.eq_none_iff_forall_ne_some]
    constructor
    · rintro h op hop rfl
      exact h op ((BinaryOp.ofToken?_eq_some_iff hk).mpr ⟨rfl, hop⟩)
    · intro h op hop
      obtain ⟨u, rfl, hu⟩ := Option.bind_eq_some_iff.mp hop
      obtain ⟨rfl, hs⟩ := (BinaryOp.ofToken?_eq_some_iff hk).mp hu
      exact h op hs rfl
  rw [hnone]
  constructor
  · rintro ⟨hp, hb, hop⟩
    exact ⟨⟨hp, hb, fun op h => hop op (Nat.le_of_succ_le h)⟩, fun op h => hop op h.ge⟩
  · rintro ⟨⟨hp, hb, hop⟩, hk⟩
    refine ⟨hp, hb, fun op h => ?_⟩
    rcases Nat.lt_or_eq_of_le h with hlt | heq
    · exact hop op hlt
    · exact hk op heq.symm

theorem starts_right (hk : k < UnaryOp.stratum) : (rightForm k).Starts fun t =>
    ((some t).bind (BinaryOp.ofToken? BinaryOp.strata[k])).isSome = true ∧
      Ends (k + 1) (some t) := by
  rintro ⟨op, right⟩ ⟨hop, -⟩
  refine ⟨op.token, right.tokens, rfl, ?_, ?_, ?_, ?_⟩
  · have htoken := (BinaryOp.ofToken?_eq_some_iff hk).mpr ⟨rfl, hop⟩
    rw [Option.bind_some, htoken]
    rfl
  · cases op <;> simp [BinaryOp.token]
  · cases op <;> simp [BinaryOp.token]
  · intro op' hop' h
    obtain rfl := BinaryOp.token_injective (Option.some.inj h)
    exact absurd hop' (hop ▸ Nat.not_succ_le_self _)

theorem reads_right (hk : k < UnaryOp.stratum)
    (h : (form (k + 1)).Reads operand (Ends (k + 1)) bound) :
    (rightForm k).Reads (rightSide BinaryOp.strata[k] operand) (Ends (k + 1)) bound := by
  constructor
  · intro c c' y hy
    simp only [rightSide, yields_bind, yields_take, Prod.exists, Prod.mk.injEq] at hy
    obtain ⟨_, _, b, ⟨hb, rfl, rfl⟩, hy⟩ := hy
    split at hy
    · next op hop =>
      obtain ⟨t, ht, htoken⟩ := Option.bind_eq_some_iff.mp hop
      obtain ⟨rfl, hs⟩ := (BinaryOp.ofToken?_eq_some_iff hk).mp htoken
      obtain ⟨-, rfl⟩ := (Cursor.advance_eq_ok_iff ht).mp hb
      obtain ⟨e, _, he, hy⟩ := yields_bind.mp hy
      obtain ⟨rfl, rfl⟩ := yields_pure.mp hy
      obtain ⟨d, hd⟩ := h.sound he
      exact ⟨(op, d), spells_right.mpr ⟨hs, ht, e, hd, rfl⟩⟩
    · exact absurd hy yields_failAt
  · rintro c c' ⟨op, d⟩ y hc hb hs he
    obtain ⟨hop, ht, e, hd, rfl⟩ := spells_right.mp hs
    have hshort := Cursor.length_forward_lt ht
    have htoken : (some op.token).bind (BinaryOp.ofToken? BinaryOp.strata[k]) = some op :=
      (BinaryOp.ofToken?_eq_some_iff hk).mpr ⟨rfl, hop⟩
    have hright := h.complete hc.forward (by omega) hd he
    simp only [rightSide, yields_bind, yields_take, Prod.exists, Prod.mk.injEq]
    refine ⟨_, _, _, ⟨(Cursor.advance_eq_ok_iff ht).mpr ⟨hc.passes, rfl⟩, rfl, rfl⟩, ?_⟩
    rw [ht, htoken]
    exact yields_bind.mpr ⟨e, c', hright, yields_pure.mpr ⟨rfl, rfl⟩⟩

theorem reads_binary (h : (form UnaryOp.stratum).Reads operand (Ends UnaryOp.stratum) bound)
    {j : Nat} (hj : k + j = UnaryOp.stratum) :
    (form k).Reads (Parser.binary operand (BinaryOp.strata.drop k)) (Ends k) bound := by
  -- From the tightest stratum outwards.
  induction j generalizing k with
  | zero =>
    obtain rfl : k = UnaryOp.stratum := hj
    exact h
  | succ j ih =>
    have hk : k < UnaryOp.stratum := by omega
    have hfirst := ih (k := k + 1) (by omega)
    have hright := reads_right hk hfirst
    have hrest : (rightForm k).many.Reads
        (many (fun t => (t.bind (BinaryOp.ofToken? BinaryOp.strata[k])).isSome)
          (rightSide BinaryOp.strata[k] (Parser.binary operand (BinaryOp.strata.drop (k + 1)))))
        (fun t => Ends (k + 1) t ∧ (t.bind (BinaryOp.ofToken? BinaryOp.strata[k])).isSome = false)
        bound :=
      Form.reads_many (fun _ => hright.sound) hright.complete (starts_right hk)
    rw [List.drop_eq_getElem_cons hk]
    constructor
    · intro c c' e hy
      simp only [Parser.binary, yields_bind, yields_pure] at hy
      obtain ⟨a, b, ha, ys, _, hys, rfl, rfl⟩ := hy
      obtain ⟨first, hf⟩ := hfirst.sound ha
      obtain ⟨rest, hr⟩ := hrest.sound hys
      exact ⟨chain first rest,
        (spells_chain hr.1).mpr ⟨a, b, ys, spells_of_le (Nat.le_succ k) hf, hr, rfl⟩⟩
    · intro c c' d e hc hb hs he
      obtain ⟨first, rest, rfl, hproper, hr⟩ := exists_chain hk hs.1
      obtain ⟨a, b, ys, hf, hys, rfl⟩ := (spells_chain hr).mp hs
      obtain ⟨hend, hn⟩ := (ends_iff hk).mp he
      have hbetween : Ends (k + 1) b.current :=
        Form.current_many _ (starts_right hk) (fun t h => h.2) hys hend
      have hlength := hf.length
      simp only [Parser.binary, yields_bind, yields_pure]
      exact ⟨a, b, hfirst.complete hc hb ⟨hproper, hf.2⟩ hbetween, ys, c',
        hrest.complete (hf.clean hc) (by omega) hys ⟨hend, hn⟩, rfl, rfl⟩

end Binary

section Expression

open DecafCheck.Parser

theorem reads_nested (depth : Nat) : (form 0).Reads (nested depth) (Ends 0) depth := by
  induction depth with
  | zero =>
    constructor
    · intro c c' e hy
      simp [nested] at hy
    · intro c c' d e _ hb
      exact absurd hb (Nat.not_lt_zero _)
  | succ depth ih => exact reads_binary (reads_unary ih) (Nat.zero_add _)

/-- The parser of expressions reads expressions, however many tokens there are. -/
theorem reads_expression (bound : Nat) : (form 0).Reads expression (Ends 0) bound := by
  constructor
  · intro c c' e hy
    simp only [expression, yields_bind, yields_remaining] at hy
    obtain ⟨_, _, ⟨rfl, rfl⟩, hy⟩ := hy
    exact (reads_nested _).sound hy
  · intro c c' d e hc _ hs he
    simp only [expression, yields_bind, yields_remaining]
    exact ⟨_, _, ⟨rfl, rfl⟩, (reads_nested _).complete hc (Nat.lt_succ_self _) hs he⟩

end Expression

end Concrete.Expr

end DecafCheck
