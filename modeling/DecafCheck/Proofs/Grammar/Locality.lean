import DecafCheck.Proofs.Grammar.Program

namespace DecafCheck

namespace Cursor

variable {c d : Cursor} {j k n b : Nat}

/-- There are `k` tokens to go past. Behind them is another token, or the end of a text with nothing
invalid in it. -/
def Reaches (c : Cursor) (k : Nat) : Prop :=
  k ≤ c.ahead.length ∧ (k = c.ahead.length → c.Clean)

theorem reaches_forward (h : c.Reaches j) : (c.forward j).Reaches k ↔ c.Reaches (j + k) := by
  have hj := h.1
  unfold Reaches
  rw [ahead_forward, List.length_drop]
  have hle : k ≤ c.ahead.length - j ↔ j + k ≤ c.ahead.length := by omega
  have heq : k = c.ahead.length - j ↔ j + k = c.ahead.length := by omega
  rw [hle, heq]
  rfl

/-- What becomes of going past a token: there is none, there is one to go past, or the last one is
followed by an invalid character. -/
theorem advance_cases (c : Cursor) : (c.current = none ∧ ∃ c', c.advance = .ok c') ∨
    (∃ t, c.current = some t ∧ c.Reaches 1 ∧ c.advance = .ok (c.forward 1)) ∨
      ∃ t e, c.current = some t ∧ c.invalid = some e ∧ c.ahead.length = 1 ∧
        c.advance = .error (.lexical e) := by
  obtain ⟨_ | ⟨l, _ | ⟨m, rest⟩⟩, _ | e, length, previous⟩ := c
  · exact .inl ⟨rfl, _, rfl⟩
  · exact .inl ⟨rfl, _, rfl⟩
  · exact .inr (.inl ⟨_, rfl, by simp [Reaches, Clean], rfl⟩)
  · exact .inr (.inr ⟨_, e, rfl, rfl, rfl, rfl⟩)
  · exact .inr (.inl ⟨_, rfl, by simp [Reaches], rfl⟩)
  · exact .inr (.inl ⟨_, rfl, by simp [Reaches], rfl⟩)

/-- A cursor on a text without invalid characters and with fewer than `b` tokens ahead that cannot
be told from `c` by looking at `n` places. -/
def Mirrors (n b : Nat) (c d : Cursor) : Prop :=
  0 < n → d.Clean ∧ d.ahead.length < b ∧ c.ahead.take n = d.ahead.take n ∧ c.previous = d.previous ∧
    c.length = d.length

theorem mirrors_zero : Mirrors 0 b c d :=
  fun h => absurd h (Nat.lt_irrefl 0)

theorem Mirrors.getElem? (h : Mirrors n b c d) {i : Nat} (hi : i < n) :
    c.ahead[i]? = d.ahead[i]? := by
  obtain ⟨-, -, htake, -⟩ := h (Nat.zero_lt_of_lt hi)
  rw [← List.getElem?_take_of_lt hi, htake, List.getElem?_take_of_lt hi]

theorem Mirrors.current (h : Mirrors n b c d) (hn : 0 < n) : c.current = d.current := by
  rw [Cursor.current, Cursor.current, List.head?_eq_getElem?, List.head?_eq_getElem?, h.getElem? hn]

theorem Mirrors.span (h : Mirrors n b c d) (hn : 0 < n) : c.span = d.span := by
  have hhead := h.getElem? hn
  obtain ⟨-, -, -, -, hlength⟩ := h hn
  obtain ⟨_ | ⟨l, rest⟩, invalid, length, previous⟩ := c <;> obtain ⟨_ | ⟨l', rest'⟩, _, _, _⟩ :=
    d <;>
    simp_all [Cursor.span]

theorem Mirrors.forward (h : Mirrors n b c d) (k : Nat) :
    Mirrors (n - k) b (c.forward k) (d.forward k) := by
  intro hk
  have hn : k < n := by omega
  obtain ⟨hclean, hb, htake, hprevious, hlength⟩ := h (Nat.zero_lt_of_lt hn)
  refine ⟨hclean.forward, ?_, ?_, ?_, hlength⟩
  · rw [ahead_forward, List.length_drop]
    omega
  · rw [ahead_forward, ahead_forward, ← List.drop_take, ← List.drop_take, htake]
  · show (if k = 0 then c.previous else _) = if k = 0 then d.previous else _
    rw [hprevious, Lexeme.spanAt, Lexeme.spanAt,
      h.getElem? (Nat.lt_of_le_of_lt (Nat.sub_le k 1) hn)]

/-- Going past tokens leaves fewer of them ahead. -/
theorem Mirrors.past (h : Mirrors n (b + 1) c d) (hk : 0 < k) (hc : k ≤ c.ahead.length) :
    Mirrors (n - k) b (c.forward k) (d.forward k) := by
  intro hn
  obtain ⟨hclean, -, hrest⟩ := h.forward k hn
  obtain ⟨-, hb, htake, -⟩ := h (by omega)
  refine ⟨hclean, ?_, hrest⟩
  have hlength : min n c.ahead.length = min n d.ahead.length := by
    simpa only [List.length_take] using congrArg List.length htake
  rw [ahead_forward, List.length_drop]
  omega

end Cursor

namespace Parser

open Cursor (Mirrors)

section Alike

variable {α β : Type} {least more n k : Nat} {c d : Cursor}

/-- A run from `c` that takes at least `least` tokens if it succeeds, and that looks at place `n` or
goes even further. -/
inductive Beyond (least n : Nat) (c : Cursor) : Except ParseError (α × Cursor) → Prop
  | ok {a : α} {k : Nat} : least ≤ k → n ≤ k → c.Reaches k → Beyond least n c (.ok (a, c.forward k))
  | grammar {e : GrammarError} {k : Nat} : n ≤ k → c.Reaches k → e.span = (c.forward k).span →
      Beyond least n c (.error (.grammar e))
  | lexical {e : LexicalError} : c.invalid = some e → Beyond least n c (.error (.lexical e))

/-- Runs from `c` and from `d` that come to the same within the first `n` places, unless the first
goes beyond them. -/
inductive Alike (least n : Nat) (c d : Cursor) :
    Except ParseError (α × Cursor) → Except ParseError (α × Cursor) → Prop
  | ok {a : α} {k : Nat} : least ≤ k → k < n → c.Reaches k →
      Alike least n c d (.ok (a, c.forward k)) (.ok (a, d.forward k))
  | grammar {e : GrammarError} {k : Nat} : k < n → c.Reaches k → e.span = (c.forward k).span →
      Alike least n c d (.error (.grammar e)) (.error (.grammar e))
  | beyond {r s : Except ParseError (α × Cursor)} : Beyond least n c r → Alike least n c d r s

theorem Alike.beyond_zero {r s : Except ParseError (α × Cursor)} (h : Alike least 0 c d r s) :
    Beyond least 0 c r := by
  cases h with
  | ok _ hk => exact absurd hk (Nat.not_lt_zero _)
  | grammar hk => exact absurd hk (Nat.not_lt_zero _)
  | beyond h => exact h

theorem Beyond.weaken {r : Except ParseError (α × Cursor)} (h : Beyond more n c r)
    (hle : least ≤ more) :
    Beyond least n c r := by
  cases h with
  | ok hl hn hk => exact .ok (Nat.le_trans hle hl) hn hk
  | grammar hn hk hspan => exact .grammar hn hk hspan
  | lexical h => exact .lexical h

theorem Alike.weaken {r s : Except ParseError (α × Cursor)} (h : Alike more n c d r s)
    (hle : least ≤ more) :
    Alike least n c d r s := by
  cases h with
  | ok hl hn hk => exact .ok (Nat.le_trans hle hl) hn hk
  | grammar hn hk hspan => exact .grammar hn hk hspan
  | beyond h => exact .beyond (h.weaken hle)

theorem Beyond.forward {r : Except ParseError (α × Cursor)} (hk : c.Reaches k) (hm : more ≤ k)
    (h : Beyond least (n - k) (c.forward k) r) : Beyond (more + least) n c r := by
  cases h with
  | ok hl hn hj =>
    rw [← Cursor.forward_add]
    exact .ok (by omega) (by omega) ((Cursor.reaches_forward hk).mp hj)
  | grammar hn hj hspan =>
    rw [← Cursor.forward_add] at hspan
    exact .grammar (by omega) ((Cursor.reaches_forward hk).mp hj) hspan
  | lexical h => exact .lexical h

theorem Alike.forward {r s : Except ParseError (α × Cursor)} (hk : c.Reaches k) (hm : more ≤ k)
    (h : Alike least (n - k) (c.forward k) (d.forward k) r s) : Alike (more + least) n c d r s := by
  cases h with
  | ok hl hn hj =>
    rw [← Cursor.forward_add, ← Cursor.forward_add]
    exact .ok (by omega) (by omega) ((Cursor.reaches_forward hk).mp hj)
  | grammar hn hj hspan =>
    rw [← Cursor.forward_add] at hspan
    exact .grammar (by omega) ((Cursor.reaches_forward hk).mp hj) hspan
  | beyond h => exact .beyond (h.forward hk hm)

theorem run_bind (p : Parser α) (f : α → Parser β) (c : Cursor) :
    (p >>= f).run c = match p.run c with
      | .ok (a, c') => (f a).run c'
      | .error e => .error e := by
  rw [StateT.run_bind]
  cases p.run c <;> rfl

theorem run_remaining (c : Cursor) : remaining.run c = .ok (c.ahead.length, c) := rfl

theorem Alike.bind {p q : Parser α} {f g : α → Parser β} (h : Alike more n c d (p.run c) (q.run d))
    (hf : ∀ a k, c.Reaches k → more ≤ k → p.run c = .ok (a, c.forward k) →
      Alike least (n - k) (c.forward k) (d.forward k) ((f a).run (c.forward k))
      ((g a).run (d.forward k))) :
    Alike (more + least) n c d ((p >>= f).run c) ((q >>= g).run d) := by
  rw [run_bind, run_bind]
  generalize hr : p.run c = r at h hf
  generalize q.run d = s at h
  cases h with
  | ok hm hn hk => exact (hf _ _ hk hm rfl).forward hk hm
  | grammar hn hk hspan => exact .grammar hn hk hspan
  | beyond h =>
    cases h with
    | @ok a k hm hn hk =>
      have hrest := hf a k hk hm rfl
      rw [Nat.sub_eq_zero_of_le hn] at hrest
      have hbeyond : Beyond least (n - k) (c.forward k) ((f a).run (c.forward k)) := by
        rw [Nat.sub_eq_zero_of_le hn]
        exact hrest.beyond_zero
      exact .beyond (hbeyond.forward hk hm)
    | grammar hn hk hspan => exact .beyond (.grammar hn hk hspan)
    | lexical h => exact .beyond (.lexical h)

theorem Alike.bind_pure {p q : Parser α} (h : Alike least n c d (p.run c) (q.run d)) (f : α → β) :
    Alike least n c d ((p >>= fun a => pure (f a)).run c) ((q >>= fun a => pure (f a)).run d) := by
  rw [run_bind, run_bind]
  generalize p.run c = r at h
  generalize q.run d = s at h
  cases h with
  | ok hl hn hk => exact .ok hl hn hk
  | grammar hn hk hspan => exact .grammar hn hk hspan
  | beyond h =>
    cases h with
    | ok hl hn hk => exact .beyond (.ok hl hn hk)
    | grammar hn hk hspan => exact .beyond (.grammar hn hk hspan)
    | lexical h => exact .beyond (.lexical h)

end Alike

section Local

variable {α β σ : Type} {A A' : Cursor → Prop} {least more b b' : Nat}

/-- From cursors that meet the condition and have fewer than `b` tokens ahead, the first parser runs
like the second one from every mirror of such a cursor that has fewer than `b'` tokens ahead. -/
structure Local (A : Cursor → Prop) (least b b' : Nat) (p q : Parser α) : Prop where
  alike : ∀ {n : Nat} {c d : Cursor}, A c → c.Reaches 0 → c.ahead.length < b → Mirrors n b' c d →
    Alike least n c d (p.run c) (q.run d)

/-- The condition that every cursor meets. -/
def Anywhere (_ : Cursor) : Prop := True

theorem Local.mono {p q : Parser α} (h : Local A least b b' p q) (hA : ∀ c, A' c → A c) :
    Local A' least b b' p q :=
  ⟨fun hc => h.alike (hA _ hc)⟩

theorem Local.anywhere {p q : Parser α} (h : Local Anywhere least b b' p q) :
    Local A least b b' p q :=
  h.mono fun _ _ => trivial

theorem Local.weaken {p q : Parser α} (h : Local A more b b' p q) (hle : least ≤ more) :
    Local A least b b' p q :=
  ⟨fun hA hc hb hd => (h.alike hA hc hb hd).weaken hle⟩

/-- Where nothing is to be mirrored, the second parser does not matter. -/
theorem Local.unmirrored {p q r : Parser α} (h : Local A least b b' p q) :
    Local A least b 0 p r := by
  constructor
  intro n c d hA hc hb hd
  rcases Nat.eq_zero_or_pos n with rfl | hn
  · exact .beyond (h.alike hA hc hb (Cursor.mirrors_zero (d := d))).beyond_zero
  · exact absurd (hd hn).2.1 (Nat.not_lt_zero _)

theorem local_bind {p q : Parser α} {f g : α → Parser β} (hp : Local A more b b' p q)
    (hf : ∀ a, Local Anywhere least b b' (f a) (g a)) : Local A least b b' (p >>= f) (q >>= g) := by
  constructor
  intro n c d hA hc hb hd
  refine ((hp.alike hA hc hb hd).bind fun a k hk hm _ => ?_).weaken (Nat.le_add_left least more)
  apply (hf a).alike trivial ((Cursor.reaches_forward hk).mpr hk) _ (hd.forward k)
  rw [Cursor.ahead_forward, List.length_drop]
  omega

theorem local_bind_first {p q : Parser α} {f g : α → Parser β} (hp : Local A least b b' p q)
    (hf : ∀ a, Local Anywhere more b b' (f a) (g a)) : Local A least b b' (p >>= f) (q >>= g) := by
  constructor
  intro n c d hA hc hb hd
  refine ((hp.alike hA hc hb hd).bind fun a k hk hm _ => ?_).weaken (Nat.le_add_right least more)
  apply (hf a).alike trivial ((Cursor.reaches_forward hk).mpr hk) _ (hd.forward k)
  rw [Cursor.ahead_forward, List.length_drop]
  omega

/-- Behind a token there are fewer tokens ahead. -/
theorem local_bind_past {p q : Parser α} {f g : α → Parser β} (hp : Local A 1 (b + 1) (b' + 1) p q)
    (hf : ∀ a, Local Anywhere more b b' (f a) (g a)) :
    Local A 1 (b + 1) (b' + 1) (p >>= f) (q >>= g) := by
  constructor
  intro n c d hA hc hb hd
  refine ((hp.alike hA hc hb hd).bind fun a k hk hm _ => ?_).weaken (Nat.le_add_right 1 more)
  apply (hf a).alike trivial ((Cursor.reaches_forward hk).mpr hk) _ (hd.past hm hk.1)
  have hle := hk.1
  rw [Cursor.ahead_forward, List.length_drop]
  omega

theorem local_pure {a : α} : Local A 0 b b' (pure a) (pure a) := by
  constructor
  intro n c d _ hc _ _
  rcases Nat.eq_zero_or_pos n with rfl | hn
  · exact .beyond (.ok (k := 0) (Nat.le_refl 0) (Nat.le_refl 0) hc)
  · exact .ok (k := 0) (Nat.le_refl 0) hn hc

/-- What a parser finds out without taking tokens is known behind it. -/
theorem local_look {look : Parser σ} {φ : Cursor → σ} (hlook : ∀ c, look.run c = .ok (φ c, c))
    (hφ : ∀ {n b : Nat} {c d : Cursor}, 0 < n → Mirrors n b c d → φ c = φ d) {f g : σ → Parser β}
    (hf : ∀ s, Local (fun c => A c ∧ φ c = s) least b b' (f s) (g s)) :
    Local A least b b' (look >>= f) (look >>= g) := by
  constructor
  intro n c d hA hc hb hd
  rw [run_bind, run_bind, hlook, hlook]
  rcases Nat.eq_zero_or_pos n with rfl | hn
  · have h := (hf (φ c)).alike ⟨hA, rfl⟩ hc hb (Cursor.mirrors_zero (d := d))
    exact .beyond h.beyond_zero
  · have h := (hf (φ c)).alike ⟨hA, rfl⟩ hc hb hd
    rwa [hφ hn hd] at h ⊢

theorem local_current {f g : Option Token → Parser β}
    (hf : ∀ t, Local (fun c => A c ∧ c.current = t) least b b' (f t) (g t)) :
    Local A least b b' (current >>= f) (current >>= g) :=
  local_look (fun _ => rfl) (fun hn hd => hd.current hn) hf

theorem local_currentSpan {f g : Span → Parser β}
    (hf : ∀ s, Local (fun c => A c ∧ c.span = s) least b b' (f s) (g s)) :
    Local A least b b' (currentSpan >>= f) (currentSpan >>= g) :=
  local_look (fun _ => rfl) (fun hn hd => hd.span hn) hf

theorem local_sees {m : Mark} {f g : Bool → Parser β}
    (hf : ∀ s, Local (fun c => A c ∧ (c.current == some (.mark m)) = s) least b b' (f s) (g s)) :
    Local A least b b' (sees m >>= f) (sees m >>= g) :=
  local_look (fun _ => rfl) (fun hn hd => by rw [hd.current hn]) hf

theorem local_spanFrom {start : Span} {f g : Span → Parser β}
    (hf : ∀ s, Local Anywhere least b b' (f s) (g s)) :
    Local A least b b' (spanFrom start >>= f) (spanFrom start >>= g) :=
  local_look (φ := fun c => start.merge c.previous) (fun _ => rfl)
    (fun hn hd => by rw [(hd hn).2.2.2.1]) fun s => (hf s).anywhere

theorem local_failAt {span : Span} {fault : GrammarFault} :
    Local (fun c => c.span = span) least b b' (failAt span fault : Parser α)
      (failAt span fault) := by
  constructor
  intro n c d hspan hc _ _
  show Alike least n c d (.error (.grammar ⟨fault, span⟩)) (.error (.grammar ⟨fault, span⟩))
  rcases Nat.eq_zero_or_pos n with rfl | hn
  · exact .beyond (.grammar (k := 0) (Nat.le_refl 0) hc hspan.symm)
  · exact .grammar (k := 0) hn hc hspan.symm

theorem failAt_bind {span : Span} {fault : GrammarFault} {f : α → Parser β} :
    failAt span fault >>= f = failAt span fault := rfl

theorem local_fail {fault : GrammarFault} :
    Local A least b b' (fail fault : Parser α) (fail fault) :=
  local_currentSpan fun _ => local_failAt.mono fun _ h => h.2

/-- Takes a token, or stays at the end of the text, and judges what it has taken. -/
def takeAs (judge : Option Token → Span → Except GrammarFault α) : Parser α := do
  let (found, span) ← take
  match judge found span with
  | .ok a => return a
  | .error fault => failAt span fault

theorem run_take (c : Cursor) : take.run c = match c.advance with
    | .ok c' => .ok ((c.current, c.span), c')
    | .error e => .error e := by
  cases h : c.advance <;> simp [take, h]

theorem run_takeAs (judge : Option Token → Span → Except GrammarFault α) (c : Cursor) :
    (takeAs judge).run c = match c.advance with
      | .ok c' => match judge c.current c.span with
        | .ok a => .ok (a, c')
        | .error fault => .error (.grammar ⟨fault, c.span⟩)
      | .error e => .error e := by
  rw [takeAs, run_bind, run_take]
  cases c.advance with
  | error e => rfl
  | ok c' => cases h : judge c.current c.span <;> simp only [h] <;> rfl

theorem local_takeAs {judge : Option Token → Span → Except GrammarFault α}
    (hnone : ∀ span, ∃ fault, judge none span = .error fault) :
    Local A 1 b b' (takeAs judge) (takeAs judge) := by
  constructor
  intro n c d _ hc _ hd
  rw [run_takeAs, run_takeAs]
  have hpass (hn : 0 < n) {t : Token} (ht : c.current = some t) :
      d.advance = .ok (d.forward 1) := by
    rw [hd.current hn] at ht
    exact (Cursor.advance_eq_ok_iff ht).mpr ⟨(hd hn).1.passes, rfl⟩
  rcases c.advance_cases with ⟨ht, c', hadvance⟩ | ⟨t, ht, hone, hadvance⟩ |
    ⟨t, e, -, he, -, hadvance⟩
  · obtain ⟨fault, hfault⟩ := hnone c.span
    simp only [hadvance, ht, hfault]
    rcases Nat.eq_zero_or_pos n with rfl | hn
    · exact .beyond (.grammar (k := 0) (Nat.le_refl 0) hc rfl)
    · obtain ⟨d', hd'⟩ := (hd hn).1.passes
      rw [hd']
      simp only [← hd.current hn, ht, ← hd.span hn, hfault]
      exact .grammar (k := 0) hn hc rfl
  · rw [hadvance]
    cases hjudge : judge c.current c.span with
    | ok a =>
      rcases Nat.lt_or_ge 1 n with hn | hn
      · have hn' : 0 < n := Nat.zero_lt_of_lt hn
        simp only [hpass hn' ht, ← hd.current hn', ← hd.span hn', hjudge]
        exact .ok (Nat.le_refl 1) hn hone
      · exact .beyond (.ok (Nat.le_refl 1) hn hone)
    | error fault =>
      rcases Nat.eq_zero_or_pos n with rfl | hn
      · exact .beyond (.grammar (k := 0) (Nat.le_refl 0) hc rfl)
      · simp only [hpass hn ht, ← hd.current hn, ← hd.span hn, hjudge]
        exact .grammar (k := 0) hn hc rfl
  · rw [hadvance]
    exact .beyond (.lexical he)

/-- Anything may be taken but the end of the text. -/
def Taken (found : Option Token) (_ : Span) : Except GrammarFault Unit :=
  if found.isSome then .ok () else .error (.noExpression found)

theorem run_skip {c : Cursor} {t : Token} (ht : c.current = some t) :
    skip.run c = (takeAs Taken).run c := by
  have hskip : skip.run c = match c.advance with
      | .ok c' => .ok ((), c')
      | .error e => .error e := by
    cases h : c.advance <;> simp [skip, take, h, Functor.discard, map_const]
  rw [hskip, run_takeAs, ht]
  rfl

theorem local_skip {t : Token} : Local (fun c => c.current = some t) 1 b b' skip skip := by
  constructor
  intro n c d ht hc hb hd
  have htaken : Local Anywhere 1 b b' (takeAs Taken) (takeAs Taken) :=
    local_takeAs fun _ => ⟨_, rfl⟩
  rw [run_skip ht]
  rcases Nat.eq_zero_or_pos n with rfl | hn
  · exact .beyond (htaken.alike trivial hc hb hd).beyond_zero
  · rw [run_skip (hd.current hn ▸ ht)]
    exact htaken.alike trivial hc hb hd

theorem identifier_eq : identifier = takeAs fun found span => match found with
    | some (.identifier name) => .ok (name, span)
    | _ => .error (.expected .identifier found) := by
  unfold identifier takeAs
  congr
  funext ⟨found, span⟩
  cases found with
  | none => rfl
  | some t => cases t <;> rfl

theorem dataType_eq : dataType = takeAs fun found _ => match found.bind DataType.ofToken? with
    | some type => .ok type
    | none => .error (.expected .type found) := by
  unfold dataType takeAs
  congr
  funext ⟨found, span⟩
  dsimp only
  cases found.bind DataType.ofToken? <;> rfl

theorem local_identifier : Local A 1 b b' identifier identifier := by
  rw [identifier_eq]
  exact local_takeAs fun _ => ⟨_, rfl⟩

theorem local_dataType : Local A 1 b b' dataType dataType := by
  rw [dataType_eq]
  exact local_takeAs fun _ => ⟨_, rfl⟩

theorem local_expectToken {t : Token} : Local A 1 b b' (expectToken t) (expectToken t) := by
  unfold expectToken
  apply local_current
  intro found
  split
  · next h => exact local_skip.mono fun c hc => hc.2.trans (beq_iff_eq.mp h)
  · exact local_fail

theorem local_expect {m : Mark} : Local A 1 b b' (expect m) (expect m) :=
  local_expectToken

theorem local_accept {m : Mark} : Local A 0 b b' (accept m) (accept m) := by
  unfold accept
  apply local_sees
  intro found
  split
  · next h =>
    have hskip : Local (fun c => A c ∧ (c.current == some (.mark m)) = found) 1 b b' skip skip :=
      local_skip.mono fun c hc => beq_iff_eq.mp (hc.2.trans h)
    exact local_bind hskip fun _ => local_pure
  · exact local_pure

section Many

variable {continues : Option Token → Bool} {item item' : Parser α} {c d : Cursor} {n : Nat}

theorem run_manyUpTo_stop (h : continues c.current = false) (steps : Nat) :
    (manyUpTo continues item steps).run c = .ok ([], c) := by
  cases steps with
  | zero => rfl
  | succ steps =>
    have hcurrent : current.run c = .ok (c.current, c) := rfl
    rw [manyUpTo, run_bind, hcurrent]
    simp only [h]
    rfl

theorem run_manyUpTo_step (h : continues c.current = true) (steps : Nat) :
    (manyUpTo continues item (steps + 1)).run c =
      (item >>= fun first => manyUpTo continues item steps >>= fun rest => pure (first :: rest)).run
        c := by
  have hcurrent : current.run c = .ok (c.current, c) := rfl
  rw [manyUpTo, run_bind, hcurrent]
  simp only [h]
  rfl

theorem alike_stop (hstop : continues c.current = false) (hc : c.Reaches 0) (hd : Mirrors n b' c d)
    (steps steps' : Nat) :
    Alike 0 n c d ((manyUpTo continues item steps).run c)
      ((manyUpTo continues item' steps').run d) := by
  rw [run_manyUpTo_stop hstop]
  rcases Nat.eq_zero_or_pos n with rfl | hn
  · exact .beyond (.ok (k := 0) (Nat.le_refl 0) (Nat.le_refl 0) hc)
  · rw [run_manyUpTo_stop (hd.current hn ▸ hstop)]
    exact .ok (k := 0) (Nat.le_refl 0) hn hc

/-- Each item takes a token, so neither run is cut short. -/
theorem alike_manyUpTo (hnone : continues none = false)
    (hitem : Local (fun c => continues c.current = true) 1 b b' item item') {steps steps' : Nat}
    (hc : c.Reaches 0) (hb : c.ahead.length < b) (hs : c.ahead.length ≤ steps)
    (hd : Mirrors n b' c d) (hs' : 0 < n → d.ahead.length ≤ steps') :
    Alike 0 n c d ((manyUpTo continues item steps).run c)
      ((manyUpTo continues item' steps').run d) := by
  have hpos {c : Cursor} (h : continues c.current = true) : 0 < c.ahead.length := by
    apply List.length_pos_of_ne_nil
    intro hnil
    rw [Cursor.current, hnil] at h
    exact absurd h (by simp [hnone])
  induction steps generalizing n c d steps' with
  | zero =>
    apply alike_stop _ hc hd
    rw [← Bool.not_eq_true]
    exact fun h => absurd (hpos h) (by omega)
  | succ steps ih =>
    cases hgo : continues c.current with
    | false => exact alike_stop hgo hc hd _ _
    | true =>
      have hstep (rest : Nat) (hrest : 0 < n → d.ahead.length ≤ rest + 1) : Alike 0 n c d
          ((item >>= fun first => manyUpTo continues item steps >>= fun rest =>
          pure (first :: rest)).run c)
          ((item' >>= fun first => manyUpTo continues item' rest >>= fun rest =>
          pure (first :: rest)).run d) := by
        refine ((hitem.alike hgo hc hb hd).bind fun first k hk hone _ => ?_).weaken
          (Nat.zero_le (1 + 0))
        have hc' : (c.forward k).Reaches 0 := (Cursor.reaches_forward hk).mpr hk
        apply (ih hc' _ _ (hd.forward k) _).bind_pure
        · rw [Cursor.ahead_forward, List.length_drop]
          omega
        · rw [Cursor.ahead_forward, List.length_drop]
          omega
        · intro hn
          have := hrest (by omega)
          rw [Cursor.ahead_forward, List.length_drop]
          omega
      rw [run_manyUpTo_step hgo]
      rcases Nat.eq_zero_or_pos n with rfl | hn
      · exact .beyond (hstep 0 fun h => absurd h (Nat.lt_irrefl 0)).beyond_zero
      · have hgo' : continues d.current = true := hd.current hn ▸ hgo
        obtain ⟨rest, rfl⟩ := Nat.exists_eq_add_of_lt (Nat.lt_of_lt_of_le (hpos hgo') (hs' hn))
        rw [Nat.zero_add] at hs' ⊢
        rw [run_manyUpTo_step hgo']
        exact hstep rest hs'

theorem local_many (hnone : continues none = false)
    (hitem : Local (fun c => continues c.current = true) 1 b b' item item') :
    Local A 0 b b' (many continues item) (many continues item') := by
  constructor
  intro n c d _ hc hb hd
  have hrun (item : Parser α) (c : Cursor) :
      (many continues item).run c = (manyUpTo continues item c.ahead.length).run c := by
    rw [many, run_bind, run_remaining]
  rw [hrun, hrun]
  exact alike_manyUpTo hnone hitem hc hb (Nat.le_refl _) hd fun _ => Nat.le_refl _

end Many

end Local

end Parser

end DecafCheck
