import DecafCheck.Token.Basic

namespace DecafCheck

namespace Mark

/-- The mark that closes what this one opens. -/
def partner? : Mark → Option Mark
  | leftParen => some rightParen
  | leftBracket => some rightBracket
  | leftBrace => some rightBrace
  | _ => none

def isClosing : Mark → Bool
  | rightParen | rightBracket | rightBrace => true
  | _ => false

end Mark

namespace Token

/-- One more token, where the marks `pending` are to close what is open, the innermost first. -/
def nest (pending : List Mark) : Token → Option (List Mark)
  | .mark m =>
    match m.partner? with
    | some closing => some (closing :: pending)
    | none =>
      if m.isClosing then (if pending.head? = some m then some pending.tail else none)
        else some pending
  | _ => some pending

/-- The marks that are still to come behind the tokens, or nothing if one of the tokens closes what
is not open. -/
def unclosed : List Mark → List Token → Option (List Mark)
  | pending, [] => some pending
  | pending, t :: ts => (nest pending t).bind fun rest => unclosed rest ts

def Balanced (ts : List Token) : Prop :=
  unclosed [] ts = some []

instance (ts : List Token) : Decidable (Balanced ts) :=
  inferInstanceAs (Decidable (unclosed [] ts = some []))

/-- A token that neither opens nor closes anything. -/
def Plain (t : Token) : Prop :=
  ∀ pending, nest pending t = some pending

@[simp] theorem unclosed_nil (pending : List Mark) : unclosed pending [] = some pending := rfl

@[simp] theorem unclosed_cons (pending : List Mark) (t : Token) (ts : List Token) :
    unclosed pending (t :: ts) = (nest pending t).bind fun rest => unclosed rest ts := rfl

@[simp] theorem unclosed_append (pending : List Mark) (ts us : List Token) :
    unclosed pending (ts ++ us) = (unclosed pending ts).bind fun rest => unclosed rest us := by
  induction ts generalizing pending with
  | nil => rfl
  | cons t ts ih => simp only [List.cons_append, unclosed_cons, ih, Option.bind_assoc]

/-- What is open further out does not matter to a token that closes something further in. -/
theorem nest_append {pending rest : List Mark} {t : Token} (h : nest pending t = some rest)
    (outer : List Mark) :
    nest (pending ++ outer) t = some (rest ++ outer) := by
  cases t with
  | mark m =>
    cases hp : m.partner? with
    | some closing =>
      simp only [nest, hp, Option.some.injEq] at h ⊢
      rw [← h]
      rfl
    | none =>
      cases hm : m.isClosing with
      | false =>
        simp only [nest, hp, hm, Bool.false_eq_true, if_false, Option.some.injEq] at h ⊢
        rw [h]
      | true =>
        simp only [nest, hp, hm, if_true] at h ⊢
        cases pending with
        | nil => cases h
        | cons expected pending =>
          rw [List.head?_cons, List.tail_cons] at h
          rw [List.cons_append, List.head?_cons, List.tail_cons]
          split at h
          · next he =>
            cases h
            rw [if_pos he]
          · cases h
  | _ =>
    cases h
    rfl

theorem unclosed_outer {pending rest : List Mark} {ts : List Token}
    (h : unclosed pending ts = some rest) (outer : List Mark) :
    unclosed (pending ++ outer) ts = some (rest ++ outer) := by
  induction ts generalizing pending with
  | nil =>
    cases h
    rfl
  | cons t ts ih =>
    obtain ⟨next, hnext, hrest⟩ := Option.bind_eq_some_iff.mp h
    rw [unclosed_cons, nest_append hnext, Option.bind_some]
    exact ih hrest

namespace Balanced

variable {ts us : List Token}

/-- Balanced tokens leave open what was open before them. -/
theorem unclosed_eq (h : Balanced ts) (pending : List Mark) : unclosed pending ts = some pending :=
  unclosed_outer h pending

theorem nil : Balanced [] := rfl

theorem append (h : Balanced ts) (h' : Balanced us) : Balanced (ts ++ us) := by
  rw [Balanced, unclosed_append, h, Option.bind_some, h']

theorem cons {t : Token} (ht : t.Plain) (h : Balanced ts) : Balanced (t :: ts) := by
  rw [Balanced, unclosed_cons, ht, Option.bind_some, h]

/-- Balanced tokens between a mark and its partner. -/
theorem enclosed {o c : Mark} (h : Balanced ts) (hoc : o.partner? = some c) :
    Balanced (.mark o :: (ts ++ [.mark c])) := by
  have hopen : nest [] (.mark o) = some [c] := by rw [nest, hoc]
  have hclose : nest [c] (.mark c) = some [] := by
    cases o <;> cases hoc <;> rfl
  rw [Balanced, unclosed_cons, hopen, Option.bind_some, unclosed_append, h.unclosed_eq,
    Option.bind_some, unclosed_cons, hclose]
  rfl

end Balanced

section Cut

variable {ts us : List Token}

theorem unclosed_replicate_left (n : Nat) (pending : List Mark) :
    unclosed pending (List.replicate n (.mark .leftParen)) =
      some (List.replicate n .rightParen ++ pending) := by
  induction n generalizing pending with
  | zero => rfl
  | succ n ih =>
    have hopen : nest pending (.mark .leftParen) = some (.rightParen :: pending) := rfl
    rw [List.replicate_succ, unclosed_cons, hopen, Option.bind_some, ih, List.replicate_succ',
      List.append_assoc]
    rfl

theorem eq_of_unclosed_replicate_right {n : Nat} {pending rest : List Mark}
    (h : unclosed pending (List.replicate n (.mark .rightParen)) = some rest) :
    pending = List.replicate n .rightParen ++ rest := by
  induction n generalizing pending with
  | zero =>
    cases h
    rfl
  | succ n ih =>
    rw [List.replicate_succ] at h
    obtain ⟨next, hnext, hrest⟩ := Option.bind_eq_some_iff.mp h
    cases pending with
    | nil => cases hnext
    | cons m pending =>
      have hclose : (if some m = some Mark.rightParen then some pending else none) = some next :=
        hnext
      split at hclose
      · next hm =>
        cases hm
        cases hclose
        rw [ih hrest]
        rfl
      · cases hclose

/-- Without the parentheses that open it, balanced tokens close something that is not open. -/
theorem Balanced.eq_zero_of_cut {n : Nat} (h : Balanced (List.replicate n (.mark .leftParen) ++ ts))
    {rest : List Mark} (hts : unclosed [] ts = some rest) : n = 0 := by
  rw [Balanced, unclosed_append, unclosed_replicate_left, Option.bind_some, List.append_nil] at h
  have hrest := unclosed_outer hts (List.replicate n .rightParen)
  rw [List.nil_append, h, Option.some.injEq, eq_comm, List.append_eq_nil_iff] at hrest
  simpa using hrest.2

theorem Balanced.unclosed_of_cut {n : Nat}
    (h : Balanced (ts ++ List.replicate n (.mark .rightParen))) :
    unclosed [] ts = some (List.replicate n .rightParen) := by
  rw [Balanced, unclosed_append] at h
  obtain ⟨pending, hpending, hclosed⟩ := Option.bind_eq_some_iff.mp h
  rw [hpending, eq_of_unclosed_replicate_right hclosed, List.append_nil]

/-- Parentheses that are cut off on the left and on the right of a token are missed. -/
theorem balanced_cut_iff {m n : Nat} {t : Token} (ht : t.Plain)
    (h : Balanced (List.replicate m (.mark .leftParen) ++ ts))
    (h' : Balanced (us ++ List.replicate n (.mark .rightParen))) :
    Balanced (ts ++ t :: us) ↔ m = 0 ∧ n = 0 := by
  have hright : unclosed [] (t :: us) = some (List.replicate n .rightParen) := by
    rw [unclosed_cons, ht, Option.bind_some, h'.unclosed_of_cut]
  constructor
  · intro hcut
    rw [Balanced, unclosed_append] at hcut
    obtain ⟨rest, hrest, hend⟩ := Option.bind_eq_some_iff.mp hcut
    obtain rfl := h.eq_zero_of_cut hrest
    have hts : unclosed [] ts = some [] := h
    cases hts.symm.trans hrest
    rw [hright, Option.some.injEq] at hend
    exact ⟨rfl, by simpa using hend⟩
  · rintro ⟨rfl, rfl⟩
    have hts : unclosed [] ts = some [] := h
    rw [Balanced, unclosed_append, hts, Option.bind_some, hright]
    rfl

end Cut

end Token

end DecafCheck
