import DecafCheck.Proofs.Grammar.Lookahead
import DecafCheck.Proofs.Grammar.Viability

namespace DecafCheck

open Token

theorem Cursor.mem_of_current {c : Cursor} {t : Token} (ht : c.current = some t) :
    t ∈ c.tokens := by
  rw [current_eq] at ht
  exact List.mem_of_head? ht

namespace Parser

variable {α β σ δ : Type} {A A' : Cursor → Prop} {b least : Nat} {before : List Token} {c : Cursor}
  {e : ParseError}

/-- Where and why a run from `c` ends without success. The tokens in front of the place, with those
`before` the run, begin a program. The grammar refuses a token with an invalid character right
behind it only if the token is judged before it is taken. The invalid character ends a run that has
gone over all tokens, or one that takes the last token unjudged. -/
inductive Stops (before : List Token) (c : Cursor) : ParseError → Prop
  | grammar {e : GrammarError} {k : Nat} : c.Reaches k → e.span = (c.forward k).span →
      Begins (before ++ c.tokens.take k) →
      (k + 1 = c.tokens.length → ¬ c.Clean → Judged (before ++ c.tokens.take k)) →
        Stops before c (.grammar e)
  | invalid {e : LexicalError} : c.invalid = some e → Begins (before ++ c.tokens) →
      Stops before c (.lexical e)
  | taken {e : LexicalError} {k : Nat} {what : Expectation} : c.invalid = some e →
      k + 1 = c.tokens.length →
      Begins (before ++ c.tokens.take k) → TakenAs what (before ++ c.tokens.take k) →
      Stops before c (.lexical e)

theorem Stops.forward {k : Nat} (hk : c.Reaches k)
    (h : Stops (before ++ c.tokens.take k) (c.forward k) e) :
    Stops before c e := by
  have htokens (j : Nat) :
      before ++ c.tokens.take k ++ (c.forward k).tokens.take j =
      before ++ c.tokens.take (k + j) := by
    rw [Cursor.tokens_forward, List.append_assoc, List.take_add]
  have hlength : (c.forward k).tokens.length + k = c.tokens.length := by
    have hle : k ≤ c.tokens.length := by
      rw [Cursor.tokens, List.length_map]
      exact hk.1
    rw [Cursor.tokens_forward, List.length_drop]
    omega
  cases h with
  | grammar hj hspan hbegins hjudged =>
    rw [htokens] at hbegins hjudged
    rw [← Cursor.forward_add] at hspan
    exact .grammar ((Cursor.reaches_forward hk).mp hj) hspan hbegins fun h => hjudged (by omega)
  | invalid he hbegins =>
    rw [Cursor.tokens_forward, List.append_assoc, List.take_append_drop] at hbegins
    exact .invalid he hbegins
  | taken he hj hbegins htaken =>
    rw [htokens] at hbegins htaken
    exact .taken he (by omega) hbegins htaken

/-- Behind `before`, from cursors that meet the condition and have fewer than `b` tokens ahead, the
parser stops as early as can be if it fails. -/
structure Prompt (A : Cursor → Prop) (b : Nat) (before : List Token) (p : Parser α) : Prop where
  stops : ∀ {c : Cursor} {e : ParseError}, A c → AllGenuine c.tokens → c.Reaches 0 →
    c.ahead.length < b → p.run c = .error e → Stops before c e

/-- A run that goes on behind the next `k` tokens. -/
theorem Prompt.stops_behind {p : Parser α} {k : Nat}
    (h : Prompt Anywhere b (before ++ c.tokens.take k) p) (hg : AllGenuine c.tokens)
    (hk : c.Reaches k) (hb : c.ahead.length < b + k) (hrun : p.run (c.forward k) = .error e) :
    Stops before c e := by
  apply Stops.forward hk
  apply h.stops trivial _ ((Cursor.reaches_forward hk).mpr hk) _ hrun
  · rw [Cursor.tokens_forward]
    exact fun t ht => hg t (List.mem_of_mem_drop ht)
  · have hle := hk.1
    rw [Cursor.ahead_forward, List.length_drop]
    omega

theorem Prompt.mono {p : Parser α} (h : Prompt A b before p) (hA : ∀ c, A' c → A c) :
    Prompt A' b before p :=
  ⟨fun hc => h.stops (hA _ hc)⟩

theorem Prompt.anywhere {p : Parser α} (h : Prompt Anywhere b before p) : Prompt A b before p :=
  h.mono fun _ _ => trivial

theorem Prompt.shorten {p : Parser α} {b' : Nat} (h : Prompt A b' before p) (hb : b ≤ b') :
    Prompt A b before p :=
  ⟨fun hA hg hc hlt => h.stops hA hg hc (Nat.lt_of_lt_of_le hlt hb)⟩

theorem prompt_pure {a : α} : Prompt A b before (pure a : Parser α) := by
  constructor
  intro c e _ _ _ _ h
  cases h

theorem prompt_bind_pure {p : Parser α} (h : Prompt A b before p) (f : α → β) :
    Prompt A b before (p >>= fun a => pure (f a)) := by
  constructor
  intro c e hA hg hc hb hrun
  rw [run_bind] at hrun
  cases hp : p.run c with
  | ok r =>
    rw [hp] at hrun
    cases hrun
  | error e' =>
    rw [hp] at hrun
    cases hrun
    exact h.stops hA hg hc hb hp

/-- What a parser finds out without taking tokens is known behind it. -/
theorem prompt_look {look : Parser σ} {φ : Cursor → σ} (hlook : ∀ c, look.run c = .ok (φ c, c))
    {f : σ → Parser β} (hf : ∀ s, Prompt (fun c => A c ∧ φ c = s) b before (f s)) :
    Prompt A b before (look >>= f) := by
  constructor
  intro c e hA hg hc hb hrun
  rw [run_bind, hlook] at hrun
  exact (hf (φ c)).stops ⟨hA, rfl⟩ hg hc hb hrun

theorem prompt_current {f : Option Token → Parser β}
    (hf : ∀ t, Prompt (fun c => A c ∧ c.current = t) b before (f t)) :
    Prompt A b before (current >>= f) :=
  prompt_look (fun _ => rfl) hf

theorem prompt_currentSpan {f : Span → Parser β}
    (hf : ∀ s, Prompt (fun c => A c ∧ c.span = s) b before (f s)) :
    Prompt A b before (currentSpan >>= f) :=
  prompt_look (fun _ => rfl) hf

theorem prompt_sees {m : Mark} {f : Bool → Parser β}
    (hf : ∀ s, Prompt (fun c => A c ∧ (c.current == some (.mark m)) = s) b before (f s)) :
    Prompt A b before (sees m >>= f) :=
  prompt_look (fun _ => rfl) hf

theorem prompt_spanFrom {start : Span} {f : Span → Parser β} (hf : ∀ s, Prompt A b before (f s)) :
    Prompt A b before (spanFrom start >>= f) :=
  prompt_look (φ := fun c => start.merge c.previous) (fun _ => rfl) fun s =>
    (hf s).mono fun _ h => h.1

theorem prompt_failAt {span : Span} {fault : GrammarFault} (hbegins : Begins before)
    (hjudged : Judged before) :
    Prompt (fun c => c.span = span) b before (failAt span fault : Parser α) := by
  constructor
  intro c e hspan hg hc _ hrun
  have he : ParseError.grammar ⟨fault, span⟩ = e := Except.error.inj hrun
  rw [← he]
  exact .grammar (k := 0) hc hspan.symm (by simpa using hbegins) fun _ _ => by simpa using hjudged

theorem prompt_fail {fault : GrammarFault} (hbegins : Begins before) (hjudged : Judged before) :
    Prompt A b before (fail fault : Parser α) :=
  prompt_currentSpan fun _ => (prompt_failAt hbegins hjudged).mono fun _ h => h.2

/-- The parser goes past the current token and gives `a`. -/
def Consumes (p : Parser α) (c : Cursor) (a : α) : Prop :=
  p.run c = match c.advance with
    | .ok c' => .ok (a, c')
    | .error e => .error e

theorem consumes_takeAs {judge : Option Token → Span → Except GrammarFault α} {a : α}
    (h : judge c.current c.span = .ok a) : Consumes (takeAs judge) c a := by
  rw [Consumes, run_takeAs]
  cases c.advance <;> simp only [h]

theorem consumes_skip {t : Token} (ht : c.current = some t) : Consumes skip c () := by
  rw [Consumes, run_skip ht, run_takeAs, ht]
  rfl

theorem consumes_expectToken {t : Token} (ht : c.current = some t) :
    Consumes (expectToken t) c () := by
  have hrun : (expectToken t).run c = skip.run c := by
    have hcurrent : current.run c = .ok (c.current, c) := rfl
    rw [expectToken, run_bind, hcurrent, ht]
    simp
  rw [Consumes, hrun]
  exact consumes_skip ht

/-- A run past a token that may stand there. -/
theorem stops_past {p : Parser α} {f : α → Parser β} {t : Token} {a : α} (hp : Consumes p c a)
    (ht : c.current = some t) (hbegins : Begins (before ++ [t]))
    (hf : Prompt Anywhere b (before ++ [t]) (f a)) (hg : AllGenuine c.tokens)
    (hb : c.ahead.length < b + 1) (hrun : (p >>= f).run c = .error e) : Stops before c e := by
  have hone : [t] <+: c.tokens := Cursor.cons_prefix_iff.mpr ⟨ht, List.nil_prefix⟩
  have htake : c.tokens.take 1 = [t] := (List.prefix_iff_eq_take.mp hone).symm
  rw [run_bind, hp] at hrun
  rcases c.advance_cases with ⟨hnone, -⟩ | ⟨-, -, hreaches, hadvance⟩ |
    ⟨-, invalid, -, hinvalid, hlength, hadvance⟩
  · rw [ht] at hnone
    cases hnone
  · rw [hadvance] at hrun
    rw [← htake] at hf
    exact hf.stops_behind hg hreaches hb hrun
  · rw [hadvance] at hrun
    obtain rfl : ParseError.lexical invalid = e := Except.error.inj hrun
    have htokens : c.tokens = [t] := by
      rw [← htake, List.take_of_length_le]
      rw [Cursor.tokens, List.length_map, hlength]
    exact .invalid hinvalid (htokens ▸ hbegins)

/-- A token that has been seen to fit is gone past. -/
theorem prompt_past {p : Parser α} {f : α → Parser β}
    (hp : ∀ c, A c → ∃ t a, c.current = some t ∧ Consumes p c a ∧
    (t.Genuine → Begins (before ++ [t]) ∧ Prompt Anywhere b (before ++ [t]) (f a))) :
    Prompt A (b + 1) before (p >>= f) := by
  constructor
  intro c e hA hg hc hb hrun
  obtain ⟨t, a, ht, hconsumes, hf⟩ := hp c hA
  obtain ⟨hbegins, hf⟩ := hf (hg t (Cursor.mem_of_current ht))
  exact stops_past hconsumes ht hbegins hf hg hb hrun

theorem prompt_skip {t : Token} {f : Unit → Parser β} (hA : ∀ c, A c → c.current = some t)
    (hbegins : Begins (before ++ [t])) (hf : Prompt Anywhere b (before ++ [t]) (f ())) :
    Prompt A (b + 1) before (skip >>= f) :=
  prompt_past fun c hc => ⟨t, (), hA c hc, consumes_skip (hA c hc), fun _ => ⟨hbegins, hf⟩⟩

theorem prompt_expectToken {t : Token} {f : Unit → Parser β} (hbegins : Begins (before ++ [t]))
    (hjudged : Judged before) (hf : Prompt Anywhere b (before ++ [t]) (f ())) :
    Prompt A (b + 1) before (expectToken t >>= f) := by
  constructor
  intro c e hA hg hc hb hrun
  by_cases ht : c.current = some t
  · exact stops_past (consumes_expectToken ht) ht hbegins hf hg hb hrun
  · have hfail : (expectToken t).run c =
        (fail (.expected (.token t) c.current) : Parser Unit).run c := by
      have hcurrent : current.run c = .ok (c.current, c) := rfl
      rw [expectToken, run_bind, hcurrent]
      simp [ht]
    rw [run_bind, hfail] at hrun
    have he : ParseError.grammar ⟨.expected (.token t) c.current, c.span⟩ = e :=
      Except.error.inj hrun
    rw [← he]
    exact .grammar (k := 0) hc rfl (by simpa using hbegins.left) fun _ _ => by simpa using hjudged

theorem prompt_expect {m : Mark} {f : Unit → Parser β} (hbegins : Begins (before ++ [Token.mark m]))
    (hjudged : Judged before) (hf : Prompt Anywhere b (before ++ [Token.mark m]) (f ())) :
    Prompt A (b + 1) before (expect m >>= f) :=
  prompt_expectToken hbegins hjudged hf

/-- A token is taken, and then it is judged. -/
theorem prompt_takeAs {judge : Option Token → Span → Except GrammarFault α} {f : α → Parser β}
    {what : Expectation} (hbegins : Begins before) (htaken : TakenAs what before)
    (hnone : ∀ span a, judge none span ≠ .ok a)
    (hf : ∀ t span a, judge (some t) span = .ok a → t.Genuine →
      Begins (before ++ [t]) ∧ Prompt Anywhere b (before ++ [t]) (f a)) :
    Prompt A (b + 1) before (takeAs judge >>= f) := by
  constructor
  intro c e hA hg hc hb hrun
  cases hjudge : judge c.current c.span with
  | ok a =>
    cases ht : c.current with
    | none =>
      rw [ht] at hjudge
      exact absurd hjudge (hnone _ _)
    | some t =>
      obtain ⟨hbegins, hf⟩ := hf t c.span a (ht ▸ hjudge) (hg t (Cursor.mem_of_current ht))
      exact stops_past (consumes_takeAs hjudge) ht hbegins hf hg hb hrun
  | error fault =>
    -- The fault is found out only behind the token, where an invalid character may be found first.
    have hlength : c.tokens.length = c.ahead.length := List.length_map _
    rw [run_bind, run_takeAs, hjudge] at hrun
    have hgrammar (hpasses : 1 = c.ahead.length → c.Clean) :
        Stops before c (.grammar ⟨fault, c.span⟩) :=
      .grammar (k := 0) hc rfl (by simpa using hbegins) fun hone hclean =>
        absurd (hpasses (by omega)) hclean
    rcases c.advance_cases with ⟨ht, c', hadvance⟩ | ⟨t, ht, hreaches, hadvance⟩ |
      ⟨t, invalid, -, hinvalid, hone, hadvance⟩
    · rw [hadvance] at hrun
      have he : ParseError.grammar ⟨fault, c.span⟩ = e := Except.error.inj hrun
      rw [← he]
      refine hgrammar fun hone => ?_
      rw [Cursor.current_eq, List.head?_eq_none_iff] at ht
      rw [ht] at hlength
      exact absurd (hlength.trans hone.symm) (by simp)
    · rw [hadvance] at hrun
      have he : ParseError.grammar ⟨fault, c.span⟩ = e := Except.error.inj hrun
      rw [← he]
      exact hgrammar hreaches.2
    · rw [hadvance] at hrun
      obtain rfl : ParseError.lexical invalid = e := Except.error.inj hrun
      exact .taken (k := 0) hinvalid (by omega) (by simpa using hbegins) (by simpa using htaken)

theorem prompt_identifier {f : String × Span → Parser β} (hbegins : Begins before)
    (htaken : TakenAs .identifier before)
    (hf : ∀ name span, (Token.identifier name).Genuine →
      Begins (before ++ [Token.identifier name]) ∧
      Prompt Anywhere b (before ++ [Token.identifier name]) (f (name, span))) :
    Prompt A (b + 1) before (identifier >>= f) := by
  rw [identifier_eq]
  refine prompt_takeAs hbegins htaken (fun _ _ h => nomatch h) fun t span a ha hgenuine => ?_
  cases t with
  | identifier name =>
    obtain rfl := Except.ok.inj ha
    exact hf name span hgenuine
  | keyword | integer | mark => cases ha

theorem prompt_dataType {f : DataType → Parser β} (hbegins : Begins before)
    (htaken : TakenAs .type before)
    (hf : ∀ type, Begins (before ++ [type.token]) ∧ Prompt Anywhere b
      (before ++ [type.token]) (f type)) :
    Prompt A (b + 1) before (dataType >>= f) := by
  rw [dataType_eq]
  refine prompt_takeAs hbegins htaken (fun _ _ h => nomatch h) fun t span a ha _ => ?_
  cases htype : DataType.ofToken? t with
  | none => simp [htype] at ha
  | some type =>
    obtain rfl := ofToken?_eq_some_iff.mp htype
    obtain rfl : type = a := by simpa [htype] using ha
    exact hf type

/-- A name that has been seen. -/
theorem prompt_name {f : String × Span → Parser β}
    (hf : ∀ name span, (Token.identifier name).Genuine →
    Begins (before ++ [Token.identifier name]) ∧
      Prompt Anywhere b (before ++ [Token.identifier name]) (f (name, span))) :
    Prompt (fun c => ∃ name, c.current = some (.identifier name)) (b + 1) before
      (identifier >>= f) := by
  rw [identifier_eq]
  apply prompt_past
  rintro c ⟨name, ht⟩
  exact ⟨_, (name, c.span), ht, consumes_takeAs (by rw [ht]), hf name c.span⟩

/-- A type that has been seen. -/
theorem prompt_type {f : DataType → Parser β}
    (hf : ∀ type, Begins (before ++ [type.token]) ∧ Prompt Anywhere b
      (before ++ [type.token]) (f type)) :
    Prompt (fun c => c.current.any Token.isType = true) (b + 1) before (dataType >>= f) := by
  rw [dataType_eq]
  apply prompt_past
  intro c hc
  obtain ⟨t, ht, htype⟩ := (Option.any_eq_true _ _).mp hc
  obtain ⟨type, hof⟩ : ∃ type, DataType.ofToken? t = some type := by
    unfold Token.isType at htype
    split at htype <;> first | exact ⟨_, rfl⟩ | cases htype
  obtain rfl := ofToken?_eq_some_iff.mp hof
  refine ⟨_, type, ht, consumes_takeAs ?_, fun _ => hf type⟩
  rw [ht, Option.bind_some, hof]

theorem prompt_accept {m : Mark} {f : Bool → Parser β} (hbegins : Begins (before ++ [Token.mark m]))
    (htrue : Prompt Anywhere b (before ++ [Token.mark m]) (f true))
    (hfalse : Prompt A b before (f false)) :
    Prompt A b before (accept m >>= f) := by
  unfold accept
  rw [bind_assoc]
  apply prompt_sees
  intro found
  cases found with
  | true =>
    rw [if_pos rfl, bind_assoc]
    simp only [pure_bind]
    exact (prompt_skip (fun c hc => beq_iff_eq.mp hc.2) hbegins htrue).shorten (Nat.le_succ b)
  | false =>
    rw [if_neg Bool.false_ne_true, pure_bind]
    exact hfalse.mono fun c hc => hc.1

theorem Local.reaches {p q : Parser α} (h : Local A least b 0 p q) (hA : A c) (hc : c.Reaches 0)
    (hb : c.ahead.length < b) {a : α} {k : Nat} (hy : p.Yields c a (c.forward k))
    (hk : k ≤ c.ahead.length) :
    c.Reaches k := by
  have hbeyond := (h.alike hA hc hb (Cursor.mirrors_zero (d := c))).beyond_zero
  rw [hy] at hbeyond
  generalize hr : Except.ok (a, c.forward k) = r at hbeyond
  cases hbeyond with
  | @ok a' j _ _ hj =>
    have hforward : c.forward k = c.forward j := (Prod.mk.inj (Except.ok.inj hr)).2
    have hlength := congrArg (fun d : Cursor => d.ahead.length) hforward
    simp only [Cursor.ahead_forward, List.length_drop] at hlength
    have hle := hj.1
    obtain rfl : k = j := by omega
    exact hj
  | grammar => cases hr
  | lexical => cases hr

/-- What a derivation has been found for is part of what stands before the rest. -/
theorem prompt_bind {F : Form δ α} {p q : Parser α} {f : α → Parser β}
    (hsound : ∀ {c c' : Cursor} {a : α}, A c → p.Yields c a c' → ∃ d, F.Spells c d a c')
    (hlocal : Local A least b 0 p q) (hp : Prompt A b before p)
    (hf : ∀ a d, F.Proper d → AllGenuine (F.tokens d) →
      Prompt Anywhere b (before ++ F.tokens d) (f a)) : Prompt A b before (p >>= f) := by
  constructor
  intro c e hA hg hc hb hrun
  rw [run_bind] at hrun
  cases hr : p.run c with
  | error e' =>
    rw [hr] at hrun
    obtain rfl : e' = e := Except.error.inj hrun
    exact hp.stops hA hg hc hb hr
  | ok r =>
    obtain ⟨a, c'⟩ := r
    rw [hr] at hrun
    obtain ⟨d, hproper, htokens, -, rfl⟩ := hsound hA hr
    have hlength : (F.tokens d).length ≤ c.ahead.length := by
      simpa [Cursor.tokens] using htokens.length_le
    have hreaches := hlocal.reaches hA hc hb hr hlength
    have hf := hf a d hproper fun t ht => hg t (htokens.subset ht)
    rw [List.prefix_iff_eq_take.mp htokens] at hf
    exact hf.stops_behind hg hreaches (Nat.lt_of_lt_of_le hb (Nat.le_add_right _ _)) hrun

section Many

variable {F : Form δ α} {continues : Option Token → Bool} {item : Parser α}

theorem prompt_manyUpTo
    (hsound : ∀ {c c' : Cursor} {a : α}, continues c.current = true → item.Yields c a c' →
      ∃ d, F.Spells c d a c')
    (hlocal : Local (fun c => continues c.current = true) least b 0 item item)
    (hitem : ∀ ds, F.many.Proper ds → AllGenuine (F.many.tokens ds) →
      Prompt (fun c => continues c.current = true) b (before ++ F.many.tokens ds) item)
    (steps : Nat) (ds : List δ) (hds : F.many.Proper ds)
    (hgenuine : AllGenuine (F.many.tokens ds)) :
    Prompt A b (before ++ F.many.tokens ds) (manyUpTo continues item steps) := by
  -- By induction on the steps that are left. The items found so far have moved to the tokens before
  -- the run.
  induction steps generalizing A ds with
  | zero => exact prompt_pure
  | succ steps ih =>
    unfold manyUpTo
    apply prompt_current
    intro t
    split
    · next ht =>
      have hgoes (c : Cursor) (hc : A c ∧ c.current = t) : continues c.current = true := by
        rw [hc.2, ht]
      apply prompt_bind (fun hc => hsound (hgoes _ hc)) (hlocal.mono hgoes)
        ((hitem ds hds hgenuine).mono hgoes)
      intro a d hd hd'
      rw [List.append_assoc, ← Form.many_concat]
      refine prompt_bind_pure (ih _ ?_ ?_) _
      · exact List.forall_mem_append.mpr ⟨hds, List.forall_mem_singleton.mpr hd⟩
      · exact Form.many_concat ds d ▸ allGenuine_append.mpr ⟨hgenuine, hd'⟩
    · exact prompt_pure

/-- Each item stands behind the items before it, and the rest stands behind all of them. -/
theorem prompt_bind_many (hnone : continues none = false)
    (hsound : ∀ {c c' : Cursor} {a : α}, continues c.current = true → item.Yields c a c' →
      ∃ d, F.Spells c d a c')
    (hlocal : Local (fun c => continues c.current = true) 1 b 0 item item)
    (hitem : ∀ ds, F.many.Proper ds → AllGenuine (F.many.tokens ds) →
      Prompt (fun c => continues c.current = true) b (before ++ F.many.tokens ds) item)
    {f : List α → Parser β} (hf : ∀ as ds, F.many.Proper ds → AllGenuine (F.many.tokens ds) →
      Prompt Anywhere b (before ++ F.many.tokens ds) (f as)) :
    Prompt A b before (many continues item >>= f) := by
  refine prompt_bind (fun _ => Form.sound_many hsound) (local_many hnone hlocal) ?_ hf
  constructor
  intro c e hA hg hc hb hrun
  have hmany := prompt_manyUpTo (A := Anywhere) hsound hlocal hitem c.ahead.length []
    (List.forall_mem_nil _) allGenuine_nil
  rw [many, run_bind, run_remaining] at hrun
  simpa using hmany.stops trivial hg hc hb hrun

end Many

section Lists

variable {F : Form δ α} {item : Parser α}

/-- The items of a row in parentheses stand behind those before them and their commas. -/
theorem prompt_parenthesized (hsound : ∀ {c c' : Cursor} {a : α}, item.Yields c a c' →
      ∃ d, F.Spells c d a c')
    (hlocal : Local Anywhere 0 b 0 item item)
    (hitem : ∀ ds, F.row.Proper ds → AllGenuine (F.heads ds) →
      Prompt Anywhere b (before ++ Token.mark .leftParen :: F.heads ds) item)
    (hallow : F.parenthesized.Allows before) (hsome : ∃ d, F.Proper d ∧ AllGenuine (F.tokens d))
    (hopen : Judged before) (hclose : ∀ d ds, F.row.Proper (d :: ds) →
      AllGenuine (F.row.tokens (d :: ds)) →
      Judged (before ++ Token.mark .leftParen :: F.row.tokens (d :: ds))) :
    Prompt A b before (parenthesized item) := by
  have hcomma : Local (fun c => (c.current == some (.mark .comma)) = true) 1 b 0
      (skip >>= fun _ => item) (skip >>= fun _ => item) :=
    local_bind_first (local_skip.mono fun c hc => beq_iff_eq.mp hc) fun _ => hlocal
  have hrow (ds : List δ) (hds : F.row.Proper ds) (hgenuine : AllGenuine (F.row.tokens ds)) :
      Begins (before ++ Token.mark .leftParen :: F.row.tokens ds ++ [Token.mark .rightParen]) := by
    have hrow := hallow ds hds (by simpa [Form.tokens_parenthesized] using hgenuine)
    simpa [Form.tokens_parenthesized] using hrow
  have hempty : Begins (before ++ [Token.mark .leftParen] ++ [Token.mark .rightParen]) :=
    hrow [] (List.forall_mem_nil _) allGenuine_nil
  unfold parenthesized
  refine (prompt_expect hempty.left hopen ?_).shorten (Nat.le_succ b)
  apply prompt_sees
  intro found
  cases found with
  | true =>
    simp only [if_pos, pure_bind]
    refine (prompt_past fun c hc => ?_).shorten (Nat.le_succ b)
    have ht := beq_iff_eq.mp hc.2
    exact ⟨_, _, ht, consumes_expectToken ht, fun _ => ⟨hempty, prompt_pure⟩⟩
  | false =>
    simp only [if_neg Bool.false_ne_true, separated, bind_assoc, pure_bind]
    refine prompt_bind (fun _ => hsound) hlocal.anywhere
      (hitem [] (List.forall_mem_nil _) allGenuine_nil).anywhere ?_
    intro first d hd hd'
    have hall {ds : List δ} (hds : F.later.Proper ds) : F.row.Proper (d :: ds) :=
      List.forall_mem_cons.mpr ⟨hd, hds⟩
    have hgenuine {ds : List δ} (hds : AllGenuine (F.later.tokens ds)) :
        AllGenuine (F.row.tokens (d :: ds)) :=
      allGenuine_append.mpr ⟨hd', hds⟩
    have hbehind (ds : List δ) :
        before ++ [Token.mark .leftParen] ++ F.tokens d ++ F.later.tokens ds
        = before ++ Token.mark .leftParen :: F.row.tokens (d :: ds) := by
      simp [Form.tokens_row_cons]
    refine prompt_bind_many rfl (fun hc => Form.behind_sound hsound (beq_iff_eq.mp hc)) hcomma ?_ ?_
    · intro ds hds hds'
      have hheads : AllGenuine (F.heads (d :: ds)) := by
        rw [Form.heads_cons]
        exact allGenuine_append.mpr ⟨hgenuine hds', by simp⟩
      -- A comma may stand here because there is an item to put behind it.
      have hbegins := (hallow.row_item (hall hds) hheads).begins_before hsome
      have hitem := hitem (d :: ds) (hall hds) hheads
      rw [Form.heads_cons] at hbegins hitem
      rw [hbehind]
      exact (prompt_skip (fun c hc => beq_iff_eq.mp hc) (by simpa using hbegins)
        (by simpa using hitem)).shorten (Nat.le_succ b)
    · intro rest ds hds hds'
      rw [hbehind]
      refine (prompt_expect (hrow _ (hall hds) (hgenuine hds')) ?_ ?_).shorten (Nat.le_succ b)
      · exact hclose d ds (hall hds) (hgenuine hds')
      · exact prompt_pure

end Lists

end Parser

/-- The parser follows the form. It finds derivations and looks ahead by a single token, and it is
prompt behind tokens that meet the condition and allow the form. -/
structure Form.Guides {δ α : Type} (F : Form δ α) (Q : List Token → Prop) (b : Nat) (p : Parser α) :
    Prop where
  sound : ∀ {c c' : Cursor} {a : α}, p.Yields c a c' → ∃ d, F.Spells c d a c'
  near : Parser.Local Parser.Anywhere 0 b 0 p p
  prompt : ∀ {before : List Token}, F.Allows before → Q before →
      Parser.Prompt Parser.Anywhere b before p

theorem Form.Guides.bind {δ α β : Type} {F : Form δ α} {Q : List Token → Prop}
    {A : Cursor → Prop} {b : Nat} {before : List Token} {p : Parser α} {f : α → Parser β}
    (h : F.Guides Q b p) (hallow : F.Allows before) (hQ : Q before)
    (hf : ∀ a d, F.Proper d → AllGenuine (F.tokens d) →
      Parser.Prompt Parser.Anywhere b (before ++ F.tokens d) (f a)) :
    Parser.Prompt A b before (p >>= f) :=
  Parser.prompt_bind (fun _ => h.sound) h.near.anywhere (h.prompt hallow hQ).anywhere hf

end DecafCheck
