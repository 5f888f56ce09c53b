import DecafCheck.Proofs.Grammar.Growth.Basic

namespace DecafCheck

namespace Parser

variable {α : Type} {c : Cursor}

theorem run_takeAs_of_ok {judge : Option Token → Span → Except GrammarFault α} {t : Token} {a : α}
    (ht : c.current = some t) (h : judge c.current c.span = .ok a) :
    (takeAs judge).run c = (skip >>= fun _ => pure a).run c := by
  rw [run_takeAs, run_bind, run_skip ht, run_takeAs, h, ht]
  cases c.advance <;> rfl

theorem run_sign {op : UnaryOp} (h : c.current.bind UnaryOp.ofToken? = some op) :
    sign.run c = (skip >>= fun _ => pure (op, c.span)).run c := by
  obtain ⟨t, ht, -⟩ := Option.bind_eq_some_iff.mp h
  rw [sign_eq]
  exact run_takeAs_of_ok ht (by rw [h])

theorem run_rightSide {stratum : List BinaryOp} {operand : Parser Expr} {op : BinaryOp}
    (h : c.current.bind (BinaryOp.ofToken? stratum) = some op) :
    (rightSide stratum operand).run c =
      (skip >>= fun _ => operand >>= fun e => pure (op, e)).run c := by
  obtain ⟨t, ht, -⟩ := Option.bind_eq_some_iff.mp h
  rw [rightSide_eq, run_bind, run_takeAs_of_ok ht (a := op) (by rw [h]), ← run_bind]
  simp only [bind_assoc, pure_bind]

/-- A primary expression behind at most `steps` unary operators. -/
def signed (E : Parser Expr) (steps : Nat) : Parser Expr := do
  let signs ← manyUpTo (fun t => (t.bind UnaryOp.ofToken?).isSome) sign steps
  let operand ← primary E
  return signs.foldr (fun s e => .unary s.1 e (s.2.merge e.span)) operand

theorem run_unary (E : Parser Expr) (c : Cursor) :
    (unary E).run c = (signed E c.ahead.length).run c := by
  rw [unary, many, bind_assoc, run_bind, run_remaining]
  rfl

theorem run_signed (E : Parser Expr) {steps : Nat} (hsteps : c.ahead.length ≤ steps) :
    (c.current.bind UnaryOp.ofToken? = none ∧ (signed E steps).run c = (primary E).run c) ∨
      ∃ op n, c.current.bind UnaryOp.ofToken? = some op ∧ c.ahead.length ≤ n + 1 ∧
        (signed E steps).run c =
        (skip >>= fun _ => signed E n >>= fun e => pure (.unary op e (c.span.merge e.span))).run
          c := by
  rcases run_manyUpTo (fun t => (t.bind UnaryOp.ofToken?).isSome) sign rfl hsteps with
    ⟨hstop, hrun⟩ | ⟨n, hgo, hn, hrun⟩
  · rw [Option.isSome_eq_false_iff, Option.isNone_iff_eq_none] at hstop
    refine .inl ⟨hstop, ?_⟩
    rw [signed, run_bind, hrun]
    simp only [List.foldr_nil, bind_pure]
  · obtain ⟨op, hop⟩ := Option.isSome_iff_exists.mp hgo
    refine .inr ⟨op, n, hop, hn, ?_⟩
    rw [signed, run_bind, hrun, ← run_bind, bind_assoc, run_bind, run_sign hop, ← run_bind]
    simp only [signed, bind_assoc, pure_bind, List.foldr_cons]

/-- An operand with at most `steps` operators of the stratum to its right. -/
def joined (stratum : List BinaryOp) (operand : Parser Expr) (first : Expr) (steps : Nat) :
    Parser Expr := do
  let rest ← manyUpTo (fun t => (t.bind (BinaryOp.ofToken? stratum)).isSome)
    (rightSide stratum operand) steps
  return rest.foldl (fun left r => .binary r.1 left r.2 (left.span.merge r.2.span)) first

theorem run_binary (stratum : List BinaryOp) (tighter : List (List BinaryOp))
    (operand : Parser Expr) (c : Cursor) :
    (binary operand (stratum :: tighter)).run c = (binary operand tighter >>= fun first =>
      remaining >>= fun steps => joined stratum (binary operand tighter) first steps).run c := by
  rw [binary]
  simp only [many, joined, bind_assoc]

theorem run_joined (stratum : List BinaryOp) (operand : Parser Expr) (first : Expr) {steps : Nat}
    (hsteps : c.ahead.length ≤ steps) :
    (c.current.bind (BinaryOp.ofToken? stratum) = none ∧
      (joined stratum operand first steps).run c = .ok (first, c)) ∨
      ∃ op n, c.current.bind (BinaryOp.ofToken? stratum) = some op ∧ c.ahead.length ≤ n + 1 ∧
        (joined stratum operand first steps).run c = (skip >>= fun _ => operand >>= fun right =>
          joined stratum operand (.binary op first right (first.span.merge right.span)) n).run
          c := by
  rcases run_manyUpTo (fun t => (t.bind (BinaryOp.ofToken? stratum)).isSome)
    (rightSide stratum operand) rfl hsteps with
    ⟨hstop, hrun⟩ | ⟨n, hgo, hn, hrun⟩
  · rw [Option.isSome_eq_false_iff, Option.isNone_iff_eq_none] at hstop
    refine .inl ⟨hstop, ?_⟩
    rw [joined, run_bind, hrun]
    rfl
  · obtain ⟨op, hop⟩ := Option.isSome_iff_exists.mp hgo
    refine .inr ⟨op, n, hop, hn, ?_⟩
    rw [joined, run_bind, hrun, ← run_bind, bind_assoc, run_bind, run_rightSide hop, ← run_bind]
    simp only [joined, bind_assoc, pure_bind, List.foldl_cons]

end Parser

namespace Expr

theorem plant_location (name : String) (index : Option Expr) (span : Span) (f : Forest) :
    (location name index span).plant f =
      (plant? f index).1.add (.location name (plant? f index).2) span := by
  cases index <;> rfl

/-- The node planted last is the expression's own. -/
theorem span_plant (e : Expr) (f : Forest) :
    ((e.plant f).1.node? (e.plant f).2).map Node.span = some e.span := by
  have hadd (f : Forest) (kind : Kind) (span : Span) :
      ((f.add kind span).1.node? (f.add kind span).2).map Node.span = some span := by
    simp [Forest.add, Forest.node?, Forest.size]
  cases e with
  | location name index span => cases index <;> exact hadd _ _ _
  | _ => exact hadd _ _ _

theorem node?_plant (e : Expr) {f : Forest} {id : NodeId} {span : Span}
    (h : (f.node? id).map Node.span = some span) :
    ((e.plant f).1.node? id).map Node.span = some span := by
  obtain ⟨n, hn, rfl⟩ := Option.map_eq_some_iff.mp h
  have hid : id < f.nodes.size := (Array.getElem?_eq_some_iff.mp hn).1
  rw [(e.plants).eq, Forest.node?, Forest.grow, Array.getElem?_append_left hid]
  exact h

end Expr

namespace Growing

section Expression

variable {limit spare b : Nat} {c : Cursor} {f : Forest} {number : Numbering}
  (hnumber : ∀ n < limit, number n = some n) {E : Parser Expr}
  (hE : Raises limit Parser.Anywhere 1 b E Expr.plant (level number BinaryOp.strata))

include hE in
theorem raises_arguments :
    Raises limit Parser.Anywhere 1 b (Parser.parenthesized E) (Forest.plantRow Expr.plant)
      (arguments number) := by
  have hmore : Repeats (· == some (.mark .comma))
      (fun depth => reading .skip >>= fun _ => level number BinaryOp.strata depth)
      (moreArguments number) := by
    intro depth
    simp only [moreArguments, bind_assoc]
  exact (raises_parenthesized hE hmore (arguments.eq_2 number)).deeper

include hnumber hE

theorem grows_indexed {name : String} {start : Span} (h : Ready limit b (spare + 1) c f) :
    Grows limit c f (Parser.index? E >>= fun index => Parser.spanFrom start >>= fun span =>
      pure (index, span)) (location number name start)
      fun r d id g => (Expr.location name r.1 r.2).plant f = (g, id) ∧ c.Leads 0 d ∧
        Ready limit b spare d g := by
  apply Grows.deeper
  simp only [Growing.location, Parser.index?, bind_assoc]
  apply h.read Parser.local_accept
  intro found d hd h₁
  cases found with
  | true =>
    simp only [if_true, bind_assoc, pure_bind]
    apply hE.next trivial h₁
    intro e d' id g he hd' h₂
    apply h₂.read Parser.local_expect
    intro _ d'' hd'' h₃
    apply grows_look rfl
    apply Ready.finish hnumber (h₃.less (Nat.le_add_right _ _))
    intro h₄
    refine ⟨?_, ((hd.trans hd').trans hd'').weaken (Nat.zero_le _), h₄⟩
    rw [Expr.plant, he]
    rfl
  | false =>
    simp only [Bool.false_eq_true, if_false, pure_bind]
    apply grows_look rfl
    exact Ready.finish hnumber h₁ fun h₂ => ⟨by rw [Expr.plant]; rfl, hd, h₂⟩

theorem grows_location {γ δ : Type} {post : γ → Cursor → δ → Forest → Prop} {name : String}
    {start : Span} {p : Option Expr → Span → Parser γ} {q : NodeId → Nat → Growing δ}
    (h : Ready limit b (spare + 1) c f)
    (hnext : ∀ index span d id g, (Expr.location name index span).plant f = (g, id) → c.Leads 0 d →
      Ready limit b spare d g → Grows limit d g (p index span) (q id) post) :
    Grows limit c f (Parser.index? E >>= fun index =>
      Parser.spanFrom start >>= fun span => p index span)
      (fun depth => location number name start depth >>= fun id => q id depth) post := by
  have hnext' : ∀ (r : Option Expr × Span) d id g, (Expr.location name r.1 r.2).plant f = (g,
      id) ∧ c.Leads 0 d ∧ Ready limit b spare d g → Grows limit d g (p r.1 r.2) (q id) post := by
    rintro r d id g ⟨hr, hd, h₁⟩
    exact hnext r.1 r.2 d id g hr hd h₁
  refine grows_congr ?_ (fun _ => rfl) (grows_bind (grows_indexed hnumber hE h) hnext')
  simp only [bind_assoc, pure_bind]

omit hE in
theorem grows_literal (h : Ready limit b spare c f) {t : Token} (ht : c.current = some t)
    (value : Literal) :
    Grows limit c f (Parser.skip >>= fun _ => pure (.literal value c.span))
      (fun _ => reading .skip >>= fun _ => add number (.literal value) c.span)
      (Planted limit 1 b spare Expr.plant c f) := by
  apply h.skip ht
  intro d hd h₁
  exact Ready.finish hnumber h₁ fun h₂ => ⟨rfl, hd, h₂⟩

omit hE in
theorem grows_integer (h : Ready limit b spare c f) {spelling : String}
    (ht : c.current = some (.integer spelling)) :
    Grows limit c f
      (do
        let value ← Parser.integer spelling c.span
        Parser.skip
        return .literal (.int value) c.span)
      (fun _ => do
        let value ← reading (.integer spelling c.span)
        reading .skip
        add number (.literal (.int value)) c.span)
      (Planted limit 1 b spare Expr.plant c f) := by
  by_cases hlt : Integer.value spelling < integerBound
  · have hvalue : (Parser.integer spelling c.span).run c = .ok (Integer.value spelling, c) := by
      rw [Parser.integer, if_pos hlt]
      rfl
    exact grows_look hvalue (grows_literal hnumber h ht _)
  · have hlarge : (Parser.integer spelling c.span).run c =
        .error (.grammar ⟨.integerTooLarge spelling, c.span⟩) := by
      rw [Parser.integer, if_neg hlt]
      rfl
    exact h.fail_bind hlarge

theorem grows_reference (h : Ready limit (b + 1) spare c f) :
    Grows limit c f (Parser.reference E)
      (fun depth => do
        let found ← reading .identifier
        if ← reading (.sees .leftParen) then
          let args ← arguments number depth
          let span ← reading (.spanFrom found.2)
          add number (.call found.1 args) span
        else
          location number found.1 found.2 depth)
      (Planted limit 1 (b + 1) spare Expr.plant c f) := by
  rw [Parser.reference]
  apply h.read Parser.local_identifier
  rintro ⟨name, start⟩ d hd _
  have h₁ : Ready limit b (spare + 1) d f := h.past hd
  apply grows_look rfl
  cases (d.current == some (.mark .leftParen)) with
  | true =>
    apply (raises_arguments hE).next trivial h₁
    intro args d' ids g hargs hd' h₂
    apply grows_look rfl
    apply Ready.finish hnumber h₂
    intro h₃
    refine ⟨?_, (hd.trans hd').weaken (by omega), h₃.wider⟩
    rw [Expr.plant, Expr.plantAll_eq_plantRow, hargs]
    rfl
  | false =>
    simp only [Bool.false_eq_true, if_false]
    refine grows_congr rfl (fun depth => by rw [← bind_pure (location number name start depth)]) ?_
    apply grows_location hnumber hE h₁
    intro index span d' id g hlocation hd' h₂
    exact grows_pure ⟨hlocation, hd.trans hd', h₂.wider⟩

theorem raises_primary :
    Raises limit Parser.Anywhere 1 (b + 1) (Parser.primary E) Expr.plant (primary number) := by
  constructor
  intro spare c f _ h
  apply Grows.deeper
  simp only [Growing.primary, Parser.primary]
  apply grows_look rfl
  apply grows_look rfl
  generalize hfound : c.current = found
  split
  · exact grows_integer hnumber h hfound
  · exact grows_literal hnumber h hfound _
  · exact grows_literal hnumber h hfound _
  · exact grows_reference hnumber hE h
  · apply h.skip hfound
    intro d hd _
    have h₁ : Ready limit b (spare + 1) d f := h.past hd
    apply hE.next trivial h₁
    intro e d' id g he hd' h₂
    apply h₂.read Parser.local_expect
    intro _ d'' hd'' h₃
    have hd₃ := (hd.trans hd').trans hd''
    exact grows_pure ⟨he, hd₃.weaken (by omega), (h₃.less (by omega)).wider⟩
  · try simp only
    exact h.fail

theorem grows_signed {steps : Nat} (h : Ready limit (b + 1) spare c f)
    (hsteps : c.ahead.length ≤ steps) :
    Grows limit c f (Parser.signed E steps) (unary number)
      (Planted limit 1 (b + 1) spare Expr.plant c f) := by
  induction hlength : c.ahead.length using Nat.strong_induction_on generalizing steps spare c f with
  | _ length ih =>
    apply Grows.deeper
    simp only [Growing.unary]
    apply grows_peek rfl
    apply grows_peek rfl
    rcases Parser.run_signed E hsteps with ⟨hop, hrun⟩ | ⟨op, n, hop, hn, hrun⟩
    · rw [hop]
      exact grows_congr hrun (fun _ => rfl) ((raises_primary hnumber hE).grows trivial h)
    · obtain ⟨t, ht, -⟩ := Option.bind_eq_some_iff.mp hop
      rw [hop]
      apply grows_congr hrun (fun _ => rfl)
      apply h.skip ht
      intro d hd h₁
      have hless := hd.length_le
      apply grows_bind (ih d.ahead.length (by omega) h₁ (by omega) rfl)
      intro e d' id g he
      have hspan := e.span_plant f
      rw [he.planted] at hspan
      apply grows_spanOf hspan
      apply Ready.finish hnumber he.ready
      intro h₂
      refine ⟨?_, (hd.trans he.leads).weaken (by omega), h₂⟩
      rw [Expr.plant, he.planted]
      rfl

theorem raises_unary :
    Raises limit Parser.Anywhere 1 (b + 1) (Parser.unary E) Expr.plant (unary number) := by
  constructor
  intro spare c f _ h
  exact grows_congr (Parser.run_unary E c) (fun _ => rfl)
    (grows_signed hnumber hE h (Nat.le_refl _))

end Expression

section Strata

variable {limit spare b : Nat} {c : Cursor} {f : Forest} {number : Numbering}
  (hnumber : ∀ n < limit, number n = some n)

include hnumber

/-- The operand on the left has been planted in `f₀`. -/
theorem grows_joined {stratum : List BinaryOp} {tighter : List (List BinaryOp)}
    {operand : Parser Expr} (hoperand : Raises limit Parser.Anywhere 1 b operand Expr.plant
      (level number tighter)) {first : Expr} {f₀ : Forest}
    {left : NodeId} (hfirst : first.plant f₀ = (f, left)) {steps : Nat}
    (h : Ready limit b spare c f) (hsteps : c.ahead.length ≤ steps) :
    Grows limit c f (Parser.joined stratum operand first steps)
      (operators number stratum tighter left)
      fun e d id g => e.plant f₀ = (g, id) ∧ c.Leads 0 d ∧ Ready limit b spare d g := by
  induction hlength :
    c.ahead.length using Nat.strong_induction_on generalizing steps spare c f first left with
  | _ length ih =>
    apply Grows.deeper
    simp only [Growing.operators]
    apply grows_peek rfl
    rcases Parser.run_joined stratum operand first hsteps with ⟨hop, hrun⟩ | ⟨op, n, hop, hn, hrun⟩
    · rw [hop]
      refine ⟨_, settles_const _, ?_⟩
      rw [hrun]
      exact .ok ⟨hfirst, Cursor.leads_refl h.reaches, h⟩
    · obtain ⟨t, ht, -⟩ := Option.bind_eq_some_iff.mp hop
      rw [hop]
      apply grows_congr hrun (fun _ => rfl)
      apply h.skip ht
      intro d hd h₁
      apply hoperand.next trivial h₁
      intro e d' right g he hd' h₂
      have hleft := first.span_plant f₀
      rw [hfirst] at hleft
      have hleft' := e.node?_plant hleft
      have hright := e.span_plant f
      rw [he] at hleft' hright
      apply grows_spanOf hleft'
      apply grows_spanOf hright
      apply Ready.grow hnumber h₂
      intro h₃
      have hlead := hd.trans hd'
      have hless := hlead.length_le
      refine (ih d'.ahead.length (by omega) ?_ h₃ (by omega) rfl).mono ?_
      · simp only [Expr.plant, hfirst, he]
        rfl
      · rintro e' d'' id g' ⟨he', hd'', h₄⟩
        exact ⟨he', (hlead.trans hd'').weaken (Nat.zero_le _), h₄⟩

theorem raises_level {operand : Parser Expr}
    (h : Raises limit Parser.Anywhere 1 b operand Expr.plant (unary number))
    (strata : List (List BinaryOp)) :
    Raises limit Parser.Anywhere 1 b (Parser.binary operand strata) Expr.plant
      (level number strata) := by
  induction strata with
  | nil =>
    apply Raises.deeper
    simp only [Parser.binary, Growing.level]
    exact h
  | cons stratum tighter ih =>
    constructor
    intro spare c f _ hready
    apply Grows.deeper
    simp only [Growing.level]
    apply grows_congr (Parser.run_binary stratum tighter operand c) fun _ => rfl
    apply ih.next trivial hready
    intro first d left g hfirst hd h₁
    refine grows_congr (Parser.run_bind _ _ _) (fun _ => rfl) ?_
    refine (grows_joined hnumber ih hfirst h₁ (Nat.le_refl _)).mono ?_
    rintro e d' id g' ⟨he, hd', h₂⟩
    exact ⟨he, hd.trans hd', h₂⟩

theorem raises_nested (depth : Nat) :
    Raises limit Parser.Anywhere 1 depth (Parser.nested depth) Expr.plant
      (level number BinaryOp.strata) := by
  induction depth with
  | zero => exact ⟨fun _ h => absurd h.bounded (Nat.not_lt_zero _)⟩
  | succ depth ih =>
    rw [Parser.nested]
    exact raises_level hnumber (raises_unary hnumber ih) BinaryOp.strata

theorem raises_expression :
    Raises limit Parser.Anywhere 1 b Parser.expression Expr.plant (expression number) :=
  raises_of_depth (raises_nested hnumber) fun c => by rw [Parser.expression, Parser.run_bind,
    Parser.run_remaining]

end Strata

end Growing

end DecafCheck
