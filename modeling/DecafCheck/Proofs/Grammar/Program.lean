import DecafCheck.Proofs.Grammar.Statement

namespace DecafCheck.Concrete

open DecafCheck.Parser

variable {c c' : Cursor} {bound : Nat}

theorem spells_parameter {p : Parameter} {a : DecafCheck.Parameter} :
    Parameter.form.Spells c p a c' ↔ c.current = some p.type.token ∧
      (c.forward 1).current = some (.identifier p.name) ∧ (c.forward 1).forward 1 = c' ∧
        ⟨p.name, p.type, c.span.merge (c.forward 1).span⟩ = a := by
  rw [Form.spells_iff_span (fun _ => .mk p.name p.type) (fun _ => rfl) (List.cons_ne_nil _ _)]
  simp only [Parameter.form, Cursor.cons_prefix_iff, Cursor.forward_cons, List.nil_prefix, and_true,
    true_and, and_assoc, List.length_nil, Cursor.forward_zero]
  constructor
  · rintro ⟨ht, hname, rfl, rfl⟩
    exact ⟨ht, hname, rfl, by rw [Cursor.previous_forward_one hname]⟩
  · rintro ⟨ht, hname, rfl, rfl⟩
    exact ⟨ht, hname, rfl, by rw [Cursor.previous_forward_one hname]⟩

theorem reads_parameter : Parameter.form.Reads parameter (fun _ => True) bound := by
  constructor
  · intro c c' a hy
    simp only [parameter, yields_bind, yields_currentSpan, yields_dataType, yields_identifier,
      yields_pure] at hy
    obtain ⟨_, _, ⟨rfl, rfl⟩, type, _, ⟨ht, -, rfl⟩, ⟨name, _⟩, _, ⟨hname, rfl, -, rfl⟩,
        rfl, rfl⟩ := hy
    exact ⟨⟨type, name⟩, spells_parameter.mpr ⟨ht, hname, rfl, rfl⟩⟩
  · intro c c' p a hc _ hs _
    obtain ⟨ht, hname, rfl, rfl⟩ := spells_parameter.mp hs
    simp only [parameter, yields_bind, yields_currentSpan, yields_dataType,
      yields_identifier, yields_pure]
    exact ⟨_, _, ⟨rfl, rfl⟩, p.type, _, ⟨ht, hc.passes, rfl⟩, (p.name, _), _,
      ⟨hname, rfl, hc.forward.passes, rfl⟩, rfl, rfl⟩

theorem starts_parameter : Parameter.form.Starts fun t => t ≠ .mark .rightParen := by
  rintro ⟨type, name⟩ _
  exact ⟨_, _, rfl, by cases type <;> simp [DataType.token]⟩

theorem reads_parameters :
    Parameter.form.parenthesized.Reads (parenthesized parameter) (fun _ => True) (bound + 1) :=
  Form.reads_parenthesized reads_parameter trivial trivial starts_parameter

theorem spells_function {g : Function} {a : DecafCheck.Function} :
    Function.form.Spells c g a c' ↔ c.current = some (.keyword .def_) ∧
      (c.forward 1).current = some g.returns.token ∧
        ((c.forward 1).forward 1).current = some (.identifier g.name) ∧
          ∃ ps b y, Parameter.form.parenthesized.Spells (((c.forward 1).forward 1).forward 1)
            g.parameters ps b ∧
            Block.form.Spells b g.body y c' ∧
            ⟨g.name, g.returns, ps, y, c.span.merge c'.previous⟩ = a := by
  have hproper : g.Proper ↔ Parameter.form.parenthesized.Proper g.parameters ∧
      Block.form.Proper g.body :=
    ⟨fun h => ⟨fun _ _ => trivial, h⟩, fun h => h.2⟩
  rw [Form.spells_iff_span (fun ls => .mk g.name g.returns
    (Parameter.form.parenthesized.along (((ls.drop 1).drop 1).drop 1) g.parameters)
    (g.body.along ((((ls.drop 1).drop 1).drop 1).drop
      (Parameter.form.parenthesized.tokens g.parameters).length)))]
  · simp only [Function.form, hproper, Function.tokens, Cursor.append_prefix_iff,
      Cursor.cons_prefix_iff, Cursor.forward_append, Cursor.forward_cons]
    constructor
    · rintro ⟨⟨hps, hbody⟩, ⟨ht, hreturns, hname, htps, htbody⟩, rfl, rfl⟩
      exact ⟨ht, hreturns, hname, _, _, _, ⟨hps, htps, rfl, rfl⟩, ⟨hbody, htbody, rfl, rfl⟩, rfl⟩
    · rintro ⟨ht, hreturns, hname, _, _, _, ⟨hps, htps, rfl, rfl⟩, ⟨hbody, htbody, rfl, rfl⟩, rfl⟩
      exact ⟨⟨hps, hbody⟩, ⟨ht, hreturns, hname, htps, htbody⟩, rfl, rfl⟩
  · intro ls
    simp only [Function.form, Function.along, List.drop_drop]
  · exact List.cons_ne_nil _ _

theorem reads_function : Function.form.Reads function (fun _ => True) bound := by
  constructor
  · intro c c' a hy
    simp only [function, yields_bind, yields_currentSpan, yields_expectToken, yields_dataType,
      yields_identifier, yields_spanFrom, yields_pure] at hy
    obtain ⟨_, _, ⟨rfl, rfl⟩, _, _, ⟨ht, -, rfl⟩, returns, _, ⟨hreturns, -, rfl⟩, ⟨name, _⟩, _,
        ⟨hname, -, -, rfl⟩, ps, b,
      hps, y, _, hy, _, _, ⟨rfl, rfl⟩, rfl, rfl⟩ := hy
    obtain ⟨parameters, hparameters⟩ := (@reads_parameters 0).sound hps
    obtain ⟨body, hbody⟩ := (reads_block 0).sound hy
    exact ⟨⟨returns, name, parameters, body⟩,
      spells_function.mpr ⟨ht, hreturns, hname, ps, b, y, hparameters, hbody, rfl⟩⟩
  · intro c c' g a hc _ hs _
    obtain ⟨ht, hreturns, hname, ps, b, y, hparameters, hbody, rfl⟩ := spells_function.mp hs
    have hps := reads_parameters.complete hc.forward.forward.forward
      (Nat.lt_succ_self _) hparameters trivial
    have hblock := (reads_block _).complete (hparameters.clean hc.forward.forward.forward)
      (Nat.lt_succ_self _) hbody
      trivial
    simp only [function, yields_bind, yields_currentSpan, yields_expectToken, yields_dataType,
      yields_identifier, yields_spanFrom, yields_pure]
    exact ⟨_, _, ⟨rfl, rfl⟩, (), _, ⟨ht, hc.passes, rfl⟩, g.returns, _,
      ⟨hreturns, hc.forward.passes, rfl⟩, (g.name, _),
      _, ⟨hname, rfl, hc.forward.forward.passes, rfl⟩, ps, b, hps, y, c', hblock, _, _,
          ⟨rfl, rfl⟩, rfl, rfl⟩

theorem spells_declared_variable {v : Variable} {a : DecafCheck.Declaration} :
    Declaration.form.Spells c (.variable v) a c' ↔
      ∃ w, Variable.form.Spells c v w c' ∧ .variable w = a :=
  Form.spells_iff_same DecafCheck.Declaration.variable .rfl rfl fun _ => rfl

theorem spells_declared_function {g : Function} {a : DecafCheck.Declaration} :
    Declaration.form.Spells c (.function g) a c' ↔
      ∃ h, Function.form.Spells c g h c' ∧ .function h = a :=
  Form.spells_iff_same DecafCheck.Declaration.function .rfl rfl fun _ => rfl

theorem reads_declaration : Declaration.form.Reads declaration (fun _ => True) bound := by
  constructor
  · intro c c' a hy
    simp only [declaration, yields_bind, yields_current, yields_ite, yields_pure] at hy
    obtain ⟨_, _, ⟨rfl, rfl⟩, ⟨-, g, _, hg, rfl, rfl⟩ | ⟨-, ⟨-, v, _, hv, rfl, rfl⟩ | ⟨-, hf⟩⟩⟩ :=
      hy
    · obtain ⟨d, hd⟩ := (@reads_function 0).sound hg
      exact ⟨.function d, spells_declared_function.mpr ⟨g, hd, rfl⟩⟩
    · obtain ⟨d, hd⟩ := (@reads_variable 0).sound hv
      exact ⟨.variable d, spells_declared_variable.mpr ⟨v, hd, rfl⟩⟩
    · exact absurd hf yields_fail
  · intro c c' d a hc hb hs _
    simp only [declaration, yields_bind, yields_current, yields_ite, yields_pure]
    refine ⟨_, _, ⟨rfl, rfl⟩, ?_⟩
    cases d with
    | function d =>
      obtain ⟨g, hd, rfl⟩ := spells_declared_function.mp hs
      have ht := (spells_function.mp hd).1
      exact .inl ⟨beq_iff_eq.mpr ht, g, c', reads_function.complete hc hb hd trivial, rfl, rfl⟩
    | «variable» d =>
      obtain ⟨v, hd, rfl⟩ := spells_declared_variable.mp hs
      have ht := (spells_variable.mp hd).1
      refine .inr ⟨?_, .inl ⟨?_, v, c', reads_variable.complete hc hb hd trivial, rfl, rfl⟩⟩
      · cases htype : d.type <;> simp [ht, htype, DataType.token]
      · cases htype : d.type <;> simp [ht, htype, DataType.token, Token.isType]

theorem starts_declaration :
    Declaration.form.Starts fun t => (some t).isSome = true ∧ (fun _ => True) (some t) := by
  rintro (v | g) _
  · exact ⟨_, _, rfl, rfl, trivial⟩
  · exact ⟨_, _, rfl, rfl, trivial⟩

theorem reads_declarations :
    Declaration.form.many.Reads (many Option.isSome declaration)
      (fun t => True ∧ t.isSome = false) bound :=
  Form.reads_many (fun _ => (@reads_declaration bound).sound) reads_declaration.complete
    starts_declaration

/-- The span of a program, which is that of the whole text if there are no declarations. -/
theorem span_program {ds : List Declaration} {as : List DecafCheck.Declaration}
    (hs : Declaration.form.many.Spells c ds as c') (hstart : c.previous = ⟨0, 0⟩)
    (hend : c'.tokens = []) :
    c.span.merge c'.previous =
      if ds = [] then ⟨0, c.length⟩ else
        Lexeme.cover c.ahead (Declaration.form.many.tokens ds).length := by
  obtain ⟨hp, ht, -, rfl⟩ := hs
  split
  · next hds =>
    subst hds
    have hahead : c.ahead = [] := List.map_eq_nil_iff.mp hend
    simp [Cursor.span, hahead, hstart, Span.merge]
  · next hds =>
    refine Cursor.merge_forward ht fun hnil => hds ?_
    have hcount := Form.length_le_tokens_many starts_declaration hp
    rw [hnil] at hcount
    exact List.eq_nil_of_length_eq_zero (Nat.le_zero.mp hcount)

theorem tokens_forward_length (c : Cursor) : (c.forward c.tokens.length).tokens = [] := by
  rw [Cursor.tokens_forward, List.drop_length]

/-- Declarations are read up to the end. -/
theorem tokens_of_declarations {as : List DecafCheck.Declaration}
    (h : (many Option.isSome declaration).Yields c as c') : c'.tokens = [] := by
  simp only [many, yields_bind, yields_remaining] at h
  obtain ⟨_, _, ⟨rfl, rfl⟩, h⟩ := h
  have hnone : c'.current.isSome = false :=
    Form.many_ends starts_declaration (fun _ => (@reads_declaration 0).sound) rfl le_rfl h
  rw [Cursor.current_eq] at hnone
  simpa using hnone

/-- At the start of a text, a program is read exactly if all tokens together derive from the
grammar. -/
theorem yields_program (hc : c.Clean) (hstart : c.previous = ⟨0, 0⟩) {p : DecafCheck.Program} :
    program.Yields c p c' ↔ ∃ d : Program, d.Proper ∧ d.tokens = c.tokens ∧
      d.along c.length c.ahead = p ∧
      c.forward c.tokens.length = c' := by
  simp only [program, yields_bind, yields_currentSpan, yields_spanFrom, yields_pure]
  constructor
  · rintro ⟨_, _, ⟨rfl, rfl⟩, as, b, has, _, _, ⟨rfl, rfl⟩, rfl, rfl⟩
    obtain ⟨ds, hds⟩ := (@reads_declarations 0).sound has
    have hend : b.tokens = [] := tokens_of_declarations has
    have htokens : Declaration.form.many.tokens ds = c.tokens := by
      apply hds.2.1.eq_of_length
      have hlength := hds.length
      rw [hend] at hlength
      simpa using hlength
    refine ⟨⟨ds⟩, hds.1, htokens, ?_, htokens ▸ hds.2.2.2⟩
    rw [span_program hds hstart hend]
    exact congrArg (DecafCheck.Program.mk · _) hds.2.2.1
  · rintro ⟨⟨ds⟩, hp, ht, rfl, rfl⟩
    have hds : Declaration.form.many.Spells c ds _ (c.forward c.tokens.length) :=
      ⟨hp, List.prefix_iff_eq_take.mpr (by rw [← ht]; exact List.take_length.symm), rfl,
        congrArg (c.forward ·.length) ht⟩
    have hend := tokens_forward_length c
    have hnone : True ∧ (c.forward c.tokens.length).current.isSome = false := by
      rw [Cursor.current_eq, hend]
      exact ⟨trivial, rfl⟩
    refine ⟨_, _, ⟨rfl, rfl⟩, _, _, reads_declarations.complete hc (Nat.lt_succ_self _) hds hnone,
      _, _, ⟨rfl, rfl⟩, ?_, rfl⟩
    rw [span_program hds hstart hend]
    rfl

end DecafCheck.Concrete
