import DecafCheck.Proofs.Analysis.Safety
import DecafCheck.Proofs.Grammar.Layout
import DecafCheck.Proofs.Typing.Bare

namespace DecafCheck

/-- What a diagnostic says, wherever it says it. -/
def Diagnostic.content (d : Diagnostic) : Code × String :=
  (d.code, d.message)

theorem Diagnostic.content_moved (φ : Span → Span) (log : List Diagnostic) :
    (log.map (moved φ)).map content = log.map content := by
  rw [List.map_map]
  rfl

namespace Program

theorem grown_bare (p : Program) : p.bare.grown = p.grown.bare := by
  rw [grown, plant_bare, Forest.linked_bare _ p.plant_carries.root, grown]

theorem log_bare (policy : Policy) (p : Program) :
    p.bare.log policy = (p.log policy).map (Diagnostic.moved .forget) := by
  obtain ⟨_, -, hp⟩ := p.analyze_eq policy
  obtain ⟨_, -, hbare⟩ := p.bare.analyze_eq policy
  have hlog := congrArg Outcome.log (p.grown.analyze_bare policy)
  rwa [← grown_bare, hbare, hp] at hlog

variable {p q : Program}

theorem log_content_eq (h : p.bare = q.bare) (policy : Policy) :
    (p.log policy).map Diagnostic.content = (q.log policy).map Diagnostic.content := by
  rw [← Diagnostic.content_moved .forget, ← log_bare, h, log_bare, Diagnostic.content_moved]

/-- Spans have no say in how programs are annotated and typed. -/
theorem analyze_value_eq (h : p.bare = q.bare) (policy : Policy) :
    (p.annotated policy).bare = (q.annotated policy).bare ∧
      (p.grown.analyze policy).value.2 = (q.grown.analyze policy).value.2 := by
  have hgrown : p.grown.bare = q.grown.bare := by rw [← grown_bare, h, grown_bare]
  have hvalue := congrArg (fun f => (f.analyze policy).value) hgrown
  simp only [Forest.analyze_bare, Prod.map, id, Prod.mk.injEq] at hvalue
  obtain ⟨_, -, hp⟩ := p.analyze_eq policy
  obtain ⟨_, -, hq⟩ := q.analyze_eq policy
  rwa [hp, hq] at hvalue ⊢

theorem check_eq {source : String} (hp : parse source = .ok p) (policy : Policy) :
    check policy source =
      .ok ⟨p.annotated policy, (p.grown.analyze policy).value.2, p.log policy⟩ := by
  obtain ⟨types, -, hanalyze⟩ := p.analyze_eq policy
  have hf : Forest.parse source = .ok p.grown := Forest.parse_eq_ok_iff.mpr ⟨p, hp, rfl⟩
  simp only [check, hf, bind, Except.bind, hanalyze]
  rfl

end Program

/-- Two texts of the same tokens have the same fault, or they hold forests that differ in their
spans only. The checks then report the same in the same order, infer the same types, and leave
tables that are dumped as the same text. -/
theorem check_layout_free {source source' : String} {ls ls' : List Lexeme}
    (h : (Scan.ofString source).tokens = .ok ls) (h' : (Scan.ofString source').tokens = .ok ls')
    (htokens : ls.map Lexeme.token = ls'.map Lexeme.token) (policy : Policy) :
    (∃ e e', Forest.parse source = .error (.grammar e) ∧
      Forest.parse source' = .error (.grammar e') ∧
      e.fault.message = e'.fault.message) ∨
    ∃ f f' a a', Forest.parse source = .ok f ∧ Forest.parse source' = .ok f' ∧ f.bare = f'.bare ∧
      check policy source = .ok a ∧ check policy source' = .ok a' ∧
      a.log.map Diagnostic.content = a'.log.map Diagnostic.content ∧
      (∀ id, a.types.lookup id = a'.types.lookup id) ∧
      ∃ text, a.forest.dumpSymbols = .ok text ∧ a'.forest.dumpSymbols = .ok text := by
  rcases Program.parse_layout h h' htokens with ⟨p, q, hp, hq, hbare⟩ | ⟨e, e', he, he', hfault⟩
  · right
    have hf : Forest.parse source = .ok p.grown := Forest.parse_eq_ok_iff.mpr ⟨p, hp, rfl⟩
    have hf' : Forest.parse source' = .ok q.grown := Forest.parse_eq_ok_iff.mpr ⟨q, hq, rfl⟩
    have hgrown : p.grown.bare = q.grown.bare := by rw [← p.grown_bare, hbare, q.grown_bare]
    obtain ⟨hforest, htypes⟩ := Program.analyze_value_eq hbare policy
    obtain ⟨text, htext⟩ := (p.annotated_built policy).closed.dumpSymbols
    have htext' : (q.annotated policy).dumpSymbols = .ok text := by
      rw [← Forest.dumpSymbols_bare, ← hforest, Forest.dumpSymbols_bare, htext]
    exact ⟨_, _, _, _, hf, hf', hgrown, Program.check_eq hp policy, Program.check_eq hq policy,
      Program.log_content_eq hbare policy, fun id => congrArg (List.lookup id) htypes, text,
      htext, htext'⟩
  · left
    exact ⟨e, e', Forest.parse_eq_error he, Forest.parse_eq_error he',
      congrArg GrammarFault.message hfault⟩

/-- A program on one line, and with a comment and line breaks. -/
theorem check_layout_free_comment :
    ∃ ls, (Scan.ofString "int x;def int main()\x7breturn y;\x7d").tokens = .ok ls ∧
    ∃ ls',
      (Scan.ofString "// global\nint x ;\n\ndef int main ( ) \x7b\n  return y;\n\x7d\n").tokens =
      .ok ls' ∧ ls.map Lexeme.token = ls'.map Lexeme.token ∧
      ∃ a a', check {} "int x;def int main()\x7breturn y;\x7d" = .ok a ∧
        check {} "// global\nint x ;\n\ndef int main ( ) \x7b\n  return y;\n\x7d\n" = .ok a' ∧
        a.log.map Diagnostic.content = a'.log.map Diagnostic.content := by
  have htokens : (Scan.ofString "int x;def int main()\x7breturn y;\x7d").tokens.toOption.map
      (List.map Lexeme.token) =
      (Scan.ofString
        "// global\nint x ;\n\ndef int main ( ) \x7b\n  return y;\n\x7d\n").tokens.toOption.map
        (List.map Lexeme.token) := by decide +kernel
  have hread : (Forest.parse "int x;def int main()\x7breturn y;\x7d").toOption.isSome = true := by
    decide +kernel
  apply exists_ok_of_isSome (by decide +kernel)
  intro ls hls
  apply exists_ok_of_isSome (by decide +kernel)
  intro ls' hls'
  rw [hls, hls'] at htokens
  have heq := Option.some.inj htokens
  rcases check_layout_free hls hls' heq {} with ⟨e, e', he, -⟩ |
    ⟨f, f', a, a', -, -, -, ha, ha', hlog, -⟩
  · rw [he] at hread
    cases hread
  · exact ⟨heq, a, a', ha, ha', hlog⟩

end DecafCheck
