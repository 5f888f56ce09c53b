import DecafCheck.Proofs.Typing.Local

namespace DecafCheck

namespace Program

/-- All problems with a program: those with its declarations, then those with its constructs. -/
def log (policy : Policy) (p : Program) : List Diagnostic :=
  p.scopeLog policy ++ p.typeLog policy

theorem checkTypes_eq (policy : Policy) (p : Program) (before : Types) :
    ∃ types, (p.annotated policy).Checked policy p.tree types ∧
      (p.annotated policy).checkTypes before = ⟨types, p.typeLog policy, none⟩ := by
  obtain ⟨types, h, hcheck⟩ :=
    (p.annotated_built policy).checkTypes_eq (fun x => fitting_of_mem) rfl before
  refine ⟨types, h, ?_⟩
  rw [hcheck, ← h.program]

/-- The analysis of a program's forest goes through. -/
theorem analyze_eq (policy : Policy) (p : Program) :
    ∃ types, (p.annotated policy).Checked policy p.tree types ∧
      p.grown.analyze policy = ⟨(p.annotated policy, types), p.log policy, none⟩ := by
  obtain ⟨types, h, hcheck⟩ := p.checkTypes_eq policy []
  refine ⟨types, h, ?_⟩
  simp only [Forest.analyze, p.buildScopes_eq, hcheck]
  rfl

end Program

/-- The check goes through for every text that can be read. It reports the problems with the
declarations and then those with the constructs. -/
theorem check_of_parse_ok {source : String} {p : Program} (hp : Program.parse source = .ok p)
    (policy : Policy) :
    ∃ types, (p.annotated policy).Checked policy p.tree types ∧
      check policy source = .ok ⟨p.annotated policy, types, p.log policy⟩ := by
  obtain ⟨types, h, hanalyze⟩ := p.analyze_eq policy
  refine ⟨types, h, ?_⟩
  have hf : Forest.parse source = .ok p.grown := Forest.parse_eq_ok_iff.mpr ⟨p, hp, rfl⟩
  simp only [check, hf, bind, Except.bind, hanalyze]
  rfl

theorem check_of_parse_error {source : String} {e : ParseError}
    (he : Program.parse source = .error e) (policy : Policy) :
    check policy source = .error (Stop.ofParseError e) := by
  simp only [check, Forest.parse_eq_error he]
  rfl

end DecafCheck
