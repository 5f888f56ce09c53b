import DecafCheck.Command.Execute
import DecafCheck.Proofs.Analysis.Safety
import DecafCheck.Proofs.Grammar.Lookahead

namespace DecafCheck

namespace Run

@[simp]
theorem result_pure {α : Type} (a : α) : (Pure.pure a : Run α).result = .ok a :=
  rfl

@[simp]
theorem result_bind {α β : Type} (r : Run α) (next : α → Run β) :
    (r >>= next).result = r.result >>= fun a => (next a).result := by
  show (Run.bind r next).result = _
  unfold Run.bind
  cases r.result <;> rfl

@[simp]
theorem result_write (text : String) : (write text).result = .ok () :=
  rfl

@[simp]
theorem result_writeIf (condition : Bool) (text : String) :
    (writeIf condition text).result = .ok () :=
  rfl

@[simp]
theorem result_step {α : Type} (file : SourceFile) (r : Except Stop α) :
    (step file r).result = r := by
  cases r <;> rfl

/-- What an optional part of a run comes to. -/
def resultIf (condition : Bool) (r : Run Unit) : Except Stop Unit :=
  if condition then r.result else .ok ()

theorem result_optional {β : Type} (condition : Bool) (first : Run Unit) (next : Unit → Run β) :
    (if condition then first >>= next else next ()).result
      = resultIf condition first >>= fun _ => (next ()).result := by
  cases condition
  · rfl
  · rw [if_pos rfl, result_bind]
    rfl

end Run

theorem result_dumpTokens (file : SourceFile) :
    (dumpTokens file).result = (Scan.ofString file.text).tokens.mapError Stop.lexical >>=
      fun _ => .ok () := by
  simp only [dumpTokens, Scan.dump, Run.result_bind, Run.result_step, Run.result_write]
  cases (Scan.ofString file.text).tokens <;> rfl

theorem result_dumpSymbols (file : SourceFile) {f : Forest} (h : f.Closed) :
    (dumpSymbols file f).result = .ok () := by
  obtain ⟨text, ht⟩ := h.dumpSymbols
  simp only [dumpSymbols, Run.result_bind, Run.result_step, ht]
  rfl

/-- What a run comes to, without what it writes. -/
theorem result_run (options : Options) (file : SourceFile) :
    (run options file).result = (do
      Run.resultIf options.dumpTokens (dumpTokens file)
      let f ← Forest.parse file.text
      let annotated ← (f.buildScopes options.policy).result
      Run.resultIf options.dumpSymbols (dumpSymbols file annotated)
      let known ← (annotated.checkTypes []).result
      return ⟨annotated, known,
        (f.buildScopes options.policy).log ++ (annotated.checkTypes []).log⟩) := by
  simp only [run, Run.result_optional, Run.result_bind, Run.result_step, Run.result_writeIf,
    Run.result_write, Run.result_pure]
  rfl

/-- A run that gets past its tokens comes to what the check comes to. Scopes that have been built
can always be dumped. -/
theorem result_run_eq_check {options : Options} {file : SourceFile}
    (h : Run.resultIf options.dumpTokens (dumpTokens file) = .ok ()) :
    (run options file).result = check options.policy file.text := by
  rw [result_run, h]
  cases hp : Program.parse file.text with
  | error e =>
    rw [check_of_parse_error hp, Forest.parse_eq, hp]
    rfl
  | ok p =>
    obtain ⟨types, -, htypes⟩ := p.checkTypes_eq options.policy []
    have hdump : Run.resultIf options.dumpSymbols (dumpSymbols file (p.annotated options.policy)) =
        .ok () := by
      rw [Run.resultIf, result_dumpSymbols file (p.annotated_built options.policy).closed, ite_self]
    have hf : Forest.parse file.text = .ok p.grown := Forest.parse_eq_ok_iff.mpr ⟨p, hp, rfl⟩
    simp only [check, Forest.analyze, hf, bind, Except.bind, p.buildScopes_eq, Outcome.result,
      hdump, htypes]

theorem check_of_tokens_error {source : String} {e : LexicalError}
    (he : (Scan.ofString source).tokens = .error e) (policy : Policy) :
    ∃ refused, check policy source = .error (Stop.ofParseError refused) := by
  cases hp : Program.parse source with
  | error refused => exact ⟨refused, check_of_parse_error hp policy⟩
  | ok p =>
    obtain ⟨ls, hls⟩ := Program.exists_tokens_of_parse hp
    rw [he] at hls
    cases hls

namespace Command

theorem exit_checkText (options : Options) (input text : String) :
    (checkText options input text).exit = 0 ↔
      ∃ a, (run options ⟨input, text⟩).result = .ok a ∧ a.isOk = true := by
  unfold checkText
  cases hr : (run options ⟨input, text⟩).result with
  | error stop => simp [hr]
  | ok a => cases ha : a.isOk <;> simp [hr, conclude, ha]

/-- A run returns what the check of its text returns, but for a dump of tokens that fails, and then
the check fails as well. So the command succeeds on a text exactly if the check does and finds
nothing, whatever is dumped or told. -/
theorem run_agrees_with_check (options : Options) (name source : String) :
    (options.dumpTokens = false →
      (run options ⟨name, source⟩).result = check options.policy source) ∧
    (∀ tokens, (Scan.ofString source).tokens = .ok tokens →
      (run options ⟨name, source⟩).result = check options.policy source) ∧
    (∀ e, (Scan.ofString source).tokens = .error e →
      (options.dumpTokens = true → (run options ⟨name, source⟩).result = .error (.lexical e)) ∧
      ((∃ e, check options.policy source = .error (.lexical e)) ∨
        ∃ e, check options.policy source = .error (.grammar e))) ∧
    ∀ read words, prepare words = .ok (options, name) → read name = .ok source →
      ((execute read words).exit = 0 ↔ ∃ a, check options.policy source = .ok a ∧ a.log = []) := by
  have hplain (h : options.dumpTokens = false) :
      (run options ⟨name, source⟩).result = check options.policy source :=
    result_run_eq_check (by rw [h]; rfl)
  have hdumped (tokens : List Lexeme) (h : (Scan.ofString source).tokens = .ok tokens) :
      (run options ⟨name, source⟩).result = check options.policy source := by
    apply result_run_eq_check
    rw [Run.resultIf, result_dumpTokens, h]
    exact ite_self _
  have hfailed (e : LexicalError) (he : (Scan.ofString source).tokens = .error e)
      (h : options.dumpTokens = true) :
      (run options ⟨name, source⟩).result = .error (.lexical e) := by
    rw [result_run, Run.resultIf, if_pos h, result_dumpTokens, he]
    rfl
  refine ⟨hplain, hdumped, fun e he => ⟨hfailed e he, ?_⟩, ?_⟩
  · obtain ⟨refused, hcheck⟩ := check_of_tokens_error he options.policy
    cases refused with
    | lexical e => exact .inl ⟨e, hcheck⟩
    | grammar e => exact .inr ⟨e, hcheck⟩
  · intro read words hwords hread
    have hexit : (execute read words).exit = (checkText options name source).exit := by
      rw [execute, hwords]
      simp only [checkInput, hread]
    have hlog (a : Analysis) : a.isOk = true ↔ a.log = [] := List.isEmpty_iff
    simp only [hexit, exit_checkText, hlog]
    cases ht : (Scan.ofString source).tokens with
    | ok tokens => rw [hdumped tokens ht]
    | error e =>
      -- Neither side holds here: a dump of the tokens fails, and so does the check.
      obtain ⟨refused, hcheck⟩ := check_of_tokens_error ht options.policy
      cases h : options.dumpTokens with
      | false => rw [hplain h]
      | true => simp [hfailed e ht h, hcheck]

theorem run_agrees_with_check_dumped :
    (Scan.ofString "int @").tokens = .error ⟨'@', ⟨4, 5⟩⟩ ∧
    (run { dumpTokens := true } ⟨"a", "int @"⟩).result = .error (.lexical ⟨'@', ⟨4, 5⟩⟩) ∧
    prepare ["--dump-tokens", "a"] = .ok ({ dumpTokens := true }, "a") ∧
    ((execute (fun _ => .ok "int @") ["--dump-tokens", "a"]).exit = 0 ↔
      ∃ a, check {} "int @" = .ok a ∧ a.log = []) ∧
    (run { dumpSymbols := true } ⟨"a", "int b;"⟩).result = check {} "int b;" := by
  have htokens : (Scan.ofString "int @").tokens = .error ⟨'@', ⟨4, 5⟩⟩ := by decide +kernel
  have hwords : prepare ["--dump-tokens", "a"] = .ok ({ dumpTokens := true }, "a") := by
    decide +kernel
  have hat := run_agrees_with_check { dumpTokens := true } "a" "int @"
  exact ⟨htokens, (hat.2.2.1 _ htokens).1 rfl, hwords, hat.2.2.2 _ _ hwords rfl,
    (run_agrees_with_check { dumpSymbols := true } "a" "int b;").1 rfl⟩

end Command

end DecafCheck
