import DecafCheck.Analysis.Session
import DecafCheck.Proofs.Analysis.Safety
import DecafCheck.Proofs.Typing.Behind

namespace DecafCheck

/-- A walk whose steps go with a change of the state goes with it to its end. -/
theorem follow_change {σ : Type} {visit : σ → Step → σ × Option Stop} {change : σ → σ}
    (h : ∀ s step, visit (change s) step = Prod.map change id (visit s step)) (s : σ)
    (steps : List Step) :
    follow visit (change s) steps = Prod.map change id (follow visit s steps) := by
  have hstep (s : σ) (step : Step) :
      visit (change s) (id step) = Prod.map change (Option.map id) (visit s step) := by
    rw [Option.map_id]
    exact h s step
  have hwalk := follow_map hstep s steps
  rwa [List.map_id, Option.map_id] at hwalk

namespace Scoping

/-- The walk with older reports before its own. -/
def onto (older : Log) (s : Scoping) : Scoping :=
  { s with log := older ++ s.log }

variable (older : Log) (s : Scoping)

theorem report_onto (p : Problem) (span : Span) :
    (s.onto older).report p span = (s.report p span).onto older := by
  unfold report onto
  rw [List.append_assoc]

theorem declare_onto (symbol : Symbol) :
    (s.onto older).declare symbol = (s.declare symbol).map (onto older) := by
  obtain ⟨f, _ | ⟨table, rest⟩, log⟩ := s
  · rfl
  · have hreport := report_onto older ⟨f, table :: rest, log⟩
      (.declaredTwice symbol.name) symbol.span
    simp only [declare, innermost, onto, bind, Except.bind]
    cases f.tables.insert table symbol with
    | ok tables => rfl
    | error e =>
      cases e with
      | fault e => rfl
      | declared name => exact congrArg Except.ok hreport
      | undeclared name => exact congrArg Except.ok hreport

theorem declareVariable_onto (policy : Policy) (name : String) (type : DataType) (length : Nat)
    (span : Span) :
    (s.onto older).declareVariable policy name type length span =
      (s.declareVariable policy name type length span).map (onto older) := by
  have hinner : (s.onto older).innermost span = s.innermost span := rfl
  have hstorage : (s.onto older).storage = s.storage := rfl
  unfold declareVariable
  rw [hinner, hstorage]
  cases s.innermost span with
  | error stop => rfl
  | ok table =>
    dsimp only [bind, Except.bind]
    cases policy.objection? s.storage name type length with
    | some p => exact congrArg Except.ok (s.report_onto older p span)
    | none =>
      cases Symbol.ofVariable name type length s.storage span with
      | ok symbol => exact s.declare_onto older symbol
      | error e => rfl

theorem declareAll_onto (parameters : List Parameter) :
    parameters.foldlM (fun s p => declare s (.ofParameter p)) (s.onto older) =
      (parameters.foldlM (fun s p => declare s (.ofParameter p)) s).map (onto older) := by
  induction parameters generalizing s with
  | nil => rfl
  | cons p parameters ih =>
    rw [List.foldlM_cons, List.foldlM_cons, declare_onto]
    cases s.declare (.ofParameter p) with
    | error stop => rfl
    | ok next => exact ih next

theorem enter_onto (policy : Policy) (id : NodeId) (span : Span) (kind : Kind) :
    (s.onto older).enter policy id span kind = (s.enter policy id span kind).map (onto older) := by
  cases kind with
  | function name returns parameters body =>
    rw [enter, enter, declare_onto]
    cases s.declare (.ofFunction name returns (parameters.map Parameter.type) span) with
    | error stop => rfl
    | ok next => exact declareAll_onto older (next.openScope id) parameters
  | «variable» name type length => exact s.declareVariable_onto older policy name type length span
  | _ => rfl

theorem visit_onto (policy : Policy) (step : Step) :
    visit policy (s.onto older) step = Prod.map (onto older) id (visit policy s step) := by
  cases step with
  | enter id kind span =>
    rw [visit, visit, enter_onto]
    cases s.enter policy id span kind <;> rfl
  | leave id kind span =>
    rw [visit, visit]
    split <;> rfl
  | broken f => rfl

end Scoping

namespace Typing

/-- The walk with older reports before its own. -/
def onto (older : Log) (t : Typing) : Typing :=
  { t with log := older ++ t.log }

theorem visit_onto (older : Log) (f : Forest) (t : Typing) (step : Step) :
    visit f (t.onto older) step = Prod.map (onto older) id (visit f t step) := by
  cases step with
  | enter id kind span => rfl
  | leave id kind span =>
    refine Prod.ext ?_ rfl
    dsimp only [visit, add, onto, Prod.map_fst]
    rw [List.append_assoc]
  | broken e => rfl

end Typing

namespace Builder

variable (b : Builder) (f : Forest) (log : Log)

/-- A builder gives what building the scopes gives, behind what the log holds, whatever it has been
used for. -/
theorem build_eq : ∃ enclosing, b.build f log =
    ⟨(⟨b.policy, enclosing⟩, (f.buildScopes b.policy).value), log ++ (f.buildScopes b.policy).log,
      (f.buildScopes b.policy).stop⟩ := by
  unfold build Forest.buildScopes
  cases f.root with
  | none => exact ⟨b.enclosing, by rw [List.append_nil]⟩
  | some root =>
    -- the walk of a builder starts from the log it is given: older reports before no reports
    have hstart : (⟨f, [], log⟩ : Scoping) = Scoping.onto log { forest := f } := by
      rw [Scoping.onto, List.append_nil]
    have hwalk := follow_change (fun s => Scoping.visit_onto log s b.policy) { forest := f }
      (f.tour root)
    rw [← hstart] at hwalk
    dsimp only
    rw [hwalk]
    exact ⟨_, rfl⟩

theorem policy_after (uses : List (Forest × Log)) : (b.after uses).policy = b.policy := by
  induction uses generalizing b with
  | nil => rfl
  | cons use uses ih =>
    obtain ⟨enclosing, hbuild⟩ := b.build_eq use.1 use.2
    have hpolicy : (b.build use.1 use.2).value.1.policy = b.policy := by rw [hbuild]
    exact (ih _).trans hpolicy

end Builder

namespace Checker

variable (c : Checker) (f : Forest) (log : Log)

/-- A checker gives what checking the types gives, behind what the log holds, whatever it has been
used for. -/
theorem check_eq : c.check f log =
    ⟨⟨(f.checkTypes c.types).value⟩, log ++ (f.checkTypes c.types).log,
      (f.checkTypes c.types).stop⟩ := by
  unfold check Forest.checkTypes
  cases f.root with
  | none =>
    dsimp only
    rw [List.append_nil]
  | some root =>
    have hstart : (⟨[], log⟩ : Typing) = Typing.onto log {} := by
      rw [Typing.onto, List.append_nil]
    have hwalk := follow_change (Typing.visit_onto log f) {} (f.tour root)
    rw [← hstart] at hwalk
    dsimp only
    rw [hwalk]
    rfl

/-- What a checker has been used for has no say in its next check, but a check that finds no root
leaves the checker as it is. -/
theorem check_used (d : Checker) :
    (c.check f log).log = (d.check f log).log ∧ (c.check f log).stop = (d.check f log).stop ∧
    ∀ root, f.root = some root → (c.check f log).value = (d.check f log).value := by
  unfold check
  cases f.root with
  | none => exact ⟨rfl, rfl, fun root hr => by cases hr⟩
  | some root => exact ⟨rfl, rfl, fun _ _ => rfl⟩

end Checker

/-- An analysis that reports into a log gives what the analysis gives, behind what the log holds. -/
theorem Forest.analyzeInto_eq (policy : Policy) (f : Forest) (log : Log) :
    f.analyzeInto policy log =
      ⟨(f.analyze policy).value.1, log ++ (f.analyze policy).log, (f.analyze policy).stop⟩ := by
  obtain ⟨enclosing, hbuild⟩ := Builder.build_eq { policy } f log
  unfold analyzeInto analyze
  rw [hbuild]
  cases hstop : (f.buildScopes policy).stop with
  | some stop => simp only [hstop]
  | none => simp only [hstop, Checker.check_eq, List.append_assoc]

/-- Every type in the end was there before or is that of a node which the walk left. -/
theorem Typing.mem_types_follow {f : Forest} {t : Typing} {steps : List Step} {id : NodeId}
    {type : InferredType} (h : (id, type) ∈ (follow (visit f) t steps).1.types) :
    (id, type) ∈ t.types ∨ ∃ kind span, Step.leave id kind span ∈ steps := by
  induction steps generalizing t with
  | nil => exact .inl h
  | cons step steps ih =>
    have hstep (hm : (id, type) ∈ (visit f t step).1.types) :
        (id, type) ∈ t.types ∨ ∃ kind span, Step.leave id kind span ∈ step :: steps := by
      cases step with
      | enter _ _ _ => exact .inl hm
      | broken _ => exact .inl hm
      | leave j kind span =>
        dsimp only [visit, add] at hm
        split at hm
        · rcases List.mem_cons.mp hm with he | hm
          · cases he
            exact .inr ⟨kind, span, List.mem_cons_self⟩
          · exact .inl hm
        · exact .inl hm
    rw [follow] at h
    split at h
    · next next hnext =>
      rcases ih h with hm | ⟨kind, span, hm⟩
      · exact hstep (by rw [hnext]; exact hm)
      · exact .inr ⟨kind, span, List.mem_cons_of_mem step hm⟩
    · next next stop hnext => exact hstep (by rw [hnext]; exact h)

/-- A checker knows the types of nodes of the tree that it checked last, and of no others. -/
theorem Checker.leave_of_typeOf? {c : Checker} {f : Forest} {log : Log} {root : NodeId}
    (hr : f.root = some root) {id : NodeId} {type : InferredType}
    (h : (c.check f log).value.typeOf? id = some type) :
    ∃ kind span, Step.leave id kind span ∈ f.tour root := by
  have htypes : (c.check f log).value.types =
      (follow (Typing.visit f) ⟨[], log⟩ (f.tour root)).1.types := by
    unfold check
    rw [hr]
  obtain ⟨before, behind, hsplit, -⟩ := List.lookup_eq_some_iff.mp h
  have hm : (id, type) ∈ (follow (Typing.visit f) ⟨[], log⟩ (f.tour root)).1.types := by
    rw [← htypes, hsplit]
    exact List.mem_append_right before List.mem_cons_self
  rcases Typing.mem_types_follow hm with hm | hleave
  · cases hm
  · exact hleave

namespace Program

variable (p : Program) (first policy : Policy)

theorem buildScopes_again :
    (p.annotated first).buildScopes policy =
      ⟨(p.annotated policy).behind (p.annotated first).tables, p.scopeLog policy, none⟩ := by
  rw [← scopeLog_tree]
  exact p.grown_carries.buildScopes_again p.tableOf?_grown first policy rfl

/-- The second analysis of a program's forest and the first one of a fresh copy. -/
theorem analyze_again : ∃ types,
    p.grown.analyze policy = ⟨(p.annotated policy, types), p.log policy, none⟩ ∧
      (p.annotated first).analyze policy =
        ⟨((p.annotated policy).behind (p.annotated first).tables, types), p.log policy, none⟩ := by
  obtain ⟨types, -, hcheck⟩ := p.checkTypes_eq policy []
  have hbehind := (p.annotated_built policy).chained.checkTypes_behind (p.annotated first).tables []
  refine ⟨types, ?_, ?_⟩
  · simp only [Forest.analyze, p.buildScopes_eq, hcheck]
    rfl
  · simp only [Forest.analyze, p.buildScopes_again, hbehind, hcheck]
    rfl

end Program

theorem Forest.Chained.exists_dumpSymbolsFrom {f : Forest} (h : f.Chained) (n : Nat) :
    ∃ text, f.dumpSymbolsFrom n = .ok text := by
  have hnodes : ∀ x ∈ f.nodes.toList, ∃ text, f.dumpNodeFrom n x = .ok text := by
    intro x hx
    obtain ⟨id, hid⟩ := Array.mem_iff_getElem?.mp (Array.mem_toList_iff.mp hx)
    have hx : f.node? id = some x := hid
    rw [dumpNodeFrom]
    cases hk : x.table with
    | none => exact ⟨"", rfl⟩
    | some k =>
      obtain ⟨scopes, hc⟩ := h id k (by rw [tableOf?, hx, Option.bind_some, hk])
      obtain ⟨table, htable⟩ := Tables.exists_get hc.lt_size
      refine ⟨(table.raised n).dump (n + k) x.kind, ?_⟩
      dsimp only
      rw [htable]
      rfl
  obtain ⟨texts, htexts⟩ := exists_mapM_ok hnodes
  exact ⟨String.join texts, by rw [dumpSymbolsFrom, htexts]; rfl⟩

/-- Runs leave nothing over for the next. A second analysis of a forest that was read from a text
reports, behind what its log holds, what the analysis of a fresh copy reports; names mean the same
afterwards, and the dump of symbols is that of the fresh copy with every table numbered higher by
the number of tables that the first analysis made. A builder that has been used gives what a new one
gives. So does a checker that has been used; if there is a root to start from, it knows the types of
what it meets there and of nothing from before. -/
theorem runs_leave_no_residue :
    (∀ (source : String) (f : Forest), Forest.parse source = .ok f →
      ∀ (first policy : Policy) (log log' : Log),
        let once := f.analyzeInto first log
        let twice := once.value.analyzeInto policy log'
        let fresh := f.analyzeInto policy []
        once.stop = none ∧ twice.stop = none ∧ fresh.stop = none ∧
        twice.log = log' ++ fresh.log ∧
        (∀ id name, twice.value.resolve id name = fresh.value.resolve id name) ∧
        fresh.value.dumpSymbols = fresh.value.dumpSymbolsFrom 0 ∧
        twice.value.dumpSymbols =
          fresh.value.dumpSymbolsFrom (once.value.tables.size - f.tables.size) ∧
        ∃ text, twice.value.dumpSymbols = .ok text) ∧
    (∀ (policy : Policy) (uses : List (Forest × Log)) (f : Forest) (log : Log),
      let used := ((Builder.mk policy []).after uses).build f log
      let new := (Builder.mk policy []).build f log
      used.value.2 = new.value.2 ∧ used.log = new.log ∧ used.stop = new.stop) ∧
    ∀ (uses : List (Forest × Log)) (f : Forest) (log : Log),
      let used := ((Checker.mk []).after uses).check f log
      let new := (Checker.mk []).check f log
      used.log = new.log ∧ used.stop = new.stop ∧
      ∀ root, f.root = some root → used.value = new.value ∧
        ∀ id type, used.value.typeOf? id = some type →
          ∃ kind span, Step.leave id kind span ∈ f.tour root := by
  refine ⟨?_, ?_, ?_⟩
  · intro source f hf first policy log log'
    obtain ⟨p, -, rfl⟩ := Forest.parse_eq_ok_iff.mp hf
    obtain ⟨types, -, honce⟩ := p.analyze_eq first
    obtain ⟨types', hfresh, htwice⟩ := p.analyze_again first policy
    have hchained := (p.annotated_built policy).chained
    have hdump := hchained.dumpSymbols_behind (p.annotated first).tables
    -- a forest that was read from a text has no tables, so the first analysis made all there are
    have hmade : (p.annotated first).tables.size - p.grown.tables.size =
        (p.annotated first).tables.size := by
      rw [p.grown_tables]
      rfl
    obtain ⟨text, htext⟩ := hchained.exists_dumpSymbolsFrom (p.annotated first).tables.size
    simp only [Forest.analyzeInto_eq, honce, htwice, hfresh, List.nil_append, hmade]
    exact ⟨trivial, trivial, trivial, trivial, hchained.resolve_behind _,
      (Forest.dumpSymbolsFrom_zero _).symm, hdump, text, hdump.trans htext⟩
  · intro policy uses f log
    obtain ⟨_, hnew⟩ := (Builder.mk policy []).build_eq f log
    obtain ⟨_, hused⟩ := ((Builder.mk policy []).after uses).build_eq f log
    rw [Builder.policy_after] at hused
    simp only [hnew, hused]
    exact ⟨trivial, trivial, trivial⟩
  · intro uses f log
    obtain ⟨hlog, hstop, hvalue⟩ := ((Checker.mk []).after uses).check_used f log (Checker.mk [])
    exact ⟨hlog, hstop, fun root hr => ⟨hvalue root hr, fun id type => Checker.leave_of_typeOf? hr⟩⟩

/-- An array inside a function, first allowed and then not, and a checker that is used for the same
forest twice. -/
theorem runs_leave_no_residue_local_array :
    (∃ f, Forest.parse "def int main()\x7bint a[2]; return a[0];\x7d" = .ok f ∧
      let once := f.analyzeInto {} []
      let twice := once.value.analyzeInto { globalArraysOnly := true } once.log
      let fresh := f.analyzeInto { globalArraysOnly := true } []
      twice.log = once.log ++ fresh.log ∧
      ∀ id name, twice.value.resolve id name = fresh.value.resolve id name) ∧
    let one : Forest :=
      { nodes := #[{ kind := .literal (.int 1), span := ⟨0, 1⟩ }], root := some 0 }
    let used := ((Checker.mk []).after [(one, [])]).check one []
    used.value = ((Checker.mk []).check one []).value ∧ used.value.typeOf? 0 = some (.known .int) ∧
      ∃ kind span, Step.leave 0 kind span ∈ one.tour 0 := by
  refine ⟨exists_ok_of_isSome (by decide +kernel) fun f hf => ?_, ?_⟩
  · obtain ⟨-, -, -, hlog, hresolve, -⟩ :=
      runs_leave_no_residue.1 _ f hf {} { globalArraysOnly := true } [] (f.analyzeInto {} []).log
    exact ⟨hlog, hresolve⟩
  · intro one used
    obtain ⟨-, -, hroot⟩ := runs_leave_no_residue.2.2 [(one, [])] one []
    obtain ⟨hused, htypes⟩ := hroot 0 rfl
    exact ⟨hused, rfl, htypes 0 (.known .int) rfl⟩

end DecafCheck
