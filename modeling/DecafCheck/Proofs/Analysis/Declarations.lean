import DecafCheck.Proofs.Analysis.Check
import DecafCheck.Proofs.Scope.Entries

namespace DecafCheck

namespace Scoping

/-- A declaration is taken in without a word, or it is reported and nothing else happens. -/
def TakenOrReported (s s' : Scoping) (span : Span) : Prop :=
  s'.log = s.log ∨ ∃ p : Problem, s' = { s with log := s.log ++ [p.on span] }

theorem declare_cases {s s' : Scoping} {symbol : Symbol} (h : s.declare symbol = .ok s') :
    TakenOrReported s s' symbol.span := by
  obtain ⟨f, _ | ⟨table, rest⟩, log⟩ := s
  · cases h
  · simp only [declare, innermost, bind, Except.bind] at h
    cases hi : f.tables.insert table symbol with
    | ok tables =>
      rw [hi] at h
      cases h
      exact .inl rfl
    | error e =>
      rw [hi] at h
      cases e with
      | fault e => cases h
      | declared name =>
        cases h
        exact .inr ⟨.declaredTwice symbol.name, rfl⟩
      | undeclared name =>
        cases h
        exact .inr ⟨.declaredTwice symbol.name, rfl⟩

theorem declareVariable_cases {policy : Policy} {s s' : Scoping} {name : String} {type : DataType}
    {length : Nat} {span : Span} (h : s.declareVariable policy name type length span = .ok s') :
    TakenOrReported s s' span := by
  obtain ⟨f, _ | ⟨table, rest⟩, log⟩ := s
  · cases h
  · simp only [declareVariable, innermost, bind, Except.bind] at h
    split at h
    · next p _ =>
      cases h
      exact .inr ⟨p, rfl⟩
    · split at h
      · next symbol hsymbol =>
        -- the symbol stands where the variable does, so the report on it does too
        have hspan : symbol.span = span := by
          unfold Symbol.ofVariable at hsymbol
          split at hsymbol
          · cases hsymbol
            rfl
          · cases hsymbol
        exact hspan ▸ declare_cases h
      · cases h

end Scoping

/-- The codes of problems with declarations. -/
def Code.isDeclaration (c : Code) : Bool :=
  c == .duplicateDeclaration || c == .invalidDeclaration

/-- No problem is one with a declaration. -/
def OnConstructs (log : List Diagnostic) : Prop :=
  ∀ d ∈ log, d.code.isDeclaration = false

section OnConstructs

variable {log log' : List Diagnostic}

theorem onConstructs_nil : OnConstructs [] :=
  List.forall_mem_nil _

theorem onConstructs_one {p : Problem} {span : Span} (h : p.code.isDeclaration = false) :
    OnConstructs [p.on span] :=
  List.forall_mem_singleton.mpr h

theorem OnConstructs.append (h : OnConstructs log) (h' : OnConstructs log') :
    OnConstructs (log ++ log') :=
  List.forall_mem_append.mpr ⟨h, h'⟩

theorem onConstructs_flatMap {α : Type} {xs : List α} {f : α → List Diagnostic}
    (h : ∀ x ∈ xs, OnConstructs (f x)) :
    OnConstructs (xs.flatMap f) := by
  intro d hd
  obtain ⟨x, hx, hd⟩ := List.mem_flatMap.mp hd
  exact h x hx d hd

theorem onConstructs_require {condition : Bool} {p : Problem} {span : Span}
    (h : p.code.isDeclaration = false) :
    OnConstructs (Verdict.require condition p span) := by
  unfold Verdict.require
  split
  · exact onConstructs_nil
  · exact onConstructs_one h

theorem OnConstructs.filter_eq (h : OnConstructs log) :
    log.filter (fun d => d.code.isDeclaration) = [] :=
  List.filter_eq_nil_iff.mpr fun d hd => by simp [h d hd]

end OnConstructs

namespace Expr

theorem argumentLog_onConstructs (name : String) (position : Nat)
    (arguments : List (InferredType × Span)) (parameters : List DataType) :
    OnConstructs (argumentLog name position arguments parameters) := by
  induction arguments generalizing position parameters with
  | nil => exact onConstructs_nil
  | cons a as ih =>
    cases parameters with
    | nil => exact onConstructs_nil
    | cons p ps => exact (onConstructs_require rfl).append (ih _ ps)

theorem callLog_onConstructs (scopes : Scopes) (name : String) (arguments : List Expr)
    (span : Span) :
    OnConstructs (callLog scopes name arguments span) := by
  unfold callLog
  split
  · exact onConstructs_one rfl
  · split
    · exact (onConstructs_require rfl).append (argumentLog_onConstructs _ _ _ _)
    · exact onConstructs_one rfl

theorem locationLog_onConstructs (scopes : Scopes) (name : String) (index : Option Expr)
    (span : Span) :
    OnConstructs (locationLog scopes name index span) := by
  unfold locationLog
  split
  · exact onConstructs_one rfl
  · refine onConstructs_flatMap fun a _ => ?_
    unfold indexLog
    split
    · exact onConstructs_one rfl
    · exact onConstructs_require rfl

theorem log_onConstructs (scopes : Scopes) (e : Expr) : OnConstructs (e.log scopes) := by
  induction e with
  | literal value span => exact onConstructs_nil
  | location name index span ih =>
    rw [log_location]
    exact (onConstructs_flatMap fun i hi => ih i (Option.mem_toList.mp hi)).append
      (locationLog_onConstructs _ _ _ _)
  | call name arguments span ih =>
    rw [log, logAll_eq]
    exact (onConstructs_flatMap ih).append (callLog_onConstructs _ _ _ _)
  | unary op operand span ih => exact ih.append (onConstructs_require rfl)
  | binary op left right span ihl ihr =>
    refine ihl.append (ihr.append ?_)
    unfold Verdict.ofBinary BinaryOp.infer
    split
    · exact onConstructs_nil
    · next p hp =>
      split at hp
      · cases hp
        exact onConstructs_one rfl
      · split at hp
        · cases hp
          exact onConstructs_one rfl
        · cases hp

theorem testLog_onConstructs (scopes : Scopes) (place : Test) (e : Expr) :
    OnConstructs (e.testLog scopes place) :=
  onConstructs_require rfl

end Expr

theorem Stmt.log_onConstructs_and (policy : Policy) :
    (∀ (s : Stmt) (scopes : Scopes) (inLoop : Bool), OnConstructs (s.log policy scopes inLoop)) ∧
    ∀ (b : Block) (scopes : Scopes) (inLoop : Bool), OnConstructs (b.log policy scopes inLoop) := by
  apply Stmt.induct
  case assign =>
    intro name index target value span scopes inLoop
    exact (Expr.log_onConstructs _ _).append
      ((value.log_onConstructs scopes).append (onConstructs_require rfl))
  case call =>
    intro name arguments span scopes inLoop
    rw [Stmt.log, Expr.logAll_eq]
    exact (onConstructs_flatMap fun a _ => a.log_onConstructs scopes).append
      (Expr.callLog_onConstructs _ _ _ _)
  case branch =>
    intro condition yes no span hyes hno scopes inLoop
    have hcondition := condition.log_onConstructs scopes
    have htest := condition.testLog_onConstructs scopes .condition
    cases no with
    | none => exact hcondition.append ((hyes scopes false).append htest)
    | some no =>
      exact hcondition.append ((hyes scopes false).append ((hno no rfl scopes false).append htest))
  case loop =>
    intro guard body span hbody scopes inLoop
    exact (guard.log_onConstructs scopes).append
      ((hbody scopes true).append (guard.testLog_onConstructs scopes .guard))
  case ret =>
    intro value span scopes inLoop
    exact onConstructs_flatMap fun e _ => e.log_onConstructs scopes
  case jump =>
    intro j span scopes inLoop
    exact onConstructs_require rfl
  case mk =>
    intro vars statements span ih scopes inLoop
    rw [Block.log_eq]
    exact onConstructs_flatMap fun s hs => ih s hs _ _

namespace Function

theorem returnLog_onConstructs (name : String) (returns : DataType) (value : Option InferredType)
    (span : Span) :
    OnConstructs (returnLog name returns value span) := by
  unfold returnLog
  split
  · exact onConstructs_one rfl
  · exact onConstructs_nil
  · exact onConstructs_require rfl

theorem returnsLog_onConstructs (name : String) (returns : DataType)
    (returned : List (Option InferredType × Span)) :
    OnConstructs (returnsLog name returns returned) := by
  cases returned with
  | nil => exact onConstructs_nil
  | cons r rest =>
    refine (returnLog_onConstructs _ _ _ _).append (onConstructs_flatMap fun q _ => ?_)
    exact (onConstructs_one rfl).append (returnLog_onConstructs _ _ _ _)

theorem main?_onConstructs {g : Function} {log : List Diagnostic} (h : g.main? = some log) :
    OnConstructs log := by
  unfold main? at h
  split at h
  · cases h
    exact (onConstructs_require rfl).append (onConstructs_require rfl)
  · cases h

/-- The one problem that a function's checks find with a declaration is with its own name. -/
theorem filter_log (policy : Policy) (scopes : Scopes) (g : Function) :
    (g.log policy scopes).filter (fun d => d.code.isDeclaration) =
      Verdict.require ((scopes.find? g.name).any Symbol.isFunction)
        (.functionConflict g.name) g.span := by
  have hbody := ((Stmt.log_onConstructs_and policy).2 g.body (g.scope :: scopes) false).filter_eq
  have hreturns := (returnsLog_onConstructs g.name g.returns (g.returned policy scopes)).filter_eq
  rw [log, List.filter_append, List.filter_append, hbody, hreturns, List.nil_append,
    List.append_nil]
  unfold Verdict.require
  split <;> rfl

end Function

def Symbol.isVariable (s : Symbol) : Bool :=
  match s.kind with
  | .variable _ _ => true
  | _ => false

theorem flatMap_require {α : Type} {xs : List α} {condition held : α → Bool} {problem : α → Problem}
    {span : α → Span} (h : ∀ x ∈ xs, held x = !condition x) :
    xs.flatMap (fun x => Verdict.require (condition x) (problem x) (span x)) =
      (xs.filter held).map fun x => (problem x).on (span x) := by
  induction xs with
  | nil => rfl
  | cons x xs ih =>
    obtain ⟨hx, hxs⟩ := List.forall_mem_cons.mp h
    rw [List.flatMap_cons, ih hxs, List.filter_cons, hx, Verdict.require]
    cases condition x <;> rfl

namespace Program

variable (policy : Policy) (p : Program)

theorem isVariable_of_mem_scope {s : Symbol} (hs : s ∈ p.scope policy) :
    s.isVariable = !s.isFunction := by
  rcases List.mem_append.mp hs with hv | hg
  · obtain ⟨v, -, hv⟩ := List.mem_filterMap.mp hv
    obtain ⟨-, rfl⟩ := Policy.symbol?_eq_some_iff.mp hv
    rfl
  · obtain ⟨g, -, rfl⟩ := List.mem_map.mp hg
    rfl

/-- The name of a function is held by a function or by a variable. -/
theorem held_by_variable {g : Function} (hg : g ∈ p.functions) :
    (declared? (p.scope policy) g.name).any Symbol.isVariable =
      !(Scopes.find? [p.scope policy] g.name).any Symbol.isFunction := by
  have hfind : Scopes.find? [p.scope policy] g.name = declared? (p.scope policy) g.name := by
    rw [Scopes.find?_cons]
    exact Option.or_none
  have hown : g.symbol ∈ p.scope policy := List.mem_append_right _ (List.mem_map_of_mem hg)
  -- the function itself sees to it that its name is declared
  have hsome : (declared? (p.scope policy) g.name).isSome = true :=
    List.find?_isSome.mpr ⟨g.symbol, hown, beq_self_eq_true g.name⟩
  obtain ⟨s, hs⟩ := Option.isSome_iff_exists.mp hsome
  rw [hfind, hs]
  exact p.isVariable_of_mem_scope policy (List.mem_of_find?_eq_some hs)

/-- The problems with declarations that the checks add. -/
theorem filter_typeLog :
    (p.typeLog policy).filter (fun d => d.code.isDeclaration) =
      (p.functions.filter fun g => (declared? (p.scope policy) g.name).any Symbol.isVariable).map
        fun g => (Problem.functionConflict g.name).on g.span := by
  have hmains : OnConstructs ((p.functions.filterMap Function.main?).flatten
      ++ Verdict.require (!(p.functions.filterMap Function.main?).isEmpty)
      .missingMain p.span) := by
    refine OnConstructs.append (fun d hd => ?_) (onConstructs_require rfl)
    obtain ⟨log, hlog, hd⟩ := List.mem_flatten.mp hd
    obtain ⟨g, -, hg⟩ := List.mem_filterMap.mp hlog
    exact Function.main?_onConstructs hg d hd
  rw [typeLog, List.filter_append, hmains.filter_eq, List.append_nil, List.filter_flatMap,
    List.flatMap_congr fun g _ => g.filter_log policy [p.scope policy],
    flatMap_require fun g hg => p.held_by_variable policy hg]

/-- The table of the root holds what the program declares. -/
theorem table_root : ∃ k, (p.annotated policy).tableOf? p.tree.id = some k ∧
    (p.annotated policy).tables.tables[k]? = some ⟨firsts (p.scope policy), none⟩ := by
  obtain ⟨hown, htable⟩ := (p.annotated_built policy).holds.head
  rw [p.symbols_tree] at htable
  exact ⟨0, hown, htable⟩

end Program

/-- What is reported about the declarations of a program whose forest is `f`: by building scopes,
which gives `g`, and by the checks on `g`. -/
structure DeclarationsReported (policy : Policy) (p : Program) (f g : Forest) (log typeLog : Log) :
    Prop where
  rejected : log = (Entry.rejected policy [] p.entries).map Entry.report
  code : ∀ r ∈ Entry.rejected policy [] p.entries,
    (Entry.report r).code = if r.1.valid policy then .duplicateDeclaration else .invalidDeclaration
  repeated : ∀ scope name, (Entry.rejected policy [] p.entries).countP (Entry.repeats scope name) =
    p.entries.countP (Entry.declares policy scope name) - 1
  conflicts : ∃ root k globals, f.root = some root ∧ g.tableOf? root = some k ∧
      g.tables.get k = .ok globals ∧
    typeLog.filter (fun d => d.code.isDeclaration) =
      (p.functions.filter fun h => (globals.find? h.name).any Symbol.isVariable).map
        fun h => (Problem.functionConflict h.name).on h.span

/-- Building the scopes of a text reports the declarations that are rejected, each once and in
order, and no others; the checks add one report for every function whose name a variable holds. A
declaration that is reported changes no table, whatever has been declared before. -/
theorem declarations_reported_exactly {source : String} {p : Program}
    (hp : Program.parse source = .ok p) (policy : Policy) :
    (∃ f g log types typeLog, Forest.parse source = .ok f ∧ f.buildScopes policy = ⟨g, log, none⟩ ∧
      g.checkTypes [] = ⟨types, typeLog, none⟩ ∧ DeclarationsReported policy p f g log typeLog) ∧
    (∀ s s' symbol, Scoping.declare s symbol = .ok s' → s.TakenOrReported s' symbol.span) ∧
    ∀ s s' name type length span, Scoping.declareVariable policy s name type length span = .ok s' →
      s.TakenOrReported s' span := by
  obtain ⟨types, -, htypes⟩ := p.checkTypes_eq policy []
  obtain ⟨k, hk, htable⟩ := p.table_root policy
  have hf : Forest.parse source = .ok p.grown := Forest.parse_eq_ok_iff.mpr ⟨p, hp, rfl⟩
  refine ⟨⟨p.grown, p.annotated policy, _, types, _, hf, p.buildScopes_eq policy, htypes, ?_⟩,
    fun s s' symbol => Scoping.declare_cases,
    fun s s' name type length span => Scoping.declareVariable_cases⟩
  refine ⟨(p.report_entries policy).symm, fun r hr => Entry.code_of_mem_rejected hr,
    fun scope name => ?_, p.tree.id, k, ⟨firsts (p.scope policy), none⟩,
    p.grown_carries.root, hk, ?_, ?_⟩
  · rw [Entry.countP_repeats_rejected]
    rfl
  · rw [Tables.get, htable]
  · have hfind (name : String) : Table.find? ⟨firsts (p.scope policy), none⟩ name =
        declared? (p.scope policy) name :=
      declared?_firsts (p.scope policy) name
    simp only [p.filter_typeLog policy, hfind]

/-- Every way to be rejected, and a function whose name a variable holds. -/
def rejectedText : String :=
  "int a; bool a; void b; int c[0];" ++
    " def int a(int x, bool x)\x7bint y[2]; int y; int y; return 1;\x7d"

theorem declarations_reported_exactly_all_ways :
    ∃ p, Program.parse rejectedText = .ok p ∧
      (Entry.rejected { globalArraysOnly := true } [] p.entries).map
        (fun r => (r.1.name, r.2.code)) =
        [("a", .duplicateDeclaration), ("b", .invalidDeclaration), ("c", .invalidDeclaration),
          ("a", .duplicateDeclaration), ("x", .duplicateDeclaration), ("y", .invalidDeclaration),
          ("y", .duplicateDeclaration)] ∧
      ∃ f g log types typeLog, f.buildScopes { globalArraysOnly := true } = ⟨g, log, none⟩ ∧
        g.checkTypes [] = ⟨types, typeLog, none⟩ ∧
        DeclarationsReported { globalArraysOnly := true } p f g log typeLog := by
  have hrejected : (Program.parse rejectedText).toOption.map
        (fun p => (Entry.rejected { globalArraysOnly := true } [] p.entries).map fun r =>
          (r.1.name, r.2.code)) =
      some [("a", .duplicateDeclaration), ("b", .invalidDeclaration), ("c", .invalidDeclaration),
        ("a", .duplicateDeclaration), ("x", .duplicateDeclaration), ("y", .invalidDeclaration),
        ("y", .duplicateDeclaration)] := by decide +kernel
  apply exists_ok_of_isSome (by decide +kernel)
  intro p hp
  rw [hp] at hrejected
  obtain ⟨⟨f, g, log, types, typeLog, -, hbuild, hcheck, hreported⟩, -⟩ :=
    declarations_reported_exactly hp { globalArraysOnly := true }
  exact ⟨Option.some.inj hrejected, f, g, log, types, typeLog, hbuild, hcheck, hreported⟩

end DecafCheck
