import DecafCheck.Proofs.Analysis.Check
import DecafCheck.Proofs.Typing.Rules

namespace DecafCheck

theorem takenLog_eq_nil_iff {before : List Symbol} {s : Symbol} :
    takenLog before s = [] ↔ declared? before s.name = none := by
  rw [takenLog]
  cases declared? before s.name <;> simp

theorem declared?_eq_none_iff {scope : List Symbol} {name : String} :
    declared? scope name = none ↔ name ∉ scope.map Symbol.name := by
  simp [declared?]

/-- Declarations are reported if their names are taken by earlier ones, and not otherwise. -/
theorem takenLogAll_eq_nil_iff {before symbols : List Symbol}
    (hb : (before.map Symbol.name).Nodup) :
    takenLogAll before symbols = [] ↔ ((before ++ symbols).map Symbol.name).Nodup := by
  induction symbols generalizing before with
  | nil => simpa [takenLogAll] using hb
  | cons s rest ih =>
    rw [takenLogAll, List.append_eq_nil_iff, takenLog_eq_nil_iff, declared?_eq_none_iff]
    by_cases hs : s.name ∈ before.map Symbol.name
    · have hdup : ¬ ((before ++ s :: rest).map Symbol.name).Nodup := by
        rw [List.map_append, List.map_cons, List.nodup_append]
        exact fun h => h.2.2 s.name hs s.name List.mem_cons_self rfl
      exact ⟨fun h => absurd hs h.1, fun h => absurd h hdup⟩
    · have hb' : ((before ++ [s]).map Symbol.name).Nodup := by
        rw [List.map_append, List.nodup_append]
        refine ⟨hb, List.nodup_singleton _, ?_⟩
        intro a ha b hb he
        rw [List.map_singleton, List.mem_singleton] at hb
        exact hs (hb ▸ he ▸ ha)
      rw [ih hb', List.append_assoc]
      exact ⟨fun h => h.2, fun h => ⟨hs, h⟩⟩

theorem takenLogAll_nil_iff {symbols : List Symbol} :
    takenLogAll [] symbols = [] ↔ (symbols.map Symbol.name).Nodup := by
  have h := @takenLogAll_eq_nil_iff [] symbols List.nodup_nil
  rwa [List.nil_append] at h

theorem variableLog_eq_nil_iff {policy : Policy} {storage : Storage} {before : List Symbol}
    {v : Variable} :
    variableLog policy storage before v.name v.type v.length v.span = [] ↔
      policy.objection? storage v.name v.type v.length = none ∧
        takenLogAll before (v.symbol? policy storage).toList = [] := by
  rw [variableLog, Variable.symbol?, Policy.symbol?]
  cases policy.objection? storage v.name v.type v.length <;> simp [takenLogAll]

theorem takenLogAll_append (before a b : List Symbol) :
    takenLogAll before (a ++ b) = takenLogAll before a ++ takenLogAll (before ++ a) b := by
  induction a generalizing before with
  | nil => simp [takenLogAll]
  | cons s a ih => simp only [List.cons_append, takenLogAll, ih, List.append_assoc, List.nil_append]

theorem Variable.scopeLogAll_eq_nil_iff {policy : Policy} {storage : Storage} {before : List Symbol}
    {vs : List Variable} :
    scopeLogAll policy storage before vs = [] ↔
      (∀ v ∈ vs, policy.objection? storage v.name v.type v.length = none) ∧
        takenLogAll before (vs.filterMap (symbol? policy storage)) = [] := by
  induction vs generalizing before with
  | nil => simp [scopeLogAll, takenLogAll]
  | cons v vs ih =>
    have hcons : (v :: vs).filterMap (symbol? policy storage) =
        (v.symbol? policy storage).toList ++ vs.filterMap (symbol? policy storage) := by
      cases hv : v.symbol? policy storage <;> simp [hv]
    rw [scopeLogAll, List.append_eq_nil_iff, variableLog_eq_nil_iff, ih, hcons, takenLogAll_append,
      List.append_eq_nil_iff, List.forall_mem_cons]
    tauto

theorem Function.scopeLogAll_eq_nil_iff {policy : Policy} {before : List Symbol}
    {gs : List Function} :
    scopeLogAll policy before gs = [] ↔
      takenLogAll before (gs.map symbol) = [] ∧ ∀ g ∈ gs, g.scopeLog policy = [] := by
  induction gs generalizing before with
  | nil => simp [scopeLogAll, takenLogAll]
  | cons g gs ih =>
    rw [scopeLogAll, List.append_eq_nil_iff, List.append_eq_nil_iff, ih, List.map_cons, takenLogAll,
      List.append_eq_nil_iff, List.forall_mem_cons]
    tauto

/-- What a symbol's name stands for. -/
def Symbol.meaning (s : Symbol) : Meaning :=
  match s.kind with
  | .function parameters => .function parameters s.type
  | _ => .value s.type

def Symbol.binding (s : Symbol) : String × Meaning :=
  (s.name, s.meaning)

theorem Symbol.type_meaning (s : Symbol) : s.meaning.type = s.type := by
  rw [meaning]
  split <;> rfl

theorem Symbol.meaning_eq_function_iff {s : Symbol} {parameters : List DataType}
    {returns : DataType} :
    s.meaning = .function parameters returns ↔
      s.isFunction = true ∧ s.parameters = parameters ∧ s.type = returns := by
  obtain ⟨name, kind, type, span⟩ := s
  cases kind <;> simp [meaning, isFunction, Symbol.parameters]

theorem Symbol.meaning_eq_value_iff {s : Symbol} {type : DataType} :
    s.meaning = .value type ↔ s.isFunction = false ∧ s.type = type := by
  obtain ⟨name, kind, type', span⟩ := s
  cases kind <;> simp [meaning, isFunction]

namespace Scopes

def env (scopes : Scopes) : Env :=
  scopes.map fun scope => scope.map Symbol.binding

/-- No scope declares a name twice, and whatever is no function can be indexed. -/
def Proper (scopes : Scopes) : Prop :=
  ∀ scope ∈ scopes, (scope.map Symbol.name).Nodup ∧ ∀ s ∈ scope, s.length = 0 ↔ s.isFunction = true

theorem globals_mem {scopes : Scopes} (h : scopes ≠ []) : scopes.globals ∈ scopes := by
  induction scopes with
  | nil => exact absurd rfl h
  | cons scope outer ih =>
    cases outer with
    | nil => exact List.mem_singleton_self scope
    | cons next outer => exact List.mem_cons_of_mem scope (ih (List.cons_ne_nil next outer))

theorem getLast?_env (scopes : Scopes) :
    scopes.env.getLast? = if scopes = [] then none else
      some (scopes.globals.map Symbol.binding) := by
  induction scopes with
  | nil => rfl
  | cons scope outer ih =>
    cases outer with
    | nil => rfl
    | cons next outer =>
      rw [if_neg (List.cons_ne_nil _ _)]
      rw [if_neg (List.cons_ne_nil _ _)] at ih
      exact ih

end Scopes

theorem declared?_eq_some_iff {scope : List Symbol} (h : (scope.map Symbol.name).Nodup)
    {name : String} {s : Symbol} :
    declared? scope name = some s ↔ s ∈ scope ∧ s.name = name := by
  constructor
  · intro hs
    exact ⟨List.mem_of_find?_eq_some hs, name_of_declared? hs⟩
  · rintro ⟨hs, rfl⟩
    cases hd : declared? scope s.name with
    | none => exact absurd (List.mem_map_of_mem hs) (declared?_eq_none_iff.mp hd)
    | some r =>
      have hr := List.mem_of_find?_eq_some hd
      rw [List.inj_on_of_nodup_map h hr hs (name_of_declared? hd)]

theorem mem_bindings_iff {scope : List Symbol} (h : (scope.map Symbol.name).Nodup) {name : String}
    {m : Meaning} :
    (name, m) ∈ scope.map Symbol.binding ↔ ∃ s, declared? scope name = some s ∧ s.meaning = m := by
  rw [List.mem_map]
  constructor
  · rintro ⟨s, hs, he⟩
    cases he
    exact ⟨s, (declared?_eq_some_iff h).mpr ⟨hs, rfl⟩, rfl⟩
  · rintro ⟨s, hs, rfl⟩
    obtain ⟨hm, rfl⟩ := (declared?_eq_some_iff h).mp hs
    exact ⟨s, hm, rfl⟩

section Meaning

variable {scopes : Scopes} (h : scopes.Proper)

include h

theorem means_iff {name : String} {m : Meaning} :
    scopes.env.Means name m ↔ ∃ s, scopes.find? name = some s ∧ s.meaning = m := by
  induction scopes with
  | nil =>
    constructor
    · intro hm
      cases hm
    · rintro ⟨s, hs, -⟩
      cases hs
  | cons scope outer ih =>
    have hscope := (h scope List.mem_cons_self).1
    have houter := ih fun other ho => h other (List.mem_cons_of_mem scope ho)
    rw [Scopes.find?, List.findSome?_cons]
    cases hd : declared? scope name with
    | some s =>
      constructor
      · intro hm
        cases hm with
        | here hm =>
          rw [mem_bindings_iff hscope, hd] at hm
          exact hm
        | outside hn _ => exact absurd ((mem_bindings_iff hscope).mpr ⟨s, hd, rfl⟩) (hn s.meaning)
      · intro hm
        exact .here ((mem_bindings_iff hscope).mpr (hd ▸ hm))
    | none =>
      have hnone : ∀ m, (name, m) ∉ scope.map Symbol.binding := by
        intro m hm
        rw [mem_bindings_iff hscope, hd] at hm
        obtain ⟨s, hs, -⟩ := hm
        cases hs
      constructor
      · intro hm
        cases hm with
        | here hm => exact absurd hm (hnone m)
        | outside _ hm => exact houter.mp hm
      · intro hm
        exact .outside hnone (houter.mpr hm)

theorem hasFunction_iff {name : String} {parameters : List DataType} {returns : DataType} :
    scopes.env.HasFunction name parameters returns ↔
      ∃ s, declared? scopes.globals name = some s ∧ s.isFunction = true ∧
        s.parameters = parameters ∧ s.type = returns := by
  simp only [← Symbol.meaning_eq_function_iff, Env.HasFunction, Scopes.getLast?_env]
  by_cases hne : scopes = []
  · subst hne
    simp [Scopes.globals, declared?]
  · have hglobals := (h _ (Scopes.globals_mem hne)).1
    simp only [if_neg hne, Option.mem_def, Option.some.injEq, exists_eq_left',
      mem_bindings_iff hglobals]

theorem length_eq_zero_iff {name : String} {s : Symbol} (hs : scopes.find? name = some s) :
    s.length = 0 ↔ s.isFunction = true := by
  obtain ⟨scope, hscope, hd⟩ := List.exists_of_findSome?_eq_some hs
  exact (h scope hscope).2 s (List.mem_of_find?_eq_some hd)

end Meaning

theorem InferredType.is_iff {t : InferredType} {d : DataType} : t.is d = true ↔ t = .known d := by
  cases t with
  | known type => cases type <;> cases d <;> decide
  | unknown => cases d <;> decide

theorem InferredType.agrees_iff {s t : InferredType} :
    s.agrees t = true ↔ ∃ d, s = .known d ∧ t = .known d := by
  cases s with
  | unknown => simp [agrees, isUnknown]
  | known d =>
    cases t with
    | unknown => simp [agrees]
    | known e =>
      simp only [agrees_known, beq_iff_eq, known.injEq, exists_eq_left']
      exact eq_comm

theorem Verdict.require_eq_nil_iff {condition : Bool} {p : Problem} {span : Span} :
    require condition p span = [] ↔ condition = true := by
  cases condition <;> simp [require]

theorem BinaryOp.infer_eq_ok_iff {op : BinaryOp} {left right : InferredType} {type : DataType} :
    op.infer left right = .ok type ↔
      ∃ d, left = .known d ∧ right = .known d ∧ (op.needsInt = true → d = .int) ∧
        type = op.result := by
  rw [infer]
  by_cases hagree : left.agrees right = true
  · obtain ⟨d, rfl, rfl⟩ := InferredType.agrees_iff.mp hagree
    by_cases hint : op.needsInt = true ∧ d ≠ .int
    · have hnot : (InferredType.known d).is .int = false := by
        rw [← Bool.not_eq_true, InferredType.is_iff]
        exact fun he => hint.2 (InferredType.known.inj he)
      simp [hagree, hint.1, hnot, hint.2]
    · have hok : (op.needsInt && !(InferredType.known d).is .int) = false := by
        by_cases hn : op.needsInt = true
        · have hd : d = .int := by
            by_contra hd
            exact hint ⟨hn, hd⟩
          simp [hd, InferredType.is_iff.mpr]
        · simp [hn]
      have himp : op.needsInt = true → d = .int := by
        intro hn
        by_contra hd
        exact hint ⟨hn, hd⟩
      simp only [hagree, hok, Bool.not_true, Bool.false_eq_true, ↓reduceIte, Except.ok.injEq,
        InferredType.known.injEq]
      constructor
      · rintro rfl
        exact ⟨d, rfl, rfl, himp, rfl⟩
      · rintro ⟨-, -, -, -, rfl⟩
        rfl
  · have hnot : ¬ ∃ d, left = .known d ∧ right = .known d :=
      fun hd => hagree (InferredType.agrees_iff.mpr hd)
    rw [if_pos (by simpa using hagree)]
    constructor
    · intro he
      cases he
    · rintro ⟨d, hl, hr, -⟩
      exact absurd ⟨d, hl, hr⟩ hnot

theorem hasType_unary_iff {env : Env} {op : UnaryOp} {operand : Expr} {span : Span}
    {type : DataType} :
    HasType env (.unary op operand span) type ↔ HasType env operand op.operandType ∧
      type = op.operandType := by
  constructor
  · intro ht
    cases ht with
    | negative ho => exact ⟨ho, rfl⟩
    | negation ho => exact ⟨ho, rfl⟩
  · rintro ⟨ho, rfl⟩
    cases op with
    | neg => exact .negative ho
    | not => exact .negation ho

theorem hasType_binary_iff {env : Env} {op : BinaryOp} {left right : Expr} {span : Span}
    {type : DataType} :
    HasType env (.binary op left right span) type ↔
      ∃ d, HasType env left d ∧ HasType env right d ∧ (op.needsInt = true → d = .int) ∧
        type = op.result := by
  constructor
  · intro ht
    cases ht with
    | arithmetic hop hl hr =>
      have hresult : ∀ op ∈ [BinaryOp.add, .sub, .mul, .div, .mod], op.result = .int := by decide
      exact ⟨.int, hl, hr, fun _ => rfl, (hresult op hop).symm⟩
    | order hop hl hr =>
      have hresult : ∀ op ∈ [BinaryOp.lt, .le, .gt, .ge], op.result = .bool := by decide
      exact ⟨.int, hl, hr, fun _ => rfl, (hresult op hop).symm⟩
    | logic hop hl hr =>
      have hany : ∀ op ∈ [BinaryOp.or, .and, .eq, .ne], op.needsInt = false ∧
          op.result = .bool := by decide
      obtain ⟨hint, hresult⟩ := hany op hop
      exact ⟨_, hl, hr, fun hn => absurd hn (by simp [hint]), hresult.symm⟩
  · rintro ⟨d, hl, hr, hint, rfl⟩
    cases op
    case or | and | eq | ne => exact .logic (by decide) hl hr
    case lt | le | gt | ge =>
      obtain rfl := hint rfl
      exact .order (by decide) hl hr
    case add | sub | mul | div | mod =>
      obtain rfl := hint rfl
      exact .arithmetic (by decide) hl hr

theorem argumentLog_eq_nil_iff {name : String} {position : Nat}
    {arguments : List (InferredType × Span)} {parameters : List DataType} :
    Expr.argumentLog name position arguments parameters = [] ↔
      ∀ a ∈ arguments.zip parameters, a.1.1 = .known a.2 := by
  induction arguments generalizing position parameters with
  | nil => simp [Expr.argumentLog]
  | cons a as ih =>
    cases parameters with
    | nil => simp [Expr.argumentLog]
    | cons p ps =>
      rw [Expr.argumentLog, List.append_eq_nil_iff, Verdict.require_eq_nil_iff,
        InferredType.is_iff, ih, List.zip_cons_cons, List.forall_mem_cons]

/-- A call is reported unless it fits a function of the outermost scope. -/
theorem callLog_eq_nil_iff {scopes : Scopes} {name : String} {arguments : List Expr} {span : Span} :
    Expr.callLog scopes name arguments span = [] ↔
      ∃ s, declared? scopes.globals name = some s ∧ s.isFunction = true ∧
        s.parameters.length = arguments.length ∧
        ∀ a ∈ arguments.zip s.parameters, a.1.type scopes = .known a.2 := by
  rw [Expr.callLog]
  cases declared? scopes.globals name with
  | none => simp
  | some s =>
    by_cases hs : s.isFunction = true
    · simp only [hs, ↓reduceIte, List.append_eq_nil_iff, Verdict.require_eq_nil_iff, beq_iff_eq,
        argumentLog_eq_nil_iff, Option.some.injEq, exists_eq_left', true_and, List.zip_map_left,
        List.forall_mem_map]
      rfl
    · simp [hs]

theorem indexLog_eq_nil_iff {s : Symbol} {span : Span} {index : InferredType × Span} :
    Expr.indexLog s span index = [] ↔ index.1 = .known .int ∧ s.length ≠ 0 := by
  rw [Expr.indexLog, ← InferredType.is_iff]
  cases index.1.is .int <;> simp [Verdict.require]

/-- An expression without problems has a type. -/
theorem Expr.known_of_log_eq_nil {scopes : Scopes} {e : Expr} (h : e.log scopes = []) :
    ∃ type, e.type scopes = .known type := by
  induction e with
  | literal value span => exact ⟨value.type, rfl⟩
  | location name index span _ =>
    rw [log_location, List.append_eq_nil_iff, locationLog] at h
    rw [type]
    cases hs : scopes.find? name with
    | none => simp [hs] at h
    | some s => exact ⟨s.type, rfl⟩
  | call name arguments span _ =>
    rw [log, List.append_eq_nil_iff, callLog_eq_nil_iff] at h
    obtain ⟨-, s, hs, hf, -⟩ := h
    exact ⟨s.type, by rw [type, hs]; exact if_pos hf⟩
  | unary op operand span ih =>
    rw [log, List.append_eq_nil_iff] at h
    exact ih h.1
  | binary op left right span _ _ =>
    rw [log, List.append_eq_nil_iff, List.append_eq_nil_iff, Verdict.ofBinary] at h
    rw [type]
    cases hi : op.infer (left.type scopes) (right.type scopes) with
    | error p => simp [hi] at h
    | ok type => exact ⟨type, rfl⟩

theorem hasType_name_iff {scopes : Scopes} (h : scopes.Proper) {name : String} {span : Span}
    {type : DataType} :
    HasType scopes.env (.location name none span) type ↔
      ∃ s, scopes.find? name = some s ∧ s.type = type := by
  constructor
  · intro ht
    cases ht with
    | name hm =>
      obtain ⟨s, hs, rfl⟩ := (means_iff h).mp hm
      exact ⟨s, hs, s.type_meaning.symm⟩
  · rintro ⟨s, hs, rfl⟩
    rw [← s.type_meaning]
    exact .name ((means_iff h).mpr ⟨s, hs, rfl⟩)

theorem hasType_element_iff {scopes : Scopes} (h : scopes.Proper) {name : String}
    {index : Expr} {span : Span} {type : DataType} :
    HasType scopes.env (.location name (some index) span) type ↔
      HasType scopes.env index .int ∧
      ∃ s, scopes.find? name = some s ∧ s.length ≠ 0 ∧ s.type = type := by
  constructor
  · intro ht
    cases ht with
    | element hm hint =>
      obtain ⟨s, hs, hmeaning⟩ := (means_iff h).mp hm
      obtain ⟨hfun, rfl⟩ := Symbol.meaning_eq_value_iff.mp hmeaning
      refine ⟨hint, s, hs, ?_, rfl⟩
      rw [Ne, length_eq_zero_iff h hs, hfun]
      exact Bool.false_ne_true
  · rintro ⟨hint, s, hs, hlength, rfl⟩
    rw [Ne, length_eq_zero_iff h hs, Bool.not_eq_true] at hlength
    exact .element ((means_iff h).mpr ⟨s, hs, Symbol.meaning_eq_value_iff.mpr ⟨hlength, rfl⟩⟩) hint

theorem hasType_call_iff {scopes : Scopes} (h : scopes.Proper) {name : String}
    {arguments : List Expr} {span : Span} {type : DataType} :
    HasType scopes.env (.call name arguments span) type ↔
      ∃ s, declared? scopes.globals name = some s ∧ s.isFunction = true ∧
        s.parameters.length = arguments.length ∧
        s.type = type ∧ ∀ a ∈ arguments.zip s.parameters, HasType scopes.env a.1 a.2 := by
  constructor
  · intro ht
    cases ht with
    | call hf hlength hargs =>
      obtain ⟨s, hs, hisf, rfl, rfl⟩ := (hasFunction_iff h).mp hf
      exact ⟨s, hs, hisf, hlength.symm, rfl, hargs⟩
  · rintro ⟨s, hs, hisf, hlength, rfl, hargs⟩
    exact .call ((hasFunction_iff h).mpr ⟨s, hs, hisf, rfl, rfl⟩) hlength.symm hargs

section Clean

variable {scopes : Scopes} {name : String} {span : Span} {type : DataType}

theorem clean_name_iff :
    (Expr.location name none span).log scopes = [] ∧
        (Expr.location name none span).type scopes = .known type ↔
      ∃ s, scopes.find? name = some s ∧ s.type = type := by
  rw [Expr.log_location, List.append_eq_nil_iff, Expr.locationLog, Expr.type]
  cases scopes.find? name with
  | none => simp
  | some s => simp

theorem clean_element_iff {index : Expr} :
    (Expr.location name (some index) span).log scopes = [] ∧
        (Expr.location name (some index) span).type scopes = .known type ↔
      (index.log scopes = [] ∧ index.type scopes = .known .int) ∧
        ∃ s, scopes.find? name = some s ∧ s.length ≠ 0 ∧ s.type = type := by
  rw [Expr.log_location, List.append_eq_nil_iff, Expr.locationLog, Expr.type]
  cases scopes.find? name with
  | none => simp
  | some s =>
    have hindex : Expr.indexLog s span (index.seen scopes) = [] ↔
        index.type scopes = .known .int ∧ s.length ≠ 0 := indexLog_eq_nil_iff
    simp [hindex, and_assoc]

theorem clean_call_iff {arguments : List Expr} :
    (Expr.call name arguments span).log scopes = [] ∧
        (Expr.call name arguments span).type scopes = .known type ↔
      ∃ s, declared? scopes.globals name = some s ∧ s.isFunction = true ∧
        s.parameters.length = arguments.length ∧ s.type = type ∧
          ∀ a ∈ arguments.zip s.parameters, a.1.log scopes = [] ∧ a.1.type scopes = .known a.2 := by
  rw [Expr.log, List.append_eq_nil_iff, callLog_eq_nil_iff, Expr.logAll_eq,
    List.flatMap_eq_nil_iff, Expr.type]
  constructor
  · rintro ⟨⟨hlog, s, hs, hisf, hlength, hargs⟩, ht⟩
    have htype : s.type = type := by simpa [hs, hisf] using ht
    refine ⟨s, hs, hisf, hlength, htype, fun a ha => ?_⟩
    exact ⟨hlog a.1 (List.of_mem_zip ha).1, hargs a ha⟩
  · rintro ⟨s, hs, hisf, hlength, rfl, hall⟩
    refine ⟨⟨?_, s, hs, hisf, hlength, fun a ha => (hall a ha).2⟩, ?_⟩
    · -- Every argument has a parameter beside it.
      intro a ha
      rw [← List.map_fst_zip (Nat.le_of_eq hlength.symm)] at ha
      obtain ⟨q, hq, rfl⟩ := List.mem_map.mp ha
      exact (hall q hq).1
    · rw [hs]
      exact if_pos hisf

theorem clean_unary_iff {op : UnaryOp} {operand : Expr} :
    (Expr.unary op operand span).log scopes = [] ∧
        (Expr.unary op operand span).type scopes = .known type ↔
      (operand.log scopes = [] ∧ operand.type scopes = .known op.operandType) ∧
        type = op.operandType := by
  have hu : (Verdict.ofUnary op (operand.type scopes) span).log = [] ↔
      operand.type scopes = .known op.operandType :=
    Verdict.require_eq_nil_iff.trans InferredType.is_iff
  rw [Expr.log, List.append_eq_nil_iff, Expr.type, hu]
  constructor
  · rintro ⟨⟨hl, ht⟩, ht'⟩
    exact ⟨⟨hl, ht⟩, InferredType.known.inj (ht'.symm.trans ht)⟩
  · rintro ⟨⟨hl, ht⟩, rfl⟩
    exact ⟨⟨hl, ht⟩, ht⟩

theorem clean_binary_iff {op : BinaryOp} {left right : Expr} :
    (Expr.binary op left right span).log scopes = [] ∧
        (Expr.binary op left right span).type scopes = .known type ↔
      ∃ d, (left.log scopes = [] ∧ left.type scopes = .known d) ∧
        (right.log scopes = [] ∧ right.type scopes = .known d) ∧
          (op.needsInt = true → d = .int) ∧ type = op.result := by
  have hb : (Verdict.ofBinary op (left.type scopes) (right.type scopes) span).log = [] ∧
      (Expr.binary op left right span).type scopes = .known type ↔
        op.infer (left.type scopes) (right.type scopes) = .ok type := by
    rw [Verdict.ofBinary, Expr.type]
    cases op.infer (left.type scopes) (right.type scopes) <;> simp
  rw [Expr.log, List.append_eq_nil_iff, List.append_eq_nil_iff, and_assoc, and_assoc, hb,
    BinaryOp.infer_eq_ok_iff]
  constructor
  · rintro ⟨hl, hr, d, htl, htr, hint, rfl⟩
    exact ⟨d, ⟨hl, htl⟩, ⟨hr, htr⟩, hint, rfl⟩
  · rintro ⟨d, ⟨hl, htl⟩, ⟨hr, htr⟩, hint, rfl⟩
    exact ⟨hl, hr, d, htl, htr, hint, rfl⟩

end Clean

/-- The typing rules hold of the expressions that are reported nowhere, at the types they are
given. -/
theorem hasType_iff {scopes : Scopes} (h : scopes.Proper) {e : Expr} {type : DataType} :
    HasType scopes.env e type ↔ e.log scopes = [] ∧ e.type scopes = .known type := by
  induction e generalizing type with
  | literal value span =>
    constructor
    · intro ht
      cases ht
      exact ⟨rfl, rfl⟩
    · rintro ⟨-, he⟩
      cases InferredType.known.inj he
      exact .literal
  | location name index span ih =>
    cases index with
    | none => rw [hasType_name_iff h, clean_name_iff]
    | some index => rw [hasType_element_iff h, clean_element_iff, ih index rfl]
  | call name arguments span ih =>
    have hargs (parameters : List DataType) :
        (∀ a ∈ arguments.zip parameters, HasType scopes.env a.1 a.2) ↔
          ∀ a ∈ arguments.zip parameters, a.1.log scopes = [] ∧ a.1.type scopes = .known a.2 :=
      forall₂_congr fun a ha => ih a.1 (List.of_mem_zip ha).1
    rw [hasType_call_iff h, clean_call_iff]
    simp only [hargs]
  | unary op operand span ih => rw [hasType_unary_iff, clean_unary_iff, ih]
  | binary op left right span ihl ihr =>
    rw [hasType_binary_iff, clean_binary_iff]
    simp only [ihl, ihr]

theorem log_eq_nil_iff {scopes : Scopes} (h : scopes.Proper) {e : Expr} :
    e.log scopes = [] ↔ ∃ type, HasType scopes.env e type := by
  simp only [hasType_iff h]
  constructor
  · intro hl
    obtain ⟨type, ht⟩ := Expr.known_of_log_eq_nil hl
    exact ⟨type, hl, ht⟩
  · rintro ⟨type, hl, -⟩
    exact hl

section Variables

variable {policy : Policy} {storage : Storage} {vs : List Variable}

theorem filterMap_symbol? (h : ∀ v ∈ vs, policy.objection? storage v.name v.type v.length = none) :
    vs.filterMap (Variable.symbol? policy storage) =
      vs.map fun v => ⟨v.name, .variable v.length storage, v.type, v.span⟩ := by
  rw [← List.filterMap_eq_map]
  apply List.filterMap_congr
  intro v hv
  simp [Variable.symbol?, Policy.symbol?, h v hv]

/-- The symbols of variables that nothing speaks against declare what the variables do. -/
theorem variables_scope (h : ∀ v ∈ vs, policy.objection? storage v.name v.type v.length = none) :
    (vs.filterMap (Variable.symbol? policy storage)).map Symbol.name = vs.map Variable.name ∧
      (vs.filterMap (Variable.symbol? policy storage)).map Symbol.binding =
        vs.map Variable.binding ∧
      ∀ s ∈ vs.filterMap (Variable.symbol? policy storage), s.length = 0 ↔ s.isFunction = true := by
  rw [filterMap_symbol? h]
  refine ⟨by simp, by simp [Symbol.binding, Symbol.meaning, Variable.binding], ?_⟩
  intro s hs
  obtain ⟨v, hv, rfl⟩ := List.mem_map.mp hs
  have hlength := ((policy.objection?_eq_none_iff _ _ _ _).mp (h v hv)).2.1
  simpa [Symbol.length, Symbol.isFunction] using Nat.ne_of_gt hlength

theorem objection?_frame_iff {v : Variable} :
    policy.objection? .frame v.name v.type v.length = none ↔
      v.Storable ∧ (policy.globalArraysOnly = true → v.length = 1) := by
  rw [policy.objection?_eq_none_iff, Variable.Storable]
  constructor
  · rintro ⟨hv, hl, ha⟩
    refine ⟨⟨hv, hl⟩, fun hp => ?_⟩
    have := ha hp rfl
    omega
  · rintro ⟨⟨hv, hl⟩, ha⟩
    exact ⟨hv, hl, fun hp _ => Nat.le_of_eq (ha hp)⟩

theorem objection?_global_iff {v : Variable} :
    policy.objection? .global v.name v.type v.length = none ↔ v.Storable := by
  rw [policy.objection?_eq_none_iff, Variable.Storable]
  constructor
  · rintro ⟨hv, hl, -⟩
    exact ⟨hv, hl⟩
  · rintro ⟨hv, hl⟩
    exact ⟨hv, hl, fun _ hn => nomatch hn⟩

theorem Variable.scopeLogAll_nil_iff :
    scopeLogAll policy storage [] vs = [] ↔
      (∀ v ∈ vs, policy.objection? storage v.name v.type v.length = none) ∧
        (vs.map Variable.name).Nodup := by
  rw [scopeLogAll_eq_nil_iff]
  refine and_congr_right fun hv => ?_
  rw [takenLogAll_nil_iff, (variables_scope hv).1]

end Variables

theorem Scopes.Proper.cons {scopes : Scopes} (h : scopes.Proper) {scope : List Symbol}
    (hn : (scope.map Symbol.name).Nodup) (hs : ∀ s ∈ scope, s.length = 0 ↔ s.isFunction = true) :
    Scopes.Proper (scope :: scopes) := by
  intro other ho
  rcases List.mem_cons.mp ho with rfl | ho
  · exact ⟨hn, hs⟩
  · exact h other ho

theorem testLog_eq_nil_iff {scopes : Scopes} {place : Test} {e : Expr} :
    e.testLog scopes place = [] ↔ e.type scopes = .known .bool :=
  Verdict.require_eq_nil_iff.trans InferredType.is_iff

theorem Stmt.scopeLog_branch_nil_iff {policy : Policy} {condition : Expr} {yes : Block}
    {no : Option Block} {span : Span} :
    Stmt.scopeLog policy (.branch condition yes no span) = [] ↔
      yes.scopeLog policy = [] ∧ ∀ b ∈ no, b.scopeLog policy = [] := by
  cases no with
  | none => simp [Stmt.scopeLog]
  | some no => simp [Stmt.scopeLog]

theorem Stmt.log_branch_nil_iff {policy : Policy} {scopes : Scopes} {inLoop : Bool}
    {condition : Expr} {yes : Block} {no : Option Block} {span : Span} :
    Stmt.log policy scopes inLoop (.branch condition yes no span) = [] ↔
      (condition.log scopes = [] ∧ condition.type scopes = .known .bool) ∧
        yes.log policy scopes false = [] ∧ ∀ b ∈ no, b.log policy scopes false = [] := by
  cases no with
  | none =>
    simp only [Stmt.log, List.append_eq_nil_iff, testLog_eq_nil_iff, Option.not_mem_none,
      false_implies, implies_true, and_true]
    tauto
  | some no =>
    simp only [Stmt.log, List.append_eq_nil_iff, testLog_eq_nil_iff,
      Option.mem_some_iff, forall_eq']
    tauto

/-- The logs of a statement decide whether it is well-formed: nothing is wrong with its
declarations, and nothing with its constructs. -/
def Stmt.LogsDecide (policy : Policy) (s : Stmt) : Prop :=
  ∀ (scopes : Scopes) (inLoop : Bool), scopes.Proper →
    (s.WellFormed policy scopes.env inLoop ↔
      s.scopeLog policy = [] ∧ s.log policy scopes inLoop = [])

def Block.LogsDecide (policy : Policy) (b : Block) : Prop :=
  ∀ (scopes : Scopes) (inLoop : Bool), scopes.Proper →
    (b.WellFormed policy scopes.env inLoop ↔
      b.scopeLog policy = [] ∧ b.log policy scopes inLoop = [])

section LogsDecide

variable {policy : Policy} {span : Span}

theorem Stmt.logsDecide_assign (name : String) (index : Option Expr) (target : Span)
    (value : Expr) :
    LogsDecide policy (.assign name index target value span) := by
  intro scopes inLoop h
  rw [Stmt.log, List.append_eq_nil_iff, List.append_eq_nil_iff, Verdict.require_eq_nil_iff,
    InferredType.agrees_iff]
  constructor
  · intro hw
    cases hw with
    | assign hl hv =>
      obtain ⟨hll, hlt⟩ := (hasType_iff h).mp hl
      obtain ⟨hvl, hvt⟩ := (hasType_iff h).mp hv
      exact ⟨rfl, hll, hvl, _, hlt, hvt⟩
  · rintro ⟨-, hll, hvl, type, hlt, hvt⟩
    exact .assign ((hasType_iff h).mpr ⟨hll, hlt⟩) ((hasType_iff h).mpr ⟨hvl, hvt⟩)

theorem Stmt.logsDecide_call (name : String) (arguments : List Expr) :
    LogsDecide policy (.call name arguments span) := by
  intro scopes inLoop h
  -- The statement reports what the call would report as an expression.
  have hcall : Stmt.log policy scopes inLoop (.call name arguments span) =
      (Expr.call name arguments span).log scopes := by
    rw [Stmt.log, Expr.log]
  rw [hcall, log_eq_nil_iff h]
  constructor
  · intro hw
    cases hw with
    | call ht => exact ⟨rfl, _, ht⟩
  · rintro ⟨-, returns, ht⟩
    exact .call ht

theorem Stmt.logsDecide_branch (condition : Expr) {yes : Block} {no : Option Block}
    (hy : yes.LogsDecide policy) (hn : ∀ b ∈ no, b.LogsDecide policy) :
    LogsDecide policy (.branch condition yes no span) := by
  intro scopes inLoop h
  rw [Stmt.scopeLog_branch_nil_iff, Stmt.log_branch_nil_iff, ← hasType_iff h]
  constructor
  · intro hw
    cases hw with
    | branch hc hyes hno =>
      obtain ⟨hys, hyl⟩ := (hy scopes false h).mp hyes
      have hnos : ∀ b ∈ no, b.scopeLog policy = [] ∧ b.log policy scopes false = [] :=
        fun b hb => (hn b hb scopes false h).mp (hno b hb)
      exact ⟨⟨hys, fun b hb => (hnos b hb).1⟩, hc, hyl, fun b hb => (hnos b hb).2⟩
  · rintro ⟨⟨hys, hns⟩, hc, hyl, hnl⟩
    exact .branch hc ((hy scopes false h).mpr ⟨hys, hyl⟩)
      fun b hb => (hn b hb scopes false h).mpr ⟨hns b hb, hnl b hb⟩

theorem Stmt.logsDecide_loop (guard : Expr) {body : Block} (hb : body.LogsDecide policy) :
    LogsDecide policy (.loop guard body span) := by
  intro scopes inLoop h
  rw [Stmt.scopeLog, Stmt.log, List.append_eq_nil_iff, List.append_eq_nil_iff, testLog_eq_nil_iff]
  constructor
  · intro hw
    cases hw with
    | loop hg hbody =>
      obtain ⟨hgl, hgt⟩ := (hasType_iff h).mp hg
      obtain ⟨hbs, hbl⟩ := (hb scopes true h).mp hbody
      exact ⟨hbs, hgl, hbl, hgt⟩
  · rintro ⟨hbs, hgl, hbl, hgt⟩
    exact .loop ((hasType_iff h).mpr ⟨hgl, hgt⟩) ((hb scopes true h).mpr ⟨hbs, hbl⟩)

theorem Stmt.logsDecide_ret (value : Option Expr) : LogsDecide policy (.ret value span) := by
  intro scopes inLoop h
  rw [Stmt.log, List.flatMap_eq_nil_iff]
  constructor
  · intro hw
    cases hw with
    | ret hv =>
      exact ⟨rfl, fun e he => (log_eq_nil_iff h).mpr (hv e (Option.mem_toList.mp he))⟩
  · rintro ⟨-, hv⟩
    exact .ret fun e he => (log_eq_nil_iff h).mp (hv e (Option.mem_toList.mpr he))

theorem Stmt.logsDecide_jump (j : Jump) : LogsDecide policy (.jump j span) := by
  intro scopes inLoop h
  rw [Stmt.log, Verdict.require_eq_nil_iff]
  constructor
  · intro hw
    cases hw
    exact ⟨rfl, rfl⟩
  · rintro ⟨-, rfl⟩
    exact .jump

theorem Block.logsDecide_mk (vars : List Variable) {statements : List Stmt}
    (ih : ∀ s ∈ statements, s.LogsDecide policy) :
    LogsDecide policy (.mk vars statements span) := by
  intro scopes inLoop h
  rw [Block.scopeLog, Block.log, List.append_eq_nil_iff, Stmt.scopeLogAll_eq, Stmt.logAll_eq,
    List.flatMap_eq_nil_iff, List.flatMap_eq_nil_iff, Variable.scopeLogAll_nil_iff]
  -- Variables that pass by themselves give the scope that the rules ask for.
  have hstatements (hv : ∀ v ∈ vars, policy.objection? .frame v.name v.type v.length = none)
      (hn : (vars.map Variable.name).Nodup) (s : Stmt) (hs : s ∈ statements) :
      s.WellFormed policy (vars.map Variable.binding :: scopes.env) inLoop ↔
        s.scopeLog policy = [] ∧
          s.log policy (vars.filterMap (Variable.symbol? policy .frame) :: scopes) inLoop = [] := by
    obtain ⟨hnames, hbindings, hlengths⟩ := variables_scope hv
    rw [← hbindings]
    exact ih s hs _ inLoop (h.cons (hnames ▸ hn) hlengths)
  constructor
  · intro hw
    cases hw with
    | mk hn hstorable hpolicy hs =>
      have hv : ∀ v ∈ vars, policy.objection? .frame v.name v.type v.length = none :=
        fun v hv => objection?_frame_iff.mpr ⟨hstorable v hv, fun hp => hpolicy hp v hv⟩
      exact ⟨⟨⟨hv, hn⟩, fun s hm => ((hstatements hv hn s hm).mp (hs s hm)).1⟩,
        fun s hm => ((hstatements hv hn s hm).mp (hs s hm)).2⟩
  · rintro ⟨⟨⟨hv, hn⟩, hscope⟩, hlog⟩
    exact .mk hn (fun v hm => (objection?_frame_iff.mp (hv v hm)).1)
      (fun hp v hm => (objection?_frame_iff.mp (hv v hm)).2 hp)
      fun s hm => (hstatements hv hn s hm).mpr ⟨hscope s hm, hlog s hm⟩

end LogsDecide

theorem Stmt.logsDecide_and (policy : Policy) :
    (∀ s : Stmt, s.LogsDecide policy) ∧ ∀ b : Block, b.LogsDecide policy := by
  apply Stmt.induct
  case assign => exact fun name index target value _ => logsDecide_assign name index target value
  case call => exact fun name arguments _ => logsDecide_call name arguments
  case branch => exact fun condition _ _ _ hy hn => logsDecide_branch condition hy hn
  case loop => exact fun guard _ _ hb => logsDecide_loop guard hb
  case ret => exact fun value _ => logsDecide_ret value
  case jump => exact fun j _ => logsDecide_jump j
  case mk => exact fun vars _ _ ih => Block.logsDecide_mk vars ih

/-- A returned value of the type that is asked for; none for `void`. -/
def Function.Gives (returns : DataType) (value : Option InferredType) : Prop :=
  (returns = .void → value = none) ∧ (returns ≠ .void → value = some (.known returns))

theorem Function.returnLog_eq_nil_iff {name : String} {returns : DataType}
    {value : Option InferredType} {span : Span} : returnLog name returns value span = [] ↔
      Gives returns value := by
  cases value with
  | none =>
    cases returns <;> simp [returnLog, Gives, Verdict.require_eq_nil_iff, InferredType.is_iff]
  | some t =>
    cases returns <;> simp [returnLog, Gives, Verdict.require_eq_nil_iff, InferredType.is_iff]

theorem Function.returnsLog_eq_nil_iff {name : String} {returns : DataType}
    {values : List (Option InferredType × Span)} :
    returnsLog name returns values = [] ↔
      values.length ≤ 1 ∧ ∀ value ∈ values.map Prod.fst, Gives returns value := by
  rw [List.forall_mem_map]
  rcases values with _ | ⟨r, _ | ⟨q, rest⟩⟩
  · simp [returnsLog]
  · simp [returnsLog, returnLog_eq_nil_iff]
  · simp [returnsLog]

namespace Function

theorem map_fst_returned (policy : Policy) (scopes : Scopes) (g : Function) :
    (g.returned policy scopes).map Prod.fst =
      g.returns?.map (Option.map (Expr.type (g.body.scope policy :: g.scope :: scopes))) := by
  rw [returned, returns?, List.map_filterMap, List.map_filterMap]
  apply List.filterMap_congr
  intro s _
  cases s <;> rfl

theorem parameters_scope (g : Function) :
    g.scope.map Symbol.name = g.parameters.map Parameter.name ∧
      g.scope.map Symbol.binding = g.parameters.map Parameter.binding ∧
      ∀ s ∈ g.scope, s.length = 0 ↔ s.isFunction = true := by
  refine ⟨by simp [scope, Symbol.ofParameter], ?_, ?_⟩
  · simp [scope, Symbol.ofParameter, Symbol.binding, Symbol.meaning, Parameter.binding]
  · intro s hs
    obtain ⟨p, -, rfl⟩ := List.mem_map.mp hs
    simp [Symbol.ofParameter, Symbol.length, Symbol.isFunction]

/-- The returns of a body without other problems. -/
theorem returns_iff {policy : Policy} {scopes : Scopes} {g : Function}
    (h : Scopes.Proper (g.body.scope policy :: g.scope :: scopes))
    (hbody : g.body.log policy (g.scope :: scopes) false = []) :
    returnsLog g.name g.returns (g.returned policy scopes) = [] ↔
      g.returns?.length ≤ 1 ∧ (g.returns = .void → ∀ value ∈ g.returns?, value = none) ∧
        (g.returns ≠ .void → ∀ value ∈ g.returns?, ∃ e, value = some e ∧
          HasType (Scopes.env (g.body.scope policy :: g.scope :: scopes)) e g.returns) := by
  have hvalues := map_fst_returned policy scopes g
  have hlength : (g.returned policy scopes).length = g.returns?.length := by
    simpa using congrArg List.length hvalues
  have hlog : ∀ e, some e ∈ g.returns? → e.log (g.body.scope policy :: g.scope :: scopes) = [] := by
    intro e he
    obtain ⟨s, hs, hret⟩ := List.mem_filterMap.mp he
    rw [Block.log_eq, List.flatMap_eq_nil_iff] at hbody
    have hsl := hbody s hs
    rcases s with _ | _ | _ | _ | ⟨value, span⟩ | _
    case ret =>
      obtain rfl := Option.some.inj hret
      simpa [Stmt.log] using hsl
    all_goals cases hret
  rw [returnsLog_eq_nil_iff, hlength, hvalues, List.forall_mem_map]
  refine and_congr_right fun _ => ?_
  constructor
  · intro hg
    refine ⟨fun hv value hm => ?_, fun hv value hm => ?_⟩
    · exact Option.map_eq_none_iff.mp ((hg value hm).1 hv)
    · obtain ⟨e, rfl, ht⟩ := Option.map_eq_some_iff.mp ((hg value hm).2 hv)
      exact ⟨e, rfl, (hasType_iff h).mpr ⟨hlog e hm, ht⟩⟩
  · rintro ⟨hvoid, htyped⟩ value hm
    refine ⟨fun hv => ?_, fun hv => ?_⟩
    · rw [hvoid hv value hm]
      rfl
    · obtain ⟨e, rfl, ht⟩ := htyped hv value hm
      rw [Option.map_some, ((hasType_iff h).mp ht).2]

/-- A function whose own name means a function. -/
theorem wellFormed_iff {policy : Policy} {scopes : Scopes} (h : scopes.Proper) {g : Function}
    (hg : (scopes.find? g.name).any Symbol.isFunction = true) :
    g.WellFormed policy scopes.env ↔ g.scopeLog policy = [] ∧ g.log policy scopes = [] := by
  obtain ⟨hnames, hbindings, hlengths⟩ := g.parameters_scope
  rw [scopeLog, log, List.append_eq_nil_iff, List.append_eq_nil_iff, List.append_eq_nil_iff,
    takenLogAll_nil_iff, hnames, Verdict.require_eq_nil_iff]
  have hblock (hp : (g.parameters.map Parameter.name).Nodup) :
      g.body.WellFormed policy (g.parameters.map Parameter.binding :: scopes.env) false ↔
        g.body.scopeLog policy = [] ∧ g.body.log policy (g.scope :: scopes) false = [] := by
    rw [← hbindings]
    exact (Stmt.logsDecide_and policy).2 g.body _ false (h.cons (hnames ▸ hp) hlengths)
  have hinner (hp : (g.parameters.map Parameter.name).Nodup) (hs : g.body.scopeLog policy = []) :
      Scopes.Proper (g.body.scope policy :: g.scope :: scopes) ∧
        Scopes.env (g.body.scope policy :: g.scope :: scopes) =
          g.body.vars.map Variable.binding :: g.parameters.map Parameter.binding :: scopes.env := by
    rw [Block.scopeLog_eq, List.append_eq_nil_iff, Variable.scopeLogAll_nil_iff] at hs
    obtain ⟨hvn, hvb, hvl⟩ := variables_scope hs.1.1
    refine ⟨(h.cons (hnames ▸ hp) hlengths).cons (hvn ▸ hs.1.2) hvl, ?_⟩
    rw [← hbindings, ← hvb]
    rfl
  constructor
  · intro hw
    obtain ⟨hs, hl⟩ := (hblock hw.parameters).mp hw.body
    obtain ⟨hproper, henv⟩ := hinner hw.parameters hs
    refine ⟨⟨hw.parameters, hs⟩, hl, hg, (returns_iff hproper hl).mpr ⟨hw.once, hw.void, ?_⟩⟩
    rw [henv]
    exact hw.typed
  · rintro ⟨⟨hp, hs⟩, hl, -, hr⟩
    obtain ⟨hproper, henv⟩ := hinner hp hs
    obtain ⟨honce, hvoid, htyped⟩ := (returns_iff hproper hl).mp hr
    rw [henv] at htyped
    exact ⟨hp, (hblock hp).mpr ⟨hs, hl⟩, honce, hvoid, htyped⟩

theorem main?_eq_some_iff {g : Function} {l : List Diagnostic} :
    g.main? = some l ↔ g.name = "main" ∧ Forest.checkMain g.returns g.parameters g.span = l := by
  rw [main?]
  split
  · next hname => simp [hname]
  · next hname => simp [hname]

end Function

namespace Program

theorem scope_names {policy : Policy} {p : Program}
    (h : ∀ v ∈ p.vars, policy.objection? .global v.name v.type v.length = none) :
    (p.scope policy).map Symbol.name = p.vars.map Variable.name ++ p.functions.map Function.name ∧
      (p.scope policy).map Symbol.binding = p.vars.map Variable.binding ++
        p.functions.map Function.binding ∧
      ∀ s ∈ p.scope policy, s.length = 0 ↔ s.isFunction = true := by
  obtain ⟨hnames, hbindings, hlengths⟩ := variables_scope h
  rw [scope, List.map_append, List.map_append, hnames, hbindings, List.map_map, List.map_map]
  refine ⟨rfl, rfl, ?_⟩
  intro s hs
  rcases List.mem_append.mp hs with hs | hs
  · exact hlengths s hs
  · obtain ⟨g, -, rfl⟩ := List.mem_map.mp hs
    simp [Function.symbol, Symbol.ofFunction, Symbol.length, Symbol.isFunction]

/-- The main functions are right and there is one. -/
theorem mains_eq_nil_iff {p : Program} (hn : (p.functions.map Function.name).Nodup) :
    (p.functions.filterMap Function.main?).flatten
        ++ Verdict.require (!(p.functions.filterMap Function.main?).isEmpty) .missingMain p.span =
          [] ↔
      ∃ g ∈ p.functions, g.name = "main" ∧ g.returns = .int ∧ g.parameters = [] := by
  rw [List.append_eq_nil_iff, Verdict.require_eq_nil_iff]
  have hmain (g : Function) : Forest.checkMain g.returns g.parameters g.span = [] ↔
      g.returns = .int ∧ g.parameters = [] := by
    rw [Forest.checkMain, List.append_eq_nil_iff, Verdict.require_eq_nil_iff,
      Verdict.require_eq_nil_iff, beq_iff_eq, List.isEmpty_iff]
  constructor
  · rintro ⟨hflat, hne⟩
    obtain ⟨l, rest, hl⟩ := List.exists_cons_of_ne_nil (l := p.functions.filterMap Function.main?)
      (by simpa [List.isEmpty_iff] using hne)
    have hmem : l ∈ p.functions.filterMap Function.main? := hl ▸ List.mem_cons_self
    obtain ⟨g, hg, hgl⟩ := List.mem_filterMap.mp hmem
    obtain ⟨hname, rfl⟩ := Function.main?_eq_some_iff.mp hgl
    have hnil := List.flatten_eq_nil_iff.mp hflat _ hmem
    exact ⟨g, hg, hname, (hmain g).mp hnil⟩
  · rintro ⟨g, hg, hname, hright⟩
    have hgl : g.main? = some (Forest.checkMain g.returns g.parameters g.span) := if_pos hname
    have hmem := List.mem_filterMap.mpr ⟨g, hg, hgl⟩
    refine ⟨List.flatten_eq_nil_iff.mpr fun l hl => ?_, ?_⟩
    · obtain ⟨g', hg', hgl'⟩ := List.mem_filterMap.mp hl
      obtain ⟨hname', rfl⟩ := Function.main?_eq_some_iff.mp hgl'
      obtain rfl := List.inj_on_of_nodup_map hn hg' hg (hname'.trans hname.symm)
      exact (hmain g').mpr hright
    · simpa [List.isEmpty_iff] using List.ne_nil_of_mem hmem

/-- There are problems neither with the declarations of a program nor with its constructs if it is
well-formed, and only then. -/
theorem log_eq_nil_iff (policy : Policy) (p : Program) :
    p.log policy = [] ↔ p.WellFormed policy := by
  have hscopes : p.scopeLog policy = [] ↔
      ((∀ v ∈ p.vars, policy.objection? .global v.name v.type v.length = none) ∧
        (p.vars.map Variable.name ++ p.functions.map Function.name).Nodup) ∧
        ∀ g ∈ p.functions, g.scopeLog policy = [] := by
    rw [scopeLog, List.append_eq_nil_iff, Variable.scopeLogAll_nil_iff,
      Function.scopeLogAll_eq_nil_iff, and_assoc, and_assoc]
    refine and_congr_right fun hv => ?_
    obtain ⟨hnames, -, -⟩ := scope_names hv
    rw [← hnames, ← (variables_scope hv).1, ← and_assoc]
    refine and_congr_left fun _ => ?_
    constructor
    · rintro ⟨hn, ht⟩
      exact (takenLogAll_eq_nil_iff hn).mp ht
    · intro hn
      have hvars := (List.nodup_append.mp (List.map_append ▸ hn)).1
      exact ⟨hvars, (takenLogAll_eq_nil_iff hvars).mpr hn⟩
  have hfunctions (hv : ∀ v ∈ p.vars, policy.objection? .global v.name v.type v.length = none)
      (hn : (p.vars.map Variable.name ++ p.functions.map Function.name).Nodup) (g : Function)
      (hg : g ∈ p.functions) :
      g.WellFormed policy [p.vars.map Variable.binding ++ p.functions.map Function.binding] ↔
        g.scopeLog policy = [] ∧ g.log policy [p.scope policy] = [] := by
    obtain ⟨hnames, hbindings, hlengths⟩ := scope_names hv
    have hproper : Scopes.Proper [p.scope policy] :=
      Scopes.Proper.cons (fun _ h => absurd h List.not_mem_nil) (hnames ▸ hn) hlengths
    have hown : declared? (p.scope policy) g.name = some g.symbol :=
      (declared?_eq_some_iff (hnames ▸ hn)).mpr ⟨List.mem_append_right _ (List.mem_map_of_mem hg),
        rfl⟩
    rw [← hbindings]
    refine Function.wellFormed_iff hproper ?_
    rw [Scopes.find?, List.findSome?_cons, hown]
    rfl
  rw [log, List.append_eq_nil_iff, hscopes, typeLog, List.append_eq_nil_iff,
    List.flatMap_eq_nil_iff]
  constructor
  · rintro ⟨⟨⟨hv, hn⟩, hs⟩, hl, hmain⟩
    refine ⟨hn, fun v hm => objection?_global_iff.mp (hv v hm), fun g hg => ?_, ?_⟩
    · exact (hfunctions hv hn g hg).mpr ⟨hs g hg, hl g hg⟩
    · exact (mains_eq_nil_iff (List.nodup_append.mp hn).2.1).mp hmain
  · intro hw
    have hv : ∀ v ∈ p.vars, policy.objection? .global v.name v.type v.length = none :=
      fun v hm => objection?_global_iff.mpr (hw.storable v hm)
    have hf := fun g hg => (hfunctions hv hw.names g hg).mp (hw.functions g hg)
    exact ⟨⟨⟨hv, hw.names⟩, fun g hg => (hf g hg).1⟩, fun g hg => (hf g hg).2,
      (mains_eq_nil_iff (List.nodup_append.mp hw.names).2.1).mpr hw.main⟩

end Program

/-- A text that can be read is checked to the end, and nothing is reported if it holds a well-formed
program, and only then. -/
theorem accepts_iff_wellFormed {source : String} {p : Program} (hp : Program.parse source = .ok p)
    (policy : Policy) :
    ∃ a, check policy source = .ok a ∧ (a.log = [] ↔ p.WellFormed policy) := by
  obtain ⟨types, -, hcheck⟩ := check_of_parse_ok hp policy
  exact ⟨_, hcheck, p.log_eq_nil_iff policy⟩

/-- A global array, a call of a later function, a name that is declared again further in, and
jumps. -/
def shadowingText : String :=
  "int a[3]; def int main() \x7b bool a; a = true;" ++
    " while (a) \x7b int a; a = f(a); continue; break; \x7d return 0; \x7d" ++
      " def int f(int n) \x7b return a[n]; \x7d"

theorem accepts_iff_wellFormed_shadowing :
    ∃ p, Program.parse shadowingText = .ok p ∧
      ∃ r, check ⟨true⟩ shadowingText = .ok r ∧ r.log = [] ∧ p.WellFormed ⟨true⟩ := by
  apply exists_ok_of_isSome (by decide +kernel)
  intro p hp
  obtain ⟨r, hr, hiff⟩ := accepts_iff_wellFormed hp ⟨true⟩
  have hlog : (check ⟨true⟩ shadowingText).toOption.any (·.log.isEmpty) = true := by
    decide +kernel
  have hempty : r.log = [] := by
    rw [hr] at hlog
    exact List.isEmpty_iff.mp hlog
  exact ⟨r, hr, hempty, hiff.mp hempty⟩

end DecafCheck
