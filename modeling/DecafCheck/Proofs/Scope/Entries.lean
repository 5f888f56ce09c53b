import DecafCheck.Proofs.Scope.Program

namespace DecafCheck

/-- What is declared. Variables of the program are stored globally, those of blocks in a frame. -/
inductive Item
  | variable (type : DataType) (length : Nat) (storage : Storage)
  | function
  | parameter

/-- A declaration and the scope it is in. A scope is named by the way to it: the program has `[]`,
its functions have `[0]`, `[1]` and so on, and what is inside them has longer ways. -/
structure Entry where
  scope : List Nat
  name : String
  item : Item
  span : Span

namespace Entry

def ofVariable (scope : List Nat) (storage : Storage) (v : Variable) : Entry :=
  ⟨scope, v.name, .variable v.type v.length storage, v.span⟩

def ofParameter (scope : List Nat) (q : Parameter) : Entry :=
  ⟨scope, q.name, .parameter, q.span⟩

/-- Functions are declared in the program's scope. -/
def ofFunction (g : Function) : Entry :=
  ⟨[], g.name, .function, g.span⟩

/-- What is wrong with a declaration by itself. -/
def objection? (policy : Policy) (e : Entry) : Option Problem :=
  match e.item with
  | .variable .void _ _ => some (.voidVariable e.name)
  | .variable _ 0 _ => some (.emptyArray e.name)
  | .variable _ length .frame =>
    if policy.globalArraysOnly ∧ 1 < length then some (.localArray e.name) else none
  | _ => none

def valid (policy : Policy) (e : Entry) : Bool :=
  (e.objection? policy).isNone

/-- A valid declaration of a name in a scope. -/
def declares (policy : Policy) (scope : List Nat) (name : String) (e : Entry) : Bool :=
  e.valid policy && (e.scope == scope && e.name == name)

/-- What is wrong with a declaration behind earlier ones. -/
def problem? (policy : Policy) (earlier : List Entry) (e : Entry) : Option Problem :=
  match e.objection? policy with
  | some p => some p
  | none =>
    if earlier.any (declares policy e.scope e.name) then some (.declaredTwice e.name) else none

/-- The declarations that are rejected behind earlier ones, in order, each with what is wrong with
it. -/
def rejected (policy : Policy) : List Entry → List Entry → List (Entry × Problem)
  | _, [] => []
  | earlier, e :: rest =>
    ((e.problem? policy earlier).toList.map fun p => (e, p)) ++
      rejected policy (earlier ++ [e]) rest

/-- The report on a rejected declaration. -/
def report (r : Entry × Problem) : Diagnostic :=
  r.2.on r.1.span

end Entry

mutual

/-- The declarations inside a statement. -/
def Stmt.entries (way : List Nat) : Stmt → List Entry
  | .branch _ yes none _ => Block.entries (way ++ [0]) yes
  | .branch _ yes (some no) _ => Block.entries (way ++ [0]) yes ++ Block.entries (way ++ [1]) no
  | .loop _ body _ => Block.entries (way ++ [0]) body
  | _ => []

/-- The declarations inside the statements of a block, counted from `i` on. -/
def Stmt.entriesAll (way : List Nat) (i : Nat) : List Stmt → List Entry
  | [] => []
  | s :: rest => Stmt.entries (way ++ [i]) s ++ Stmt.entriesAll way (i + 1) rest

/-- The declarations of a block, then those inside it. -/
def Block.entries (way : List Nat) : Block → List Entry
  | .mk vars statements _ => vars.map (.ofVariable way .frame) ++ Stmt.entriesAll way 0 statements

end

/-- A function itself, its parameters, and the declarations of its body. -/
def Function.entries (i : Nat) (g : Function) : List Entry :=
  .ofFunction g :: (g.parameters.map (.ofParameter [i]) ++ g.body.entries [i, 0])

/-- The variables of a program, then its functions with what is inside them. -/
def Program.entries (p : Program) : List Entry :=
  p.vars.map (.ofVariable [] .global) ++ p.functions.zipIdx.flatMap fun x => x.1.entries x.2

namespace Entry

variable {policy : Policy}

theorem objection?_ofVariable (scope : List Nat) (storage : Storage) (v : Variable) :
    (ofVariable scope storage v).objection? policy =
      policy.objection? storage v.name v.type v.length := by
  obtain ⟨name, type, length, span⟩ := v
  unfold ofVariable objection? Policy.objection?
  cases type <;> cases length <;> cases storage <;> simp

theorem rejected_append (earlier as bs : List Entry) :
    rejected policy earlier (as ++ bs) = rejected policy earlier as ++
      rejected policy (earlier ++ as) bs := by
  induction as generalizing earlier with
  | nil => simp [rejected]
  | cons a as ih => simp only [List.cons_append, rejected, ih, List.append_assoc, List.nil_append]

theorem code_of_objection? {e : Entry} {p : Problem} (h : e.objection? policy = some p) :
    p.code = .invalidDeclaration := by
  unfold objection? at h
  split at h
  · cases h
    rfl
  · cases h
    rfl
  · split at h
    · cases h
      rfl
    · cases h
  · cases h

/-- A declaration is rejected for what it is by itself or, if that is in order, as a duplicate. -/
theorem code_of_problem? {earlier : List Entry} {e : Entry} {p : Problem}
    (h : e.problem? policy earlier = some p) :
    p.code = if e.valid policy then .duplicateDeclaration else .invalidDeclaration := by
  unfold problem? at h
  cases ho : e.objection? policy with
  | some q =>
    simp only [ho] at h
    cases h
    simp [valid, ho, code_of_objection? ho]
  | none =>
    simp only [ho] at h
    split at h
    · cases h
      simp [valid, ho, Problem.code]
    · cases h

theorem code_of_mem_rejected {earlier es : List Entry} {r : Entry × Problem}
    (hr : r ∈ rejected policy earlier es) :
    r.2.code = if r.1.valid policy then .duplicateDeclaration else .invalidDeclaration := by
  induction es generalizing earlier with
  | nil => cases hr
  | cons e rest ih =>
    rcases List.mem_append.mp hr with he | hrest
    · obtain ⟨p, hp, rfl⟩ := List.mem_map.mp he
      exact code_of_problem? (Option.mem_toList.mp hp)
    · exact ih hrest

/-- A declaration of a name in a scope that was rejected as a duplicate. -/
def repeats (scope : List Nat) (name : String) (r : Entry × Problem) : Bool :=
  r.2.code == .duplicateDeclaration && (r.1.scope == scope && r.1.name == name)

/-- A declaration is rejected as a duplicate just if it is valid and not the first of its name in
its scope. -/
theorem countP_repeats_problem? (scope : List Nat) (name : String)
    (earlier : List Entry) (e : Entry) :
    ((e.problem? policy earlier).toList.map fun p => (e, p)).countP (repeats scope name) =
      if declares policy scope name e && earlier.any (declares policy scope name) then 1 else
        0 := by
  cases hm : e.scope == scope && e.name == name with
  | false => simp [List.countP_map, Function.comp_def, repeats, declares, hm]
  | true =>
    obtain ⟨rfl, rfl⟩ : e.scope = scope ∧ e.name = name := by simpa using hm
    have hdeclares : declares policy e.scope e.name e = e.valid policy := by simp [declares]
    rw [hdeclares]
    cases ho : e.objection? policy with
    | some p => simp [problem?, ho, repeats, valid, code_of_objection? ho]
    | none =>
      cases hd : earlier.any (declares policy e.scope e.name) with
      | false => simp [problem?, ho, hd]
      | true => simp [problem?, ho, hd, repeats, valid, Problem.code]

/-- All valid declarations of a name in a scope but the first are rejected as duplicates. -/
theorem countP_repeats_rejected (scope : List Nat) (name : String) (earlier es : List Entry) :
    (rejected policy earlier es).countP (repeats scope name) =
      if earlier.any (declares policy scope name) then es.countP (declares policy scope name)
      else es.countP (declares policy scope name) - 1 := by
  induction es generalizing earlier with
  | nil => simp [rejected]
  | cons e rest ih =>
    rw [rejected, List.countP_append, countP_repeats_problem?, ih, List.any_append,
      List.countP_cons]
    -- behind the first valid declaration of the name, every further one counts
    cases he : declares policy scope name e <;> cases hd :
      earlier.any (declares policy scope name) <;>
      simp [he, Nat.add_comm]

/-- The names of the symbols are those that have been declared in the scope, rightly. -/
def Knows (policy : Policy) (earlier : List Entry) (scope : List Nat) (before : List Symbol) :
    Prop :=
  ∀ name, (declared? before name).isSome = earlier.any (declares policy scope name)

theorem any_declares_eq_false {es : List Entry} {scope : List Nat} (h : ∀ d ∈ es, d.scope ≠ scope)
    (name : String) :
    es.any (declares policy scope name) = false := by
  rw [List.any_eq_false]
  intro d hd
  simp [declares, h d hd]

theorem knows_nil {earlier : List Entry} {scope : List Nat} (h : ∀ d ∈ earlier, d.scope ≠ scope) :
    Knows policy earlier scope [] :=
  fun name => (any_declares_eq_false h name).symm

namespace Knows

variable {earlier : List Entry} {scope : List Nat} {before : List Symbol}
  (h : Knows policy earlier scope before)

include h

/-- Declarations of other scopes do not count. -/
theorem append {more : List Entry} (hm : ∀ d ∈ more, d.scope ≠ scope) :
    Knows policy (earlier ++ more) scope before := by
  intro name
  rw [h name, List.any_append, any_declares_eq_false hm, Bool.or_false]

/-- A declaration that is not valid does not count. -/
theorem invalid {e : Entry} (hv : e.valid policy = false) :
    Knows policy (earlier ++ [e]) scope before := by
  intro name
  rw [h name, List.any_append]
  simp [declares, hv]

/-- A valid declaration counts from then on. -/
theorem valid {e : Entry} (hs : e.scope = scope) (hv : e.valid policy = true) {s : Symbol}
    (hn : s.name = e.name) :
    Knows policy (earlier ++ [e]) scope (before ++ [s]) := by
  intro name
  have hlast : (declared? [s] name).isSome = [e].any (declares policy scope name) := by
    by_cases he : e.name = name
    · simp [declares, declared?, hv, hs, hn, he]
    · simp [declares, declared?, hn, he]
  rw [declared?_append, Option.isSome_or, h name, List.any_append, hlast]

/-- A declaration that is right by itself is reported if its name is taken. -/
theorem report_rejected {e : Entry} (hs : e.scope = scope)
    (ho : e.objection? policy = none) {s : Symbol} (hn : s.name = e.name) (hp : s.span = e.span) :
    (rejected policy earlier [e]).map report = takenLog before s := by
  have htaken : (declared? before s.name).isSome =
      earlier.any (declares policy e.scope e.name) := by rw [hs, hn, h]
  simp only [rejected, problem?, ho, takenLog, htaken, List.append_nil]
  split
  · simp [report, hn, hp]
  · rfl

theorem report_variable (storage : Storage) (v : Variable) :
    (rejected policy earlier [ofVariable scope storage v]).map report =
      variableLog policy storage before v.name v.type v.length v.span := by
  have hv := @objection?_ofVariable policy scope storage v
  unfold variableLog
  cases ho : policy.objection? storage v.name v.type v.length with
  | some p =>
    rw [ho] at hv
    simp only [rejected, problem?, hv, Option.toList_some, List.map_cons, List.map_nil,
      List.append_nil]
    rfl
  | none => exact h.report_rejected rfl (hv.trans ho) rfl rfl

theorem after_variable (storage : Storage) (v : Variable) :
    Knows policy (earlier ++ [ofVariable scope storage v]) scope
      (before ++ (v.symbol? policy storage).toList) := by
  have hv := @objection?_ofVariable policy scope storage v
  unfold Variable.symbol? Policy.symbol?
  cases ho : policy.objection? storage v.name v.type v.length with
  | some p =>
    rw [ho] at hv
    simpa using h.invalid (by rw [Entry.valid, hv]; rfl)
  | none =>
    rw [ho] at hv
    exact h.valid rfl (by rw [Entry.valid, hv]; rfl) rfl

end Knows

/-- The variables of a scope are reported as they are rejected, and known from then on. -/
theorem report_variables {earlier : List Entry} {scope : List Nat} {before : List Symbol}
    (h : Knows policy earlier scope before) (storage : Storage) (vs : List Variable) :
    (rejected policy earlier (vs.map (ofVariable scope storage))).map report =
        Variable.scopeLogAll policy storage before vs ∧
      Knows policy (earlier ++ vs.map (ofVariable scope storage)) scope
        (before ++ vs.filterMap (Variable.symbol? policy storage)) := by
  induction vs generalizing earlier before with
  | nil => simpa [rejected, Variable.scopeLogAll] using h
  | cons v vs ih =>
    obtain ⟨hlog, hknows⟩ := ih (h.after_variable storage v)
    have hsplit : (v :: vs).map (ofVariable scope storage) =
        [ofVariable scope storage v] ++ vs.map (ofVariable scope storage) := rfl
    have hsymbols : (v :: vs).filterMap (Variable.symbol? policy storage) =
        (v.symbol? policy storage).toList ++ vs.filterMap (Variable.symbol? policy storage) := by
      rw [List.filterMap_cons]
      cases v.symbol? policy storage <;> rfl
    rw [hsplit, hsymbols, ← List.append_assoc, ← List.append_assoc]
    refine ⟨?_, hknows⟩
    rw [rejected_append, List.map_append, h.report_variable, hlog, Variable.scopeLogAll]

theorem report_parameters {earlier : List Entry} {scope : List Nat} {before : List Symbol}
    (h : Knows policy earlier scope before) (qs : List Parameter) :
    (rejected policy earlier (qs.map (ofParameter scope))).map report =
      takenLogAll before (qs.map .ofParameter) := by
  induction qs generalizing earlier before with
  | nil => rfl
  | cons q qs ih =>
    have hq := h.report_rejected (e := ofParameter scope q) (s := .ofParameter q) rfl rfl rfl rfl
    have hrest := ih (h.valid (e := ofParameter scope q) (s := .ofParameter q) rfl rfl rfl)
    have hsplit : (q :: qs).map (ofParameter scope) = [ofParameter scope q] ++
        qs.map (ofParameter scope) := rfl
    rw [hsplit, rejected_append, List.map_append, hq, hrest]
    rfl

/-- No declaration is in the scope that the way leads to, or inside it. -/
def Fresh (way : List Nat) (es : List Entry) : Prop :=
  ∀ e ∈ es, ¬ way <+: e.scope

theorem Fresh.append {way : List Nat} {es more : List Entry} (h : Fresh way es)
    (hm : Fresh way more) :
    Fresh way (es ++ more) :=
  List.forall_mem_append.mpr ⟨h, hm⟩

theorem Fresh.further {way rest : List Nat} {es : List Entry} (h : Fresh way es) :
    Fresh (way ++ rest) es :=
  fun e he hp => h e he ((List.prefix_append way rest).trans hp)

/-- Ways that part stay apart. -/
theorem fresh_of_parted {way : List Nat} {i j : Nat} (hij : i ≠ j) {es : List Entry}
    (h : ∀ e ∈ es, way ++ [i] <+: e.scope) : Fresh (way ++ [j]) es := by
  intro e he hj
  have heq := (List.prefix_of_prefix_length_le (h e he) hj (by simp)).eq_of_length (by simp)
  simp [hij] at heq

theorem fresh_of_shorter {way : List Nat} {es : List Entry}
    (h : ∀ e ∈ es, e.scope.length < way.length) :
    Fresh way es := by
  intro e he hp
  have hle := hp.length_le
  have hlt := h e he
  omega

end Entry

open Entry

theorem Stmt.prefix_of_mem_entries_and :
    (∀ (s : Stmt) (way : List Nat), ∀ e ∈ s.entries way, way <+: e.scope) ∧
    ∀ (b : Block) (way : List Nat), ∀ e ∈ b.entries way, way <+: e.scope := by
  have hinner {b : Block} (hb : ∀ (way : List Nat), ∀ e ∈ b.entries way, way <+: e.scope)
      (way : List Nat) (i : Nat) : ∀ e ∈ b.entries (way ++ [i]), way <+: e.scope :=
    fun e he => (List.prefix_append way [i]).trans (hb _ e he)
  apply Stmt.induct
  case assign =>
    intro name index target value span way e he
    cases he
  case call =>
    intro name arguments span way e he
    cases he
  case branch =>
    intro condition yes no span hyes hno way
    cases no with
    | none => exact hinner hyes way 0
    | some no => exact List.forall_mem_append.mpr ⟨hinner hyes way 0, hinner (hno no rfl) way 1⟩
  case loop =>
    intro guard body span hbody way
    exact hinner hbody way 0
  case ret =>
    intro value span way e he
    cases he
  case jump =>
    intro j span way e he
    cases he
  case mk =>
    intro vars statements span ih way
    have hall (i : Nat) : ∀ e ∈ Stmt.entriesAll way i statements, way <+: e.scope := by
      induction statements generalizing i with
      | nil =>
        intro e he
        cases he
      | cons s rest ihs =>
        refine List.forall_mem_append.mpr ⟨fun e he => ?_,
          ihs (fun r hr => ih r (List.mem_cons_of_mem s hr)) (i + 1)⟩
        exact (List.prefix_append way [i]).trans (ih s List.mem_cons_self _ e he)
    refine List.forall_mem_append.mpr ⟨fun e he => ?_, hall 0⟩
    obtain ⟨v, -, rfl⟩ := List.mem_map.mp he
    exact List.prefix_refl way

/-- Inside a statement or a block, what is rejected is what is reported. -/
theorem Stmt.report_entries_and (policy : Policy) :
    (∀ (s : Stmt) (way : List Nat) (earlier : List Entry), Fresh way earlier →
      (rejected policy earlier (s.entries way)).map report = s.scopeLog policy) ∧
    ∀ (b : Block) (way : List Nat) (earlier : List Entry), Fresh way earlier →
      (rejected policy earlier (b.entries way)).map report = b.scopeLog policy := by
  apply Stmt.induct
  case assign =>
    intros
    rfl
  case call =>
    intros
    rfl
  case branch =>
    intro condition yes no span hyes hno way earlier h
    cases no with
    | none => exact hyes _ _ h.further
    | some no =>
      -- what the first block declares is out of the scope of the second
      have hapart : Fresh (way ++ [1]) (yes.entries (way ++ [0])) :=
        fresh_of_parted Nat.zero_ne_one (prefix_of_mem_entries_and.2 yes _)
      rw [entries, scopeLog, rejected_append, List.map_append, hyes _ _ h.further,
        hno no rfl _ _ (h.further.append hapart)]
  case loop =>
    intro guard body span hbody way earlier h
    exact hbody _ _ h.further
  case ret =>
    intros
    rfl
  case jump =>
    intros
    rfl
  case mk =>
    intro vars statements span ih way earlier h
    -- the statements from the `i`-th on, behind everything before them
    have hall (i : Nat) (earlier : List Entry) (hi : ∀ j ≥ i, Fresh (way ++ [j]) earlier) :
        (rejected policy earlier (Stmt.entriesAll way i statements)).map report =
        Stmt.scopeLogAll policy statements := by
      induction statements generalizing i earlier with
      | nil => rfl
      | cons s rest ihs =>
        have hrest : ∀ j ≥ i + 1, Fresh (way ++ [j]) (earlier ++ s.entries (way ++ [i])) := by
          intro j hj
          exact (hi j (by omega)).append
            (fresh_of_parted (by omega) (prefix_of_mem_entries_and.1 s _))
        rw [entriesAll, scopeLogAll, rejected_append, List.map_append,
          ih s List.mem_cons_self _ _ (hi i (Nat.le_refl i)),
          ihs (fun r hr => ih r (List.mem_cons_of_mem s hr)) _ _ hrest]
    have hknows : Knows policy earlier way [] :=
      knows_nil fun d hd he => h d hd (he ▸ List.prefix_refl way)
    have hvars : ∀ j, Fresh (way ++ [j]) (vars.map (.ofVariable way .frame)) := by
      refine fun j => fresh_of_shorter fun e he => ?_
      obtain ⟨v, -, rfl⟩ := List.mem_map.mp he
      simp [ofVariable]
    rw [Block.entries, Block.scopeLog, rejected_append, List.map_append,
      (report_variables hknows .frame vars).1, hall 0 _ fun j _ => h.further.append (hvars j)]

theorem Function.prefix_of_mem_entries {g : Function} {i : Nat} {e : Entry} (he : e ∈ g.entries i) :
    e.scope = [] ∨ [i] <+: e.scope := by
  rcases List.mem_cons.mp he with rfl | he
  · exact .inl rfl
  · rcases List.mem_append.mp he with hq | hb
    · obtain ⟨q, -, rfl⟩ := List.mem_map.mp hq
      exact .inr (List.prefix_refl [i])
    · exact .inr ((List.prefix_append [i] [0]).trans
        (Stmt.prefix_of_mem_entries_and.2 g.body _ e hb))

theorem Function.report_entries (policy : Policy) {earlier : List Entry} {before : List Symbol}
    (h : Knows policy earlier [] before) {i : Nat} (hi : Fresh [i] earlier) (g : Function) :
    (rejected policy earlier (g.entries i)).map report = takenLog before g.symbol ++
      g.scopeLog policy ∧ Knows policy (earlier ++ g.entries i) [] (before ++ [g.symbol]) := by
  have hown := h.report_rejected (e := .ofFunction g) (s := g.symbol) rfl rfl rfl rfl
  have hfresh : Fresh [i] (earlier ++ [.ofFunction g]) :=
    hi.append (fresh_of_shorter (List.forall_mem_singleton.mpr Nat.zero_lt_one))
  have hknows : Knows policy (earlier ++ [.ofFunction g]) [i] [] :=
    knows_nil fun d hd he => hfresh d hd (he ▸ List.prefix_refl [i])
  have hbody : Fresh [i, 0] (earlier ++ [.ofFunction g] ++
      g.parameters.map (.ofParameter [i])) := by
    have hinside : Fresh [i, 0] (earlier ++ [.ofFunction g]) := hfresh.further
    refine hinside.append (fresh_of_shorter fun e he => ?_)
    obtain ⟨q, -, rfl⟩ := List.mem_map.mp he
    exact Nat.one_lt_two
  have hsplit : g.entries i = [.ofFunction g] ++
      (g.parameters.map (.ofParameter [i]) ++ g.body.entries [i, 0]) := rfl
  rw [hsplit]
  constructor
  · rw [rejected_append, rejected_append, List.map_append, List.map_append, hown,
      report_parameters hknows, (Stmt.report_entries_and policy).2 g.body _ _ hbody]
    rfl
  · rw [← List.append_assoc]
    -- parameters and body are in scopes of their own, so the program's scope gains the name of the
    -- function only
    refine (h.valid (e := .ofFunction g) rfl rfl rfl).append fun e he => ?_
    rcases List.mem_append.mp he with hq | hb
    · obtain ⟨q, -, rfl⟩ := List.mem_map.mp hq
      exact List.cons_ne_nil i []
    · intro hn
      have hp := Stmt.prefix_of_mem_entries_and.2 g.body _ e hb
      simp [hn] at hp

theorem Function.report_entriesAll (policy : Policy) {earlier : List Entry} {before : List Symbol}
    (h : Knows policy earlier [] before) {i : Nat} (hi : ∀ j ≥ i, Fresh [j] earlier)
    (gs : List Function) :
    (rejected policy earlier ((gs.zipIdx i).flatMap fun x => x.1.entries x.2)).map report =
      scopeLogAll policy before gs := by
  induction gs generalizing earlier before i with
  | nil => rfl
  | cons g gs ih =>
    obtain ⟨hlog, hknows⟩ := report_entries policy h (hi i (Nat.le_refl i)) g
    have hrest : ∀ j ≥ i + 1, Fresh [j] (earlier ++ g.entries i) := by
      intro j hj
      refine (hi j (by omega)).append fun e he hp => ?_
      rcases prefix_of_mem_entries he with hn | hp'
      · simp [hn] at hp
      · have hij : i ≠ j := by omega
        exact @fresh_of_parted [] i j hij [e] (List.forall_mem_singleton.mpr hp') e
          (List.mem_singleton_self e) hp
    rw [List.zipIdx_cons, List.flatMap_cons, rejected_append, List.map_append, hlog,
      ih hknows hrest, scopeLogAll, List.append_assoc]

/-- What is rejected in a program is what is reported. -/
theorem Program.report_entries (policy : Policy) (p : Program) :
    (rejected policy [] p.entries).map report = p.scopeLog policy := by
  have hnone : Knows policy [] [] [] := fun _ => rfl
  obtain ⟨hlog, hknows⟩ := report_variables hnone .global p.vars
  have hvars : ∀ j ≥ 0, Fresh [j] (p.vars.map (.ofVariable [] .global)) := by
    refine fun j _ => fresh_of_shorter fun e he => ?_
    obtain ⟨v, -, rfl⟩ := List.mem_map.mp he
    exact Nat.zero_lt_one
  rw [entries, rejected_append, List.map_append, hlog,
    Function.report_entriesAll policy hknows hvars]
  rfl

end DecafCheck
