import DecafCheck.Proofs.Analysis.Matching

namespace DecafCheck

namespace Forest

/-- A direct statement of the body of a loop. -/
def InLoop (f : Forest) (id : NodeId) : Prop :=
  ∃ loop guard body vars statements, f.kindOf? loop = some (.whileLoop guard body) ∧
    f.kindOf? body = some (.block vars statements) ∧ id ∈ statements

def StrayJump (f : Forest) (id : NodeId) : Prop :=
  (∃ j, f.kindOf? id = some (.jump j)) ∧ ¬ f.InLoop id

def isReturn (f : Forest) (id : NodeId) : Bool :=
  match f.kindOf? id with
  | some (.ret _) => true
  | _ => false

/-- A return with a value. -/
def isValued (f : Forest) (id : NodeId) : Bool :=
  match f.kindOf? id with
  | some (.ret (some _)) => true
  | _ => false

/-- The returns among the direct statements of a function's body. A node that is no function has
none. -/
def directReturns (f : Forest) (id : NodeId) : List NodeId :=
  match f.kindOf? id with
  | some (.function _ _ _ body) =>
    match f.kindOf? body with
    | some (.block _ statements) => statements.filter f.isReturn
    | _ => []
  | _ => []

/-- Whether a node is a function without a result. -/
def returnsVoid (f : Forest) (id : NodeId) : Bool :=
  match f.kindOf? id with
  | some (.function _ .void _ _) => true
  | _ => false

/-- The functions of a program. A node that is no program has none. -/
def functionsOf (f : Forest) (id : NodeId) : List NodeId :=
  match f.kindOf? id with
  | some (.program _ functions) => functions
  | _ => []

/-- A function named `main`. -/
def IsMain (f : Forest) (returns : DataType) (parameters : List Parameter) (id : NodeId) : Prop :=
  ∃ body, f.kindOf? id = some (.function "main" returns parameters body)

/-- Whether a node is a function named `main` with something wrong about it. -/
def isWrongMain (wrong : DataType → List Parameter → Bool) (f : Forest) (id : NodeId) : Bool :=
  match f.kindOf? id with
  | some (.function name returns parameters _) => name == "main" && wrong returns parameters
  | _ => false

end Forest

/-- The reports about the structure of the program in `f`, with all of them accounted for. -/
structure StructureReported (f : Forest) (log : Log) : Prop where
  jumps : f.Matches (log.filter fun d => d.code == .invalidJump) f.StrayJump
  returns : f.Matches (log.filter fun d => d.code == .multipleReturns) fun id =>
      ∃ g, id ∈ (f.directReturns g).tail
  returns_count : log.count .multipleReturns =
    ((List.range f.size).map fun g => (f.directReturns g).length - 1).foldr (· + ·) 0
  values : f.Matches (log.filter fun d => d.code == .invalidReturn) fun id =>
    ∃ g name parameters body value, f.kindOf? g = some (.function name .void parameters body) ∧
      id ∈ f.directReturns g ∧ f.kindOf? id = some (.ret (some value))
  main : ∀ id returns parameters, f.IsMain returns parameters id → log.count .missingMain = 0
  noMain : (∀ id returns parameters, ¬ f.IsMain returns parameters id) → log.count .missingMain = 1
  mainReturns : f.Matches
    (log.filter fun d => d.code == .malformedMain && d.message != Problem.mainParameters.message)
    fun id =>
      ∃ returns parameters, f.IsMain returns parameters id ∧ returns ≠ .int
  mainParameters : f.Matches
    (log.filter fun d => d.code == .malformedMain && d.message == Problem.mainParameters.message)
    fun id =>
      ∃ returns parameters, f.IsMain returns parameters id ∧ parameters ≠ []

namespace Kind

variable {k : Kind} {q : Problem}

theorem eq_jump_of_finds (hf : k.finds q = true) (hq : q.code = .invalidJump) :
    ∃ j, k = .jump j := by
  cases q
  case jumpOutsideLoop =>
    cases k
    case jump j => exact ⟨j, rfl⟩
    all_goals cases hf
  all_goals cases hq

theorem eq_function_of_finds (hf : k.finds q = true)
    (hq : q.code = .multipleReturns ∨ q.code = .invalidReturn) :
    ∃ name returns parameters body, k = .function name returns parameters body := by
  cases q
  case multipleReturns =>
    cases k
    case function => exact ⟨_, _, _, _, rfl⟩
    all_goals cases hf
  case voidReturn =>
    cases k
    case function => exact ⟨_, _, _, _, rfl⟩
    all_goals cases hf
  all_goals rcases hq with hq | hq <;> cases hq

end Kind

namespace Function

variable {name : String} {returns : DataType}

/-- All returns but the first are reported. -/
theorem filter_multipleReturns (returned : List (Option InferredType × Span)) :
    ((returnsLog name returns returned).filter fun d => d.code == .multipleReturns).map
      Diagnostic.span = returned.tail.map Prod.snd := by
  have hreturn (r : Option InferredType × Span) :
      (returnLog name returns r.1 r.2).filter (fun d => d.code == .multipleReturns) = [] :=
    (returnLog_findings (Q := fun p _ => p.code ≠ .multipleReturns) nofun fun _ =>
      nofun).filter_eq_nil fun p _ => beq_false_of_ne
  cases returned with
  | nil => rfl
  | cons r rest =>
    rw [returnsLog, List.filter_append, hreturn r, List.nil_append, List.tail_cons]
    induction rest with
    | nil => rfl
    | cons s rest ih =>
      rw [List.flatMap_cons, List.cons_append, List.filter_cons_of_pos rfl,
        List.filter_append, hreturn s, List.nil_append, List.map_cons, List.map_cons, ih]
      rfl

/-- The values that a function without a result returns are reported. -/
theorem filter_invalidReturn (returned : List (Option InferredType × Span)) :
    ((returnsLog name returns returned).filter fun d => d.code == .invalidReturn).map
      Diagnostic.span = (returned.filter fun r => returns == .void && r.1.isSome).map Prod.snd := by
  have htype (expected : DataType) (found : InferredType) (span : Span) :
      (Verdict.require (found.is expected) (.returnType name expected found) span).filter
        (fun d => d.code == .invalidReturn) = [] := by
    have hne : (Problem.returnType name expected found).code ≠ .invalidReturn := nofun
    exact (findings_require (Q := fun p _ => p.code ≠ .invalidReturn) hne).filter_eq_nil fun p _ =>
      beq_false_of_ne
  have hreturn (r : Option InferredType × Span) :
      ((returnLog name returns r.1 r.2).filter fun d => d.code == .invalidReturn).map
      Diagnostic.span =
        ([r].filter fun r => returns == .void && r.1.isSome).map Prod.snd := by
    obtain ⟨_ | value, span⟩ := r
    · cases returns <;> rfl
    · cases returns with
      | void => rfl
      | int => exact congrArg (List.map Diagnostic.span) (htype .int value span)
      | bool => exact congrArg (List.map Diagnostic.span) (htype .bool value span)
  have hsplit (r : Option InferredType × Span) (rest : List (Option InferredType × Span)) :
      ((r :: rest).filter fun r => returns == .void && r.1.isSome).map Prod.snd =
        ([r].filter fun r => returns == .void && r.1.isSome).map Prod.snd ++
          (rest.filter fun r => returns == .void && r.1.isSome).map Prod.snd := by
    rw [← List.map_append, ← List.filter_append, List.singleton_append]
  have hlater (rest : List (Option InferredType × Span)) :
      ((rest.flatMap fun q => (Problem.multipleReturns name).on q.2 ::
        returnLog name returns q.1 q.2).filter
        fun d => d.code == .invalidReturn).map Diagnostic.span =
          (rest.filter fun r => returns == .void && r.1.isSome).map Prod.snd := by
    induction rest with
    | nil => rfl
    | cons r rest ih =>
      rw [List.flatMap_cons, List.cons_append,
        List.filter_cons_of_neg (by exact Bool.false_ne_true), List.filter_append, List.map_append,
        ih, hreturn r, hsplit r rest]
  cases returned with
  | nil => rfl
  | cons r rest =>
    rw [returnsLog, List.filter_append, List.map_append, hreturn r, hlater rest, hsplit r rest]

end Function

theorem Tree.exists_of_inBody {above : List Tree} (h : inBody above = true) :
    ∃ y z rest vars statements guard body, above = y :: z :: rest ∧
      y.kind = .block vars statements ∧
      z.kind = .whileLoop guard body := by
  cases above with
  | nil => cases h
  | cons y above =>
    cases hy : y.kind <;> simp only [inBody, hy, Bool.false_eq_true] at h
    cases above with
    | nil => cases h
    | cons z rest =>
      cases hz : z.kind <;> simp only [inLoop, hz, Bool.false_eq_true] at h
      exact ⟨y, z, rest, _, _, _, _, rfl, hy, hz⟩

namespace Forest

section Carries

variable {f : Forest} {t : Tree} (h : f.Carries t) (hfit : ∀ x ∈ t.subtrees, x.Fitting)

include h

theorem Carries.kind_of_lists {x c : Tree} {parent : NodeId} {kind : Kind} {above : List Tree}
    (hp : t.Path (x :: above) c) (hk : f.kindOf? parent = some kind) (hc : c.id ∈ kind.children) :
    parent = x.id ∧ kind = x.kind := by
  cases hp with
  | child hx hcx =>
    obtain rfl : parent = x.id := lists_unique h ⟨kind, hk, hc⟩ (lists_of_child h hx.mem hcx)
    exact ⟨rfl, Option.some.inj (hk.symm.trans (h.kind x hx.mem))⟩

include hfit in
/-- Where a jump is, seen from the nodes around it. -/
theorem Carries.inBody_iff {above : List Tree} {x : Tree} (hp : t.Path above x) {j : Jump}
    (hk : x.kind = .jump j) :
    Tree.inBody above = true ↔ f.InLoop x.id := by
  constructor
  · intro hbody
    obtain ⟨y, z, rest, vars, statements, guard, body, rfl, hyk, hzk⟩ := Tree.exists_of_inBody hbody
    obtain ⟨role, hrole, hfits⟩ := h.exists_role hfit hp
    cases hp with
    | child hy hx =>
      obtain ⟨role', hrole', hfits'⟩ := h.exists_role hfit hy
      have hz : z ∈ t.subtrees := by
        cases hy with
        | child hz hy => exact hz.mem
      rw [hk] at hfits
      rw [hyk] at hrole hfits'
      rw [hzk] at hrole'
      -- A jump is listed as a statement, and a block is what a loop repeats.
      cases role <;> cases hfits
      cases role' <;> cases hfits'
      refine ⟨z.id, guard, y.id, vars, statements, ?_, hyk ▸ h.kind y hy.mem,
        by simpa [Kind.roles] using hrole⟩
      obtain rfl : y.id = body := by simpa [Kind.roles] using hrole'
      exact hzk ▸ h.kind z hz
  · rintro ⟨loop, guard, body, vars, statements, hloop, hbody, hmem⟩
    cases hp with
    | root => exact absurd ⟨_, hbody, List.mem_append_right _ hmem⟩ (root_not_listed h h.root)
    | @child above y _ hy hx =>
      obtain ⟨rfl, hyk⟩ := h.kind_of_lists (hy.child hx) hbody (List.mem_append_right _ hmem)
      have hguard : y.id ∈ (Kind.whileLoop guard y.id).children :=
        List.mem_cons_of_mem _ (List.mem_singleton_self _)
      cases hy with
      | root => exact absurd ⟨_, hloop, hguard⟩ (root_not_listed h h.root)
      | @child above z _ hz hy =>
        obtain ⟨-, hzk⟩ := h.kind_of_lists (hz.child hy) hloop hguard
        simp only [Tree.inBody, Tree.inLoop, ← hyk, ← hzk]

end Carries

section Parted

variable {f : Forest} {t : Tree} (h : f.Carries t)

include h

omit h in
theorem lists_of_mem_directReturns {a c : NodeId} (hc : c ∈ f.directReturns a) :
    ∃ body, f.Lists a body ∧ ∃ vars statements, f.kindOf? body = some (.block vars statements) ∧
      c ∈ statements := by
  unfold directReturns at hc
  split at hc
  · next hk =>
    split at hc
    · next hb =>
      exact ⟨_, ⟨_, hk, List.mem_singleton_self _⟩, _, _, hb, List.mem_of_mem_filter hc⟩
    · cases hc
  · cases hc

theorem Carries.parted_directReturns : f.Parted f.directReturns where
  nodup id := by
    unfold directReturns
    split
    · split
      · next hb => exact (List.nodup_append.mp (h.nodup_children hb)).2.1.filter _
      · exact List.nodup_nil
    · exact List.nodup_nil
  unique ha hb := by
    obtain ⟨body, hla, _, _, hk, hc⟩ := lists_of_mem_directReturns ha
    obtain ⟨body', hlb, _, _, hk', hc'⟩ := lists_of_mem_directReturns hb
    obtain rfl := lists_unique h ⟨_, hk, List.mem_append_right _ hc⟩
      ⟨_, hk', List.mem_append_right _ hc'⟩
    exact lists_unique h hla hlb
  node ha := by
    obtain ⟨body, hla, _, _, hk, hc⟩ := lists_of_mem_directReturns ha
    exact ⟨(h.node_of_lists hla).1, (h.node_of_lists ⟨_, hk, List.mem_append_right _ hc⟩).2⟩

omit h in
theorem lists_of_mem_functionsOf {a c : NodeId} (hc : c ∈ f.functionsOf a) : f.Lists a c := by
  unfold functionsOf at hc
  split at hc
  · next hk => exact ⟨_, hk, List.mem_append_right _ hc⟩
  · cases hc

theorem Carries.parted_functionsOf : f.Parted f.functionsOf where
  nodup id := by
    unfold functionsOf
    split
    · next hk => exact (List.nodup_append.mp (h.nodup_children hk)).2.1
    · exact List.nodup_nil
  unique ha hb := lists_unique h (lists_of_mem_functionsOf ha) (lists_of_mem_functionsOf hb)
  node ha := h.node_of_lists (lists_of_mem_functionsOf ha)

end Parted

/-- What is read of a statement that is a return, and of one that is not. -/
theorem return?_cases (f : Forest) (id : NodeId) :
    f.return? id = none ∧ f.isReturn id = false ∨
      ∃ value, f.return? id = some (value, f.spanOf id) ∧ f.isReturn id = true ∧
        f.isValued id = value.isSome := by
  cases hn : f.node? id with
  | none => exact .inl (by simp [return?, isReturn, kindOf?, hn])
  | some n =>
    obtain ⟨kind, span, parent, table⟩ := n
    cases kind
    case ret value =>
      refine .inr ⟨value, by simp [return?, spanOf, hn], by simp [isReturn, kindOf?, hn], ?_⟩
      cases value <;> simp [isValued, kindOf?, hn]
    all_goals exact .inl (by simp [return?, isReturn, kindOf?, hn])

theorem map_filter_isReturn (f : Forest) (types : Types) (statements : List NodeId) :
    (statements.filter f.isReturn).map (fun id => (f.isValued id, f.spanOf id)) =
      ((statements.filterMap f.return?).map fun r => (r.1.map types.get, r.2)).map fun r =>
        (r.1.isSome, r.2) := by
  induction statements with
  | nil => rfl
  | cons id ids ih =>
    rcases f.return?_cases id with ⟨hnone, hreturn⟩ | ⟨value, hsome, hreturn, hvalued⟩
    · rw [List.filter_cons_of_neg (by rw [hreturn]; exact Bool.false_ne_true),
        List.filterMap_cons_none hnone, ih]
    · rw [List.filter_cons_of_pos hreturn, List.filterMap_cons_some hsome, List.map_cons,
        List.map_cons, List.map_cons, ih, hvalued, Option.isSome_map]

/-- What the checks of a function see of its returns. -/
theorem Carries.map_directReturns {f : Forest} {t : Tree} (h : f.Carries t)
    (hfit : ∀ x ∈ t.subtrees, x.Fitting) {x : Tree} (hx : x ∈ t.subtrees) {name : String}
    {returns : DataType} {parameters : List Parameter} {body : NodeId}
    (hk : x.kind = .function name returns parameters body) (types : Types) :
    (f.directReturns x.id).map (fun id => (f.isValued id, f.spanOf id)) =
      (x.returned types).map fun r => (r.1.isSome, r.2) := by
  obtain ⟨vars, statements, hbody, hreturned⟩ := h.returned_eq hfit hx hk types
  have hdirect : f.directReturns x.id = statements.filter f.isReturn := by
    simp only [directReturns, h.kind x hx, hk, hbody]
  rw [hdirect, ← hreturned]
  exact f.map_filter_isReturn types statements

section Reports

variable {policy : Policy} {p : Program} {f g : Forest} {types : Types} {length : Nat}
  {ls : List Lexeme}
  (c : g.Checked policy p.tree types) (h : f.Carries p.tree) (placed : p.Placed length ls)

include c

theorem Checked.filter_function {x : Tree} (hx : x ∈ p.tree.subtrees) {name : String}
    {returns : DataType} {parameters : List Parameter} {body : NodeId}
    (hk : x.kind = .function name returns parameters body) {select : Diagnostic → Bool}
    (hs : ∀ span, select ((Problem.functionConflict name).on span) = false) :
    (g.judge types x).log.filter select =
      (Function.returnsLog name returns (x.returned types)).filter select := by
  have hne : x ≠ p.tree := by
    rintro rfl
    cases hk
  obtain ⟨above, -, hjudge⟩ := c.judge_eq_verdict hx hne
  have hconflict (b : Bool) :
      (Verdict.require b (.functionConflict name) x.span).filter select = [] :=
    (findings_require (Q := fun q _ => q = .functionConflict name) rfl).filter_eq_nil
      fun q span hq => hq ▸ hs span
  rw [hjudge, hk, Kind.verdict, List.filter_append, hconflict, List.nil_append]

include h placed in
theorem Checked.jumps_reported :
    f.Matches ((p.log policy).filter fun d => d.code == .invalidJump) f.StrayJump := by
  classical
  have hmem {a id : NodeId} : id ∈ (if f.StrayJump a then [a] else []) ↔
      id = a ∧ f.StrayJump a := by
    split <;> simp [*]
  have hpart : f.Parted fun id => if f.StrayJump id then [id] else [] := by
    constructor
    case nodup =>
      intro id
      split
      · exact List.nodup_singleton id
      · exact List.nodup_nil
    case unique =>
      intro a b id ha hb
      exact (hmem.mp ha).1.symm.trans (hmem.mp hb).1
    case node =>
      intro a id ha
      obtain ⟨rfl, ⟨j, hj⟩, -⟩ := hmem.mp ha
      obtain ⟨hlt, hroot⟩ := h.kindOf?_ne_root hj nofun
      exact ⟨hlt, hlt, hroot⟩
  refine c.matches_of_parted h placed .invalidJump (fun _ => beq_iff_eq.mp)
    ⟨nofun, nofun⟩ hpart ?_ fun id => ?_
  · intro x hx
    by_cases hj : ∃ j, x.kind = .jump j
    · obtain ⟨j, hj⟩ := hj
      have hne : x ≠ p.tree := by
        rintro rfl
        cases hj
      obtain ⟨above, hp, hjudge⟩ := c.judge_eq_verdict hx hne
      have hstray : f.StrayJump x.id ↔ Tree.inBody above = false := by
        rw [StrayJump, ← h.inBody_iff (fun x => Program.fitting_of_mem) hp hj, Bool.not_eq_true]
        exact and_iff_right ⟨j, hj ▸ h.kind x hx⟩
      rw [hjudge, hj, Kind.verdict]
      cases hb : Tree.inBody above with
      | false =>
        rw [if_pos (hstray.mpr hb), List.map_singleton, h.span x hx]
        rfl
      | true =>
        rw [if_neg fun hs => Bool.false_ne_true ((hstray.mp hs).symm.trans hb)]
        rfl
    · have hnone : (g.judge types x).log.filter (fun d => d.code == .invalidJump) = [] :=
        (c.judge_findings hx).filter_eq_nil fun q span hq =>
          beq_false_of_ne fun hcode => hj (Kind.eq_jump_of_finds hq hcode)
      have hstray : ¬ f.StrayJump x.id := by
        rintro ⟨⟨j, hk⟩, -⟩
        exact hj ⟨j, Option.some.inj ((h.kind x hx).symm.trans hk)⟩
      rw [hnone, if_neg hstray]
      rfl
  · constructor
    · rintro ⟨a, ha⟩
      obtain ⟨rfl, ha⟩ := hmem.mp ha
      exact ha
    · exact fun hid => ⟨id, hmem.mpr ⟨rfl, hid⟩⟩

omit c in
include h in
theorem Carries.directReturns_eq_nil {x : Tree} (hx : x ∈ p.tree.subtrees)
    (hk : ¬ ∃ name returns parameters body, x.kind = .function name returns parameters body) :
    f.directReturns x.id = [] := by
  unfold directReturns
  split
  · next hkind => exact absurd ⟨_, _, _, _, Option.some.inj ((h.kind x hx).symm.trans hkind)⟩ hk
  · rfl

/-- The reports that only functions cause, found by looking at functions. -/
theorem Checked.map_span_filter_returns (part : NodeId → List NodeId) {code : Code}
    (hcode : code = .multipleReturns ∨ code = .invalidReturn) (hnone : ∀ x ∈ p.tree.subtrees,
      (¬ ∃ name returns parameters body, x.kind = .function name returns parameters body) →
      part x.id = [])
    (hreturns : ∀ x ∈ p.tree.subtrees, ∀ name returns parameters body,
      x.kind = .function name returns parameters body →
      ((Function.returnsLog name returns (x.returned types)).filter fun d => d.code == code).map
      Diagnostic.span =
        (part x.id).map f.spanOf) :
    ∀ x ∈ p.tree.subtrees,
      ((g.judge types x).log.filter fun d => d.code == code).map Diagnostic.span =
        (part x.id).map f.spanOf := by
  intro x hx
  by_cases hk : ∃ name returns parameters body, x.kind = .function name returns parameters body
  · obtain ⟨name, returns, parameters, body, hk⟩ := hk
    have hconflict (span : Span) :
        (((Problem.functionConflict name).on span).code == code) = false := by
      rcases hcode with rfl | rfl <;> rfl
    rw [c.filter_function hx hk hconflict, hreturns x hx name returns parameters body hk]
  · have hempty : (g.judge types x).log.filter (fun d => d.code == code) = [] :=
      (c.judge_findings hx).filter_eq_nil fun q span hq => beq_false_of_ne fun hq' => by
        have hq' : q.code = code := hq'
        exact hk (Kind.eq_function_of_finds hq (hq' ▸ hcode))
    rw [hempty, hnone x hx hk]
    rfl

include h in
theorem Checked.map_span_multipleReturns : ∀ x ∈ p.tree.subtrees,
    ((g.judge types x).log.filter fun d => d.code == .multipleReturns).map Diagnostic.span =
      (f.directReturns x.id).tail.map f.spanOf := by
  refine c.map_span_filter_returns (fun id => (f.directReturns id).tail) (.inl rfl)
    (fun x hx hk => ?_) fun x hx name returns parameters body hk => ?_
  · simp only [h.directReturns_eq_nil hx hk, List.tail_nil]
  · have hmap := congrArg (fun l => l.tail.map Prod.snd)
      (h.map_directReturns (fun x => Program.fitting_of_mem) hx hk types)
    simp only [← List.map_tail, List.map_map] at hmap
    rw [Function.filter_multipleReturns]
    exact hmap.symm

include h placed in
theorem Checked.returns_reported :
    f.Matches ((p.log policy).filter fun d => d.code == .multipleReturns)
    fun id => ∃ a, id ∈ (f.directReturns a).tail :=
  c.matches_of_parted h placed .multipleReturns (fun _ => beq_iff_eq.mp) ⟨nofun, nofun⟩
    (h.parted_directReturns.sublist fun _ => List.tail_sublist _) (c.map_span_multipleReturns h)
    fun _ => Iff.rfl

include h in
theorem Checked.count_returns : Log.count (p.log policy) .multipleReturns =
    ((List.range f.size).map fun a => (f.directReturns a).length - 1).foldr (· + ·) 0 := by
  have hspans : ((p.log policy).filter fun d => d.code == .multipleReturns).map Diagnostic.span =
      (p.tree.ids.flatMap fun a => (f.directReturns a).tail).map f.spanOf :=
    c.map_span_filter_log .multipleReturns (fun _ => beq_iff_eq.mp) ⟨nofun, nofun⟩
      (c.map_span_multipleReturns h)
  have hlength := congrArg List.length hspans
  rw [List.length_map, List.length_map, List.length_flatMap] at hlength
  rw [Log.count, List.countP_eq_length_filter, hlength]
  simp only [List.length_tail]
  exact (h.ids_perm.map _).sum_nat

omit c in
theorem returnsVoid_iff {id : NodeId} :
    f.returnsVoid id = true ↔
      ∃ name parameters body, f.kindOf? id = some (.function name .void parameters body) := by
  unfold returnsVoid
  split
  · next hk => exact ⟨fun _ => ⟨_, _, _, hk⟩, fun _ => rfl⟩
  · next hk =>
    refine ⟨nofun, ?_⟩
    rintro ⟨name, parameters, body, hk'⟩
    exact absurd hk' (hk name parameters body)

omit c in
theorem isValued_iff {id : NodeId} :
    f.isValued id = true ↔ ∃ value, f.kindOf? id = some (.ret (some value)) := by
  unfold isValued
  split
  · next hk => exact ⟨fun _ => ⟨_, hk⟩, fun _ => rfl⟩
  · next hk =>
    refine ⟨nofun, ?_⟩
    rintro ⟨value, hk'⟩
    exact absurd hk' (hk value)

include h placed in
theorem Checked.values_reported :
    f.Matches ((p.log policy).filter fun d => d.code == .invalidReturn)
    fun id =>
      ∃ a name parameters body value, f.kindOf? a = some (.function name .void parameters body) ∧
      id ∈ f.directReturns a ∧ f.kindOf? id = some (.ret (some value)) := by
  refine c.matches_of_parted h placed .invalidReturn (fun _ => beq_iff_eq.mp) ⟨nofun, nofun⟩
    (h.parted_directReturns.sublist fun a => List.filter_sublist
      (p := fun id => f.returnsVoid a && f.isValued id))
    (c.map_span_filter_returns
      (fun a => (f.directReturns a).filter fun id => f.returnsVoid a && f.isValued id)
      (.inr rfl) (fun x hx hk => ?_) fun x hx name returns parameters body hk => ?_) fun id => ?_
  · simp only [h.directReturns_eq_nil hx hk, List.filter_nil]
  · have hvoid : f.returnsVoid x.id = (returns == .void) := by
      simp only [returnsVoid, h.kind x hx, hk]
      cases returns <;> rfl
    have hmap := congrArg (fun l => (l.filter fun r => returns == .void && r.1).map Prod.snd)
      (h.map_directReturns (fun x => Program.fitting_of_mem) hx hk types)
    simp only [List.filter_map, List.map_map] at hmap
    rw [Function.filter_invalidReturn, hvoid]
    exact hmap.symm
  · simp only [List.mem_filter, Bool.and_eq_true, returnsVoid_iff, isValued_iff]
    constructor
    · rintro ⟨a, hid, ⟨name, parameters, body, hk⟩, value, hv⟩
      exact ⟨a, name, parameters, body, value, hk, hid, hv⟩
    · rintro ⟨a, name, parameters, body, value, hk, hid, hv⟩
      exact ⟨a, hid, ⟨name, parameters, body, hk⟩, value, hv⟩

omit c in
include h in
/-- Every function is one of the program's. -/
theorem Carries.mem_functionsOf {id : NodeId} {name : String} {returns : DataType}
    {parameters : List Parameter} {body : NodeId}
    (hk : f.kindOf? id = some (.function name returns parameters body)) :
    id ∈ f.functionsOf p.tree.id := by
  obtain ⟨x, hx, rfl, hxk⟩ := h.of_kindOf? hk
  obtain ⟨above, hp⟩ := Tree.exists_path hx
  cases above with
  | nil =>
    cases hp
    cases hxk
  | cons y above =>
    obtain ⟨role, hrole, hfits⟩ := h.exists_role (fun x => Program.fitting_of_mem) hp
    rw [hxk] at hfits
    cases role <;> cases hfits
    have hy : y ∈ p.tree.subtrees := by
      cases hp with
      | child hy hc => exact hy.mem
    cases hyk : y.kind <;> simp [hyk, Kind.roles] at hrole
    case program vars functions =>
      have hyp : y = p.tree := by
        by_contra hne
        exact Program.kind_ne_program hy hne vars functions hyk
      subst hyp
      simpa only [functionsOf, h.kind p.tree hy, hyk] using hrole

omit c in
theorem isWrongMain_iff {wrong : DataType → List Parameter → Bool} {id : NodeId} :
    f.isWrongMain wrong id = true ↔
    ∃ returns parameters, f.IsMain returns parameters id ∧ wrong returns parameters = true := by
  unfold isWrongMain
  split
  · next name returns parameters body hk =>
    rw [Bool.and_eq_true, beq_iff_eq]
    constructor
    · rintro ⟨rfl, hwrong⟩
      exact ⟨returns, parameters, ⟨body, hk⟩, hwrong⟩
    · rintro ⟨returns', parameters', ⟨body', hk'⟩, hwrong⟩
      cases hk.symm.trans hk'
      exact ⟨rfl, hwrong⟩
  · next hk =>
    refine ⟨nofun, ?_⟩
    rintro ⟨returns, parameters, ⟨body, hk'⟩, -⟩
    exact absurd hk' (hk _ _ _ _)

omit c in
/-- What the check of a program finds about one of its functions. -/
theorem filter_main? {wrong : DataType → List Parameter → Bool} {select : Diagnostic → Bool}
    (hselect : ∀ returns parameters span,
      ((checkMain returns parameters span).filter select).map Diagnostic.span =
      if wrong returns parameters then [span] else []) (id : NodeId) :
    ((f.main? id).toList.flatten.filter select).map Diagnostic.span =
      if f.isWrongMain wrong id then [f.spanOf id] else [] := by
  cases hn : f.node? id with
  | none => simp [main?, isWrongMain, kindOf?, hn]
  | some n =>
    obtain ⟨kind, span, parent, table⟩ := n
    cases kind
    case function name returns parameters body =>
      by_cases hname : name = "main"
      · subst hname
        simpa [main?, isWrongMain, kindOf?, spanOf, hn] using hselect returns parameters span
      · simp [main?, isWrongMain, kindOf?, hn, hname]
    all_goals simp [main?, isWrongMain, kindOf?, hn]

omit c in
theorem filter_mains {wrong : DataType → List Parameter → Bool} {select : Diagnostic → Bool}
    (hselect : ∀ returns parameters span,
      ((checkMain returns parameters span).filter select).map Diagnostic.span =
      if wrong returns parameters then [span] else []) (ids : List NodeId) :
    ((ids.filterMap f.main?).flatten.filter select).map Diagnostic.span =
      (ids.filter (f.isWrongMain wrong)).map f.spanOf := by
  induction ids with
  | nil => rfl
  | cons id ids ih =>
    have hstep : ((id :: ids).filterMap f.main?).flatten =
        (f.main? id).toList.flatten ++ (ids.filterMap f.main?).flatten := by
      cases hid : f.main? id with
      | none => rw [List.filterMap_cons_none hid]; rfl
      | some log =>
        rw [List.filterMap_cons_some hid, Option.toList_some, List.flatten_singleton,
          List.flatten_cons]
    rw [hstep, List.filter_append, List.map_append, f.filter_main? hselect id, ih, List.filter_cons]
    split <;> rfl

theorem Checked.map_span_filter_mains {wrong : DataType → List Parameter → Bool}
    {select : Diagnostic → Bool}
    (hmain : ∀ returns parameters span,
      ((checkMain returns parameters span).filter select).map Diagnostic.span =
      if wrong returns parameters then [span] else [])
    (hselect : ∀ d, select d = true → d.code = .malformedMain) : ∀ x ∈ p.tree.subtrees,
      ((g.judge types x).log.filter select).map Diagnostic.span =
        ((g.functionsOf x.id).filter (g.isWrongMain wrong)).map g.spanOf := by
  have hmissing {q : Problem} {span : Span} (hq : q.code ≠ .malformedMain) :
      select (q.on span) = false :=
    Bool.eq_false_iff.mpr fun hs => hq (hselect _ hs)
  intro x hx
  by_cases hk : ∃ vars functions, x.kind = .program vars functions
  · obtain ⟨vars, functions, hk⟩ := hk
    have hfunctions : g.functionsOf x.id = functions := by
      simp only [functionsOf, c.carries.kind x hx, hk]
    have hrequire (b : Bool) : (Verdict.require b .missingMain x.span).filter select = [] :=
      (findings_require (Q := fun q _ => q = .missingMain) rfl).filter_eq_nil fun q span hq =>
        hmissing (hq ▸ nofun)
    have hjudge : g.judge types x = g.checkProgram functions x.span := by rw [judge, hk, verdict]
    rw [hjudge, checkProgram, List.filter_append, hrequire, List.append_nil, hfunctions,
      g.filter_mains hmain]
  · have hempty : (g.judge types x).log.filter select = [] :=
      (c.judge_findings hx).filter_eq_nil fun q span hq => hmissing fun hcode =>
        hk (Kind.eq_program_of_finds hq (.inr hcode))
    have hfunctions : g.functionsOf x.id = [] := by
      unfold functionsOf
      split
      · next hkind =>
          exact absurd ⟨_, _, Option.some.inj ((c.carries.kind x hx).symm.trans hkind)⟩ hk
      · rfl
    rw [hempty, hfunctions]
    rfl

omit c in
theorem Alike.functionsOf_eq (a : f.Alike g) : f.functionsOf = g.functionsOf :=
  funext fun id => by simp only [functionsOf, a.kind]

omit c in
theorem Alike.isWrongMain_eq (a : f.Alike g) (wrong : DataType → List Parameter → Bool) :
    f.isWrongMain wrong = g.isWrongMain wrong :=
  funext fun id => by simp only [isWrongMain, a.kind]

include placed in
theorem Checked.mains_reported (a : f.Alike g) {wrong : DataType → List Parameter → Bool}
    {select : Diagnostic → Bool}
    (hmain : ∀ returns parameters span,
      ((checkMain returns parameters span).filter select).map Diagnostic.span =
      if wrong returns parameters then [span] else [])
    (hselect : ∀ d, select d = true → d.code = .malformedMain) :
    f.Matches ((p.log policy).filter select)
      fun id => ∃ returns parameters, f.IsMain returns parameters id ∧
        wrong returns parameters = true := by
  have h := c.carries.of_alike a
  have hlog := c.map_span_filter_mains hmain hselect
  rw [← a.functionsOf_eq, ← a.isWrongMain_eq wrong, ← funext a.span] at hlog
  refine c.matches_of_parted h placed .malformedMain hselect ⟨nofun, nofun⟩
    (h.parted_functionsOf.sublist fun _ => List.filter_sublist) hlog fun id => ?_
  simp only [List.mem_filter, isWrongMain_iff]
  constructor
  · rintro ⟨_, -, hid⟩
    exact hid
  · rintro ⟨returns, parameters, hid, hwrong⟩
    obtain ⟨body, hk⟩ := hid
    exact ⟨p.tree.id, h.mem_functionsOf hk, returns, parameters, ⟨body, hk⟩, hwrong⟩

/-- Whether a program has a main function is checked once. -/
theorem Checked.filter_missingMain : (p.log policy).filter (fun d => d.code == .missingMain) =
    Verdict.require (!((g.functionsOf p.tree.id).filterMap g.main?).isEmpty)
      .missingMain p.span := by
  have hbelow : (p.tree.children.flatMap Tree.subtrees).flatMap
      (fun x => (g.judge types x).log.filter fun d => d.code == .missingMain) = [] := by
    rw [List.flatMap_eq_nil_iff]
    intro x hx
    have hmem : x ∈ p.tree.subtrees := by
      rw [Tree.subtrees_eq]
      exact List.mem_append_left _ hx
    have hne : x ≠ p.tree := by
      rintro rfl
      have hdistinct := c.carries.distinct
      rw [Tree.ids_eq, List.nodup_append] at hdistinct
      refine hdistinct.2.2 _ ?_ _ (List.mem_singleton_self _) rfl
      obtain ⟨t, ht, hx⟩ := List.mem_flatMap.mp hx
      exact List.mem_flatMap.mpr ⟨t, ht, Tree.id_mem_ids hx⟩
    refine (c.judge_findings hmem).filter_eq_nil fun q span hq => beq_false_of_ne fun hcode => ?_
    obtain ⟨vars, functions, hk⟩ := Kind.eq_program_of_finds hq (.inl hcode)
    exact Program.kind_ne_program hmem hne vars functions hk
  have hfunctions :
      g.functionsOf p.tree.id = (Declaration.functionTrees 0 p.declarations).map Tree.id := by
    simp only [functionsOf, c.carries.kind p.tree p.tree.self_mem_subtrees]
    rfl
  have hrequire (b : Bool) :
      (Verdict.require b .missingMain p.span).filter (fun d => d.code == .missingMain) =
      Verdict.require b .missingMain p.span := by cases b <;> rfl
  have hflat : ((g.functionsOf p.tree.id).filterMap g.main?).flatten.filter
      (fun d => d.code == .missingMain) = [] := by
    have hmains : (((g.functionsOf p.tree.id).filterMap g.main?).flatten.filter fun d =>
        d.code == .missingMain).map
        Diagnostic.span = ((g.functionsOf p.tree.id).filter
          (g.isWrongMain fun _ _ => false)).map g.spanOf :=
      g.filter_mains (fun returns parameters span => by cases returns <;> cases parameters <;> rfl)
        _
    have hnone : (g.functionsOf p.tree.id).filter (g.isWrongMain fun _ _ => false) = [] := by
      refine List.filter_eq_nil_iff.mpr fun id _ hid => ?_
      obtain ⟨_, _, _, hwrong⟩ := isWrongMain_iff.mp hid
      cases hwrong
    rwa [hnone, List.map_nil, List.map_eq_nil_iff] at hmains
  have hdeclaration (q : Problem) (span : Span) (hq : q.isOfDeclaration = true) :
      ((q.on span).code == .missingMain) = false :=
    q.select_of_isOfDeclaration hq span (fun _ => beq_iff_eq.mp) ⟨nofun, nofun⟩
  rw [c.filter_log hdeclaration, Tree.subtrees_eq, List.flatMap_append, hbelow, List.nil_append,
    List.flatMap_singleton, judge_program, checkProgram, ← hfunctions, List.filter_append, hflat,
    List.nil_append, hrequire]

omit c in
theorem filter_mainReturns (returns : DataType) (parameters : List Parameter) (span : Span) :
    ((checkMain returns parameters span).filter fun d =>
      d.code == .malformedMain && d.message != Problem.mainParameters.message).map Diagnostic.span =
        if returns != .int then [span] else [] := by
  cases returns <;> cases parameters <;> rfl

omit c in
theorem filter_mainParameters (returns : DataType) (parameters : List Parameter) (span : Span) :
    ((checkMain returns parameters span).filter fun d =>
      d.code == .malformedMain && d.message == Problem.mainParameters.message).map Diagnostic.span =
        if !parameters.isEmpty then [span] else [] := by
  cases returns <;> cases parameters <;> rfl

omit c in
theorem isSome_main?_iff {id : NodeId} :
    (f.main? id).isSome = true ↔ ∃ returns parameters, f.IsMain returns parameters id := by
  unfold main? IsMain kindOf?
  split
  · next name returns parameters body span _ _ hn =>
    rw [hn]
    split
    · next hname => exact ⟨fun _ => ⟨returns, parameters, body, hname ▸ rfl⟩, fun _ => rfl⟩
    · next hname =>
      refine ⟨nofun, ?_⟩
      rintro ⟨returns', parameters', body', hk⟩
      cases hk
      exact absurd rfl hname
  · next hn =>
    refine ⟨nofun, ?_⟩
    rintro ⟨returns, parameters, body, hk⟩
    obtain ⟨⟨kind, span, parent, table⟩, hn', rfl⟩ := Option.map_eq_some_iff.mp hk
    exact absurd hn' (hn _ _ _ _ _ _ _)

theorem Checked.count_missingMain : Log.count (p.log policy) .missingMain =
    if ((g.functionsOf p.tree.id).filterMap g.main?).isEmpty then 1 else 0 := by
  rw [Log.count, List.countP_eq_length_filter, c.filter_missingMain]
  cases ((g.functionsOf p.tree.id).filterMap g.main?).isEmpty <;> rfl

theorem Checked.isEmpty_mains_iff (a : f.Alike g) :
    ((g.functionsOf p.tree.id).filterMap g.main?).isEmpty = true ↔
      ∀ id returns parameters, ¬ f.IsMain returns parameters id := by
  rw [List.isEmpty_iff, List.filterMap_eq_nil_iff]
  constructor
  · rintro hnone id returns parameters ⟨body, hk⟩
    rw [a.kind] at hk
    have hsome := isSome_main?_iff.mpr ⟨returns, parameters, body, hk⟩
    rw [hnone id (c.carries.mem_functionsOf hk)] at hsome
    cases hsome
  · intro hnone id _
    rw [← Option.not_isSome_iff_eq_none, isSome_main?_iff]
    rintro ⟨returns, parameters, body, hk⟩
    exact hnone id returns parameters ⟨body, (a.kind id).trans hk⟩

end Reports

end Forest

/-- The reports about jumps, returns and main functions are those that the structure of the program
calls for. -/
theorem structure_reported {source : String} {f : Forest} (hf : Forest.parse source = .ok f)
    (policy : Policy) :
    ∃ a, check policy source = .ok a ∧ StructureReported f a.log := by
  obtain ⟨p, hp, rfl⟩ := Forest.parse_eq_ok_iff.mp hf
  obtain ⟨types, c, hcheck⟩ := check_of_parse_ok hp policy
  obtain ⟨ls, -, placed⟩ := Program.placed_of_parse hp
  have h := p.grown_carries
  have halike : p.grown.Alike (p.annotated policy) := (p.grown.alike_withTables _).symm
  refine ⟨_, hcheck, ?_⟩
  constructor
  case jumps => exact c.jumps_reported h placed
  case returns => exact c.returns_reported h placed
  case returns_count => exact c.count_returns h
  case values => exact c.values_reported h placed
  case main =>
    intro id returns parameters hmain
    rw [c.count_missingMain, if_neg fun hempty =>
      (c.isEmpty_mains_iff halike).mp hempty id returns parameters hmain]
  case noMain =>
    intro hnone
    rw [c.count_missingMain, if_pos ((c.isEmpty_mains_iff halike).mpr hnone)]
  case mainReturns =>
    have hmains := c.mains_reported placed halike Forest.filter_mainReturns fun d hd =>
      beq_iff_eq.mp (Bool.and_eq_true_iff.mp hd).1
    simpa only [bne_iff_ne] using hmains
  case mainParameters =>
    have hmains := c.mains_reported placed halike Forest.filter_mainParameters fun d hd =>
      beq_iff_eq.mp (Bool.and_eq_true_iff.mp hd).1
    simpa only [Bool.not_eq_true', List.isEmpty_eq_false_iff] using hmains

/-- Two returns of a function without a result, a jump outside loops, and two main functions. -/
def mainsText : String :=
  "def void f()\x7breturn 1; return;\x7d def bool main(int a)\x7bbreak;\x7d" ++
    " def int main(int a)\x7b\x7d"

theorem structure_reported_mains :
    ∃ f, Forest.parse mainsText = .ok f ∧
      ∃ a, check {} mainsText = .ok a ∧
        StructureReported f a.log ∧
        a.log.map (fun d => (d.code, d.span.start)) =
          [(.duplicateDeclaration, 61), (.invalidReturn, 13), (.multipleReturns, 23),
            (.invalidJump, 53), (.malformedMain, 32), (.malformedMain, 32),
            (.malformedMain, 61)] := by
  have hlog :
      ((check {} mainsText).toOption.map fun a => a.log.map fun d => (d.code, d.span.start)) =
        some [(.duplicateDeclaration, 61), (.invalidReturn, 13), (.multipleReturns, 23),
          (.invalidJump, 53), (.malformedMain, 32), (.malformedMain, 32),
          (.malformedMain, 61)] := by
    decide +kernel
  apply exists_ok_of_isSome (by decide +kernel)
  intro f hf
  obtain ⟨a, ha, hreported⟩ := structure_reported hf {}
  rw [ha] at hlog
  exact ⟨a, ha, hreported, Option.some.inj hlog⟩

end DecafCheck
