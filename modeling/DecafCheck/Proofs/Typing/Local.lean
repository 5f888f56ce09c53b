import DecafCheck.Proofs.Tree.PostOrder
import DecafCheck.Proofs.Typing.Agreement

namespace DecafCheck

namespace Verdict

/-- A truth value is asked for. -/
def test (place : Test) (part : InferredType × Span) : List Diagnostic :=
  require (part.1.is .bool) (.test place part.1) part.2

def ofAssignment (parts : List (InferredType × Span)) (span : Span) : Verdict :=
  match parts with
  | [target, value] =>
    { log := require (target.1.agrees value.1) (.assignment target.1 value.1) span }
  | _ => .ok

def ofOperands (op : BinaryOp) (parts : List (InferredType × Span)) (span : Span) : Verdict :=
  match parts with
  | [left, right] => .ofBinary op left.1 right.1 span
  | _ => .ok

def ofOperand (op : UnaryOp) (parts : List (InferredType × Span)) (span : Span) : Verdict :=
  match parts with
  | [operand] => .ofUnary op operand.1 span
  | _ => .ok

/-- A call names a function of the outermost scope. -/
def ofCall (scopes : Scopes) (name : String) (parts : List (InferredType × Span)) (span : Span) :
    Verdict :=
  match declared? scopes.globals name with
  | none => .unresolved (.undeclaredFunction name) span
  | some s =>
    if s.isFunction then
      { log :=
          require (s.parameters.length == parts.length)
              (.arity name s.parameters.length parts.length) span
            ++ Expr.argumentLog name 1 parts s.parameters
        type := some (.known s.type) }
    else .unresolved (.notFunction name) span

def ofLocation (scopes : Scopes) (name : String) (parts : List (InferredType × Span))
    (span : Span) : Verdict :=
  match scopes.find? name with
  | none => .unresolved (.undeclared name) span
  | some s => { log := parts.flatMap (Expr.indexLog s span), type := some (.known s.type) }

end Verdict

/-- What is found out about a construct inside a program. Whether it is a direct statement of the
body of a loop counts for jumps, and the returns count for functions. -/
def Kind.verdict (scopes : Scopes) (inBody : Bool) (parts : List (InferredType × Span))
    (returned : List (Option InferredType × Span)) (span : Span) : Kind → Verdict
  | .function name returns _ _ =>
    { log :=
        Verdict.require ((scopes.find? name).any Symbol.isFunction) (.functionConflict name) span
          ++ Function.returnsLog name returns returned }
  | .assignment _ _ => .ofAssignment parts span
  | .conditional _ _ _ => { log := parts.head?.toList.flatMap (Verdict.test .condition) }
  | .whileLoop _ _ => { log := parts.head?.toList.flatMap (Verdict.test .guard) }
  | .jump j => { log := Verdict.require inBody (.jumpOutsideLoop j) span }
  | .callStatement name _ => { Verdict.ofCall scopes name parts span with type := none }
  | .binary op _ _ => .ofOperands op parts span
  | .unary op _ => .ofOperand op parts span
  | .call name _ => .ofCall scopes name parts span
  | .location name _ => .ofLocation scopes name parts span
  | .literal value => { type := some (.known value.type) }
  | _ => .ok

theorem Kind.stop_verdict (scopes : Scopes) (inBody : Bool) (parts : List (InferredType × Span))
    (returned : List (Option InferredType × Span)) (span : Span) (k : Kind) :
    (k.verdict scopes inBody parts returned span).stop = none := by
  have hcall (name : String) : (Verdict.ofCall scopes name parts span).stop = none := by
    unfold Verdict.ofCall
    split
    · rfl
    · split <;> rfl
  cases k with
  | assignment => rcases parts with _ | ⟨target, _ | ⟨value, _ | _⟩⟩ <;> rfl
  | binary op =>
    rcases parts with _ | ⟨left, _ | ⟨right, _ | _⟩⟩
    case cons.cons.nil =>
      rw [verdict, Verdict.ofOperands, Verdict.ofBinary]
      split <;> rfl
    all_goals rfl
  | unary => rcases parts with _ | ⟨operand, _ | _⟩ <;> rfl
  | location name =>
    rw [verdict, Verdict.ofLocation]
    split <;> rfl
  | call name => exact hcall name
  | callStatement name => exact hcall name
  | _ => rfl

namespace Tree

/-- What the checks around a node see of it. -/
def seen (types : Types) (x : Tree) : InferredType × Span :=
  (types.get x.id, x.span)

/-- The value and the span of a return statement. -/
def return? (types : Types) (x : Tree) : Option (Option InferredType × Span) :=
  match x.kind with
  | .ret value => some (value.map types.get, x.span)
  | _ => none

/-- The returns among the statements of the blocks in a node. -/
def returned (types : Types) (x : Tree) : List (Option InferredType × Span) :=
  x.children.flatMap fun b => b.children.filterMap (return? types)

end Tree

namespace Forest

variable {policy : Policy} {f : Forest} {t : Tree}

theorem Carries.seen_eq (h : f.Carries t) {x : Tree} (hx : x ∈ t.subtrees) (types : Types) :
    f.seen types x.id = x.seen types :=
  Prod.ext rfl (h.span x hx)

theorem Carries.map_seen (h : f.Carries t) {x : Tree} (hx : x ∈ t.subtrees) (types : Types) :
    x.kind.children.map (f.seen types) = x.children.map (Tree.seen types) := by
  rw [h.listed x hx, List.map_map]
  exact List.map_congr_left fun c hc =>
    h.seen_eq (Tree.subtrees_trans hx (Tree.child_mem_subtrees hc)) types

theorem Carries.return?_eq (h : f.Carries t) {x : Tree} (hx : x ∈ t.subtrees) (types : Types) :
    (f.return? x.id).map (fun r => (r.1.map types.get, r.2)) = x.return? types := by
  obtain ⟨⟨kind, span, parent, table⟩, hn, hk, hs⟩ := h.node hx
  obtain rfl : kind = x.kind := hk
  obtain rfl : span = x.span := hs
  rw [Forest.return?, hn, Tree.return?]
  cases x.kind <;> rfl

/-- The returns of a function are found among the nodes of its body. -/
theorem Carries.returned_eq (h : f.Carries t) (hfit : ∀ x ∈ t.subtrees, x.Fitting) {x : Tree}
    (hx : x ∈ t.subtrees) {name : String} {returns : DataType} {parameters : List Parameter}
    {body : NodeId} (hk : x.kind = .function name returns parameters body) (types : Types) :
    ∃ vars statements, f.kindOf? body = some (.block vars statements) ∧
      (statements.filterMap f.return?).map (fun r => (r.1.map types.get, r.2)) =
        x.returned types := by
  obtain ⟨b, hb, hid⟩ : ∃ b, x.children = [b] ∧ b.id = body := by
    have hlisted := h.listed x hx
    rw [hk] at hlisted
    exact List.map_eq_singleton_iff.mp hlisted.symm
  have hbx : b ∈ t.subtrees :=
    Tree.subtrees_trans hx (Tree.child_mem_subtrees (hb ▸ List.mem_singleton_self b))
  obtain ⟨vars, statements, hbk⟩ : ∃ vars statements, b.kind = .block vars statements := by
    have hroles : (Role.block, body) ∈ x.kind.roles := by
      rw [hk]
      exact List.mem_singleton_self _
    obtain ⟨c, hc, -, hfits⟩ := hfit x hx _ hroles
    rw [hb, List.mem_singleton] at hc
    subst hc
    cases hck : c.kind <;> rw [hck] at hfits <;> cases hfits
    exact ⟨_, _, rfl⟩
  refine ⟨vars, statements, by rw [← hid, h.kind b hbx, hbk], ?_⟩
  have hlisted := h.listed b hbx
  rw [hbk] at hlisted
  obtain ⟨vs, ss, hcs, hvs, rfl⟩ := List.map_eq_append_iff.mp hlisted.symm
  have hchild {c : Tree} (hc : c ∈ b.children) : c ∈ t.subtrees :=
    Tree.subtrees_trans hbx (Tree.child_mem_subtrees hc)
  -- The variables of a block are no returns.
  have hnone : vs.filterMap (Tree.return? types) = [] := by
    rw [List.filterMap_eq_nil_iff]
    intro v hv
    have hmem : (Role.variable, v.id) ∈ b.kind.roles := by
      rw [hbk, Kind.roles, ← hvs]
      exact List.mem_append_left _ (List.mem_map_of_mem (List.mem_map_of_mem hv))
    obtain ⟨c, hc, hcv, hfits⟩ := hfit b hbx _ hmem
    obtain rfl := Tree.eq_of_id_eq h.distinct (hchild hc)
      (hchild (hcs ▸ List.mem_append_left _ hv)) hcv
    unfold Tree.return?
    cases hck : c.kind <;> rw [hck] at hfits
    cases hfits
  have hreturns : ss.map (fun c => (f.return? c.id).map fun r => (r.1.map types.get, r.2)) =
      ss.map (Tree.return? types) :=
    List.map_congr_left fun c hc => h.return?_eq (hchild (hcs ▸ List.mem_append_right _ hc)) types
  have hfound := congrArg (List.filterMap id) hreturns
  rw [List.filterMap_map, List.filterMap_map] at hfound
  rw [Tree.returned, hb, List.flatMap_singleton, hcs, List.filterMap_append, hnone, List.nil_append,
    List.map_filterMap, List.filterMap_map]
  exact hfound

/-- The verdict on a node inside a program. -/
theorem Built.judge_eq (b : f.Built policy t) (hfit : ∀ x ∈ t.subtrees, x.Fitting) {y : Tree}
    {above : List Tree} {x : Tree} (hp : t.Path (y :: above) x) (types : Types) :
    f.judge types x = x.kind.verdict (Tree.around policy (y :: above)) (Tree.inBody (y :: above))
      (x.children.map (Tree.seen types)) (x.returned types) x.span := by
  have hparts := b.carries.map_seen hp.mem types
  rw [← hparts]
  have hcall {name : String} {arguments : List NodeId} (hk : x.kind.opensScope = false)
      (hcs : x.kind.children = arguments) (kind : Kind) :
      f.checkCall types x.id kind x.span name arguments =
        .ofCall (Tree.around policy (y :: above)) name
        (x.kind.children.map (f.seen types)) x.span := by
    rw [b.checkCall_eq hp hk, Verdict.ofCall, hcs, List.length_map]
    cases declared? (Tree.around policy (y :: above)).globals name with
    | none => rfl
    | some s => simp only [argumentProblems_eq]
  cases hk : x.kind with
  | program vars functions => exact absurd hk (b.carries.kind_ne_program hfit hp vars functions)
  | function name returns parameters body =>
    obtain ⟨j, hj, hchain⟩ := b.tableAround?_eq hp (by rw [hk]; rfl)
    obtain ⟨vars, statements, hbody, hreturned⟩ := b.carries.returned_eq hfit hp.mem hk types
    have hlookup : (f.tables.lookup j name).toOption =
        (Tree.around policy (y :: above)).find? name := by
      rw [hchain.lookup_eq]
      cases (Tree.around policy (y :: above)).find? name <;> rfl
    have hv : f.judge types x = f.checkFunction types x.id x.span name returns body := by
      rw [judge, hk]
      rfl
    rw [hv, checkFunction, hj, Kind.verdict, ← hreturned, ← checkReturns_eq]
    simp only [hbody, hlookup]
  | jump j =>
    rw [judge, hk, ← b.inLoopBody_eq hp]
    rfl
  | callStatement name arguments =>
    have hv : f.judge types x =
        { f.checkCall types x.id (.callStatement name arguments) x.span name arguments with
          type := none } := by
      rw [judge, hk]
      rfl
    rw [hv, hcall (by rw [hk]; rfl) (by rw [hk]; rfl), hk]
    rfl
  | call name arguments =>
    have hv : f.judge types x =
        f.checkCall types x.id (.call name arguments) x.span name arguments := by
      rw [judge, hk]
      rfl
    rw [hv, hcall (by rw [hk]; rfl) (by rw [hk]; rfl), hk]
    rfl
  | location name index =>
    rw [b.judge_location hp hk, Kind.verdict, Verdict.ofLocation, Kind.children]
    cases (Tree.around policy (y :: above)).find? name with
    | none => rfl
    | some s =>
      simp only [List.flatMap_map]
      rfl
  | _ =>
    rw [judge, hk]
    simp [verdict, Kind.verdict, checkTest, checkAssignment, Verdict.ofAssignment,
      Verdict.ofOperands, Verdict.ofOperand, Verdict.test, Kind.children, seen]

/-- No verdict on a node of a program stops the checks. -/
theorem Built.goes_on (b : f.Built policy t) (hfit : ∀ x ∈ t.subtrees, x.Fitting)
    {vars functions : List NodeId} (hk : t.kind = .program vars functions) {x : Tree}
    (hx : x ∈ t.subtrees) (types : Types) :
    (f.judge types x).stop = none := by
  obtain ⟨above, hp⟩ := Tree.exists_path hx
  cases hp with
  | root =>
    rw [judge, hk]
    rfl
  | child hp hc =>
    rw [b.judge_eq hfit (hp.child hc)]
    exact Kind.stop_verdict _ _ _ _ _ x.kind

/-- The check of a program goes through. -/
theorem Built.checkTypes_eq (b : f.Built policy t) (hfit : ∀ x ∈ t.subtrees, x.Fitting)
    {vars functions : List NodeId} (hk : t.kind = .program vars functions) (before : Types) :
    ∃ types, f.Checked policy t types ∧ f.checkTypes before = ⟨types, f.logs types t, none⟩ := by
  obtain ⟨types, htyped, hcheck⟩ :=
    b.carries.checkTypes_eq (fun x hx types => b.goes_on hfit hk hx types) before
  exact ⟨types, ⟨b, htyped⟩, hcheck⟩

end Forest

end DecafCheck
