import DecafCheck.Proofs.Typing.Problems

namespace DecafCheck

namespace Tree

/-- Whether the innermost tree is a loop. -/
def inLoop : List Tree → Bool
  | x :: _ =>
    match x.kind with
    | .whileLoop _ _ => true
    | _ => false
  | [] => false

/-- Whether the innermost tree is the body of a loop. -/
def inBody : List Tree → Bool
  | x :: above =>
    match x.kind with
    | .block _ _ => inLoop above
    | _ => false
  | [] => false

end Tree

theorem Tree.around_program (policy : Policy) (p : Program) :
    Tree.around policy [p.tree] = [p.scope policy] := by
  rw [← p.symbols_tree policy]
  rfl

theorem Tree.around_function (policy : Policy) (g : Function) (n : Nat) (above : List Tree) :
    Tree.around policy (g.tree n :: above) = g.scope :: Tree.around policy above := by
  have hk : (g.tree n).kind.opensScope = true := rfl
  rw [Tree.around, if_pos hk, Function.symbols_tree]

theorem Tree.around_block {policy : Policy} (b : Block) (n : Nat) {above : List Tree}
    (hne : Tree.around policy above ≠ []) :
    Tree.around policy (b.tree n :: above) = b.scope policy :: Tree.around policy above := by
  have hk : (b.tree n).kind.opensScope = true := by
    cases b
    rfl
  rw [Tree.around, if_pos hk, Block.symbols_tree, Tree.storageIn, if_neg hne]
  rfl

namespace Forest

/-- The problems found in a tree, in view of the types. -/
def logs (f : Forest) (types : Types) (x : Tree) : List Diagnostic :=
  x.subtrees.flatMap fun y => (f.judge types y).log

theorem logs_eq (f : Forest) (types : Types) (x : Tree) :
    f.logs types x = x.children.flatMap (f.logs types) ++ (f.judge types x).log := by
  rw [logs, Tree.subtrees_eq x, List.flatMap_append, List.flatMap_singleton, List.flatMap_assoc]
  rfl

/-- What the checks around a node see of it. -/
def seen (f : Forest) (types : Types) (id : NodeId) : InferredType × Span :=
  (types.get id, f.spanOf id)

theorem argumentProblems_eq (f : Forest) (types : Types) (name : String) (position : Nat)
    (arguments : List NodeId) (parameters : List DataType) :
    f.argumentProblems types name position arguments parameters =
      Expr.argumentLog name position (arguments.map (f.seen types)) parameters := by
  induction arguments generalizing position parameters with
  | nil => cases parameters <;> rfl
  | cons a as ih =>
    cases parameters with
    | nil => rfl
    | cons p ps =>
      rw [argumentProblems, ih]
      rfl

theorem checkReturn_eq (types : Types) (name : String) (returns : DataType) (value : Option NodeId)
    (span : Span) :
    checkReturn types name returns value span =
      Function.returnLog name returns (value.map types.get) span := by
  cases returns <;> cases value <;> rfl

theorem checkReturns_eq (types : Types) (name : String) (returns : DataType)
    (returned : List (Option NodeId × Span)) :
    checkReturns types name returns returned =
      Function.returnsLog name returns (returned.map fun r => (r.1.map types.get, r.2)) := by
  cases returned with
  | nil => rfl
  | cons r rest =>
    simp only [checkReturns, checkReturn_eq, List.map_cons, Function.returnsLog, List.flatMap_map]

namespace Built

variable {policy : Policy} {f : Forest} {t : Tree} (b : f.Built policy t)

include b

theorem judge_location {above : List Tree} {x : Tree} (hp : t.Path above x) {name : String}
    {index : Option NodeId} (hk : x.kind = .location name index) (types : Types) :
    f.judge types x =
      match (Tree.around policy above).find? name with
      | none => .unresolved (.undeclared name) x.span
      | some s =>
        { log := index.toList.flatMap (f.indexProblems types s x.span)
          type := some (.known s.type) } := by
  obtain ⟨k, hn, hc⟩ := b.nearestTable_eq hp
  rw [Tree.around_plain (by rw [hk]; rfl)] at hc
  rw [judge, hk]
  simp only [verdict, checkLocation, hn, hc.lookup_eq]
  cases (Tree.around policy above).find? name <;> rfl

theorem checkCall_eq {above : List Tree} {x : Tree} (hp : t.Path above x)
    (hk : x.kind.opensScope = false) (types : Types) (kind : Kind) (span : Span) (name : String)
    (arguments : List NodeId) :
    f.checkCall types x.id kind span name arguments =
      match declared? (Tree.around policy above).globals name with
      | none => .unresolved (.undeclaredFunction name) span
      | some s =>
        if s.isFunction then
          { log :=
              Verdict.require (s.parameters.length == arguments.length)
                  (.arity name s.parameters.length arguments.length) span
                ++ f.argumentProblems types name 1 arguments s.parameters
            type := some (.known s.type) }
        else .unresolved (.notFunction name) span := by
  obtain ⟨k, hn, hc⟩ := b.nearestTable_eq hp
  rw [Tree.around_plain hk] at hc
  obtain ⟨parent, hg⟩ := hc.outermost_eq
  have hf : Table.find? ⟨firsts (Tree.around policy above).globals, parent⟩ name =
      declared? (Tree.around policy above).globals name := declared?_firsts _ name
  unfold checkCall
  cases hd : declared? (Tree.around policy above).globals name with
  | none => simp [hn, hg, hf, hd]
  | some s => simp [hn, hg, hf, hd]

/-- The table around a function's own is that of the scopes around the function. -/
theorem tableAround?_eq {above : List Tree} {x y : Tree} (hp : t.Path (y :: above) x)
    (hk : x.kind.opensScope = true) :
    ∃ j, f.tableAround? x.id = some j ∧ f.tables.Chain j (Tree.around policy (y :: above)) := by
  obtain ⟨k, hs⟩ := b.seated hp
  obtain ⟨j, hj⟩ : ∃ j, f.Seated policy above y j := by
    cases hp with
    | child hy _ => exact b.seated hy
  exact ⟨j, (hs.tableAround?_eq hk).trans hj.nearest, hj.chain⟩

theorem judge_function {g : Function} {n : Nat} {y : Tree} {above : List Tree}
    (hp : t.Path (y :: above) (g.tree n)) {vars statements : List NodeId}
    (hk : (g.body.tree n).kind = .block vars statements) (types : Types) :
    f.judge types (g.tree n) =
      { log :=
          Verdict.require (((Tree.around policy (y :: above)).find? g.name).any Symbol.isFunction)
              (.functionConflict g.name) g.span
            ++ checkReturns types g.name g.returns (statements.filterMap f.return?) } := by
  obtain ⟨j, hj, hchain⟩ := b.tableAround?_eq hp rfl
  have hbody := hp.child (List.mem_singleton_self (g.body.tree n))
  have hkind : f.kindOf? (g.body.tree n).id = some (.block vars statements) := by
    rw [b.carries.kind _ hbody.mem, hk]
  have hlookup : (f.tables.lookup j g.name).toOption =
      (Tree.around policy (y :: above)).find? g.name := by
    rw [hchain.lookup_eq]
    cases (Tree.around policy (y :: above)).find? g.name <;> rfl
  have hv : f.judge types (g.tree n) = f.checkFunction types (g.tree n).id g.span g.name g.returns
    (g.body.tree n).id := rfl
  rw [hv, checkFunction, hj]
  simp only [hkind, hlookup]

theorem inLoopBody_eq {above : List Tree} {x : Tree} (hp : t.Path above x) :
    f.inLoopBody x.id = Tree.inBody above := by
  have hparent := b.linked hp
  cases hp with
  | root => simp [inLoopBody, hparent, Tree.inBody]
  | @child above y _ hy _ =>
    have hk := b.carries.kind y hy.mem
    have hloop : (f.parentOf? y.id).bind f.kindOf? = above.head?.map Tree.kind := by
      rw [b.linked hy]
      cases hy with
      | root => rfl
      | child hz _ => exact b.carries.kind _ hz.mem
    simp only [inLoopBody, hparent, List.head?_cons, Option.map_some, hk, hloop, Tree.inBody]
    cases y.kind
    case block =>
      cases above with
      | nil => rfl
      | cons z above =>
        simp only [List.head?_cons, Option.map_some, Tree.inLoop]
        cases z.kind <;> rfl
    all_goals rfl

end Built

/-- A forest with tables whose nodes have the types that fit. -/
structure Checked (policy : Policy) (f : Forest) (t : Tree) (types : Types) :
    Prop extends f.Built policy t where
  typed : f.Typed t types

section Checked

variable {policy : Policy} {f : Forest} {t : Tree} {types : Types} (h : f.Checked policy t types)

include h

theorem Checked.get_eq {x : Tree} (hx : x ∈ t.subtrees) :
    types.get x.id = (f.judge types x).type.getD .unknown := by
  rw [Types.get, h.typed.fits x hx]

omit h in
/-- The type and the problems of an expression's node are those of the expression, wherever it
is. -/
def Agrees (policy : Policy) (f : Forest) (t : Tree) (types : Types) (e : Expr) : Prop :=
  ∀ (n : Nat) (above : List Tree), t.Path above (e.tree n) →
    f.seen types (e.tree n).id = e.seen (Tree.around policy above) ∧
      f.logs types (e.tree n) = e.log (Tree.around policy above)

omit h in
theorem Agrees.child {e : Expr} (he : f.Agrees policy t types e) {above : List Tree} {x : Tree}
    (hp : t.Path above x) (hk : x.kind.opensScope = false) {m : Nat} (hc : e.tree m ∈ x.children) :
    f.seen types (e.tree m).id = e.seen (Tree.around policy above) ∧
      f.logs types (e.tree m) = e.log (Tree.around policy above) := by
  have hc' := he m (x :: above) (hp.child hc)
  rwa [Tree.around_plain hk] at hc'

omit h in
theorem agrees_row {es : List Expr} (he : ∀ e ∈ es, f.Agrees policy t types e)
    {above : List Tree} {x : Tree} (hp : t.Path above x) (hk : x.kind.opensScope = false) {n : Nat}
    (hc : ∀ c ∈ Tree.row Expr.tree n es, c ∈ x.children) :
    ((Tree.row Expr.tree n es).map Tree.id).map (f.seen types) =
      es.map (Expr.seen (Tree.around policy above)) ∧
      (Tree.row Expr.tree n es).flatMap (f.logs types) =
        es.flatMap (Expr.log (Tree.around policy above)) := by
  have hrow : ∀ e ∈ es, ∀ m, Expr.tree m e ∈ Tree.row Expr.tree n es →
      f.seen types (e.tree m).id = e.seen (Tree.around policy above) ∧
        f.logs types (e.tree m) = e.log (Tree.around policy above) :=
    fun e hm m hrow => (he e hm).child hp hk (hc _ hrow)
  have hr := Tree.each_row Expr.tree n es
  rw [List.map_map]
  exact ⟨hr.map_eq fun e hm m h => (hrow e hm m h).1,
    hr.flatMap_eq fun e hm m h => (hrow e hm m h).2⟩

theorem Checked.agrees_at {e : Expr} {n : Nat} {above : List Tree} {x : Tree} (hx : e.tree n = x)
    (hp : t.Path above x) (hspan : x.span = e.span)
    (htype : (f.judge types x).type = some (e.type (Tree.around policy above)))
    (hlog : x.children.flatMap (f.logs types) ++ (f.judge types x).log =
      e.log (Tree.around policy above)) :
    f.seen types (e.tree n).id = e.seen (Tree.around policy above) ∧
      f.logs types (e.tree n) = e.log (Tree.around policy above) := by
  rw [hx]
  refine ⟨Prod.ext ?_ ((h.carries.span _ hp.mem).trans hspan), (f.logs_eq types _).trans hlog⟩
  exact (h.get_eq hp.mem).trans (by rw [htype]; rfl)

/-- The call of a function, as an expression or as a statement. -/
theorem Checked.checkCall_eq {arguments : List Expr} {above : List Tree} {x : Tree}
    (hp : t.Path above x) (hk : x.kind.opensScope = false) {n : Nat} (kind : Kind)
    (name : String) (span : Span)
    (hseen : ((Tree.row Expr.tree n arguments).map Tree.id).map (f.seen types) =
      arguments.map (Expr.seen (Tree.around policy above))) :
    f.checkCall types x.id kind span name ((Tree.row Expr.tree n arguments).map Tree.id) =
      { log := Expr.callLog (Tree.around policy above) name arguments span
        type := some ((Expr.call name arguments span).type (Tree.around policy above)) } := by
  have hlength : ((Tree.row Expr.tree n arguments).map Tree.id).length = arguments.length := by
    simpa using congrArg List.length hseen
  rw [h.toBuilt.checkCall_eq hp hk, Expr.callLog, Expr.type]
  cases declared? (Tree.around policy above).globals name with
  | none => rfl
  | some s =>
    by_cases hs : s.isFunction = true
    · simp only [hs, ↓reduceIte, argumentProblems_eq, hseen, hlength]
    · simp only [hs]
      rfl

theorem Checked.agrees_location (name : String) {index : Option Expr} (span : Span)
    (ih : ∀ e ∈ index, f.Agrees policy t types e) :
    f.Agrees policy t types (.location name index span) := by
  intro n above hp
  have he : ∀ e ∈ index.toList, f.Agrees policy t types e :=
    fun e he => ih e (Option.mem_toList.mp he)
  rw [Expr.tree_location] at hp
  obtain ⟨hseen, hlogs⟩ := agrees_row he hp rfl (n := n) fun c hc => hc
  have hj := h.judge_location hp rfl types
  have hids : ((Expr.tree? n index).head?.map Tree.id).toList =
      (Tree.row Expr.tree n index.toList).map Tree.id := by
    cases index <;> rfl
  have hproblems (s : Symbol) : ((Expr.tree? n index).head?.map Tree.id).toList.flatMap
      (f.indexProblems types s span) =
        (index.toList.map (Expr.seen (Tree.around policy above))).flatMap
        (Expr.indexLog s span) := by
    rw [hids, ← hseen]
    simp only [List.flatMap_map]
    rfl
  apply h.agrees_at (Expr.tree_location n name index span) hp rfl
  · rw [hj, Expr.type]
    cases (Tree.around policy above).find? name <;> rfl
  · rw [hj, Expr.log_location, ← hlogs, Expr.locationLog]
    cases (Tree.around policy above).find? name with
    | none => rfl
    | some s => exact congrArg _ (hproblems s)

theorem Checked.agrees_call (name : String) {arguments : List Expr} (span : Span)
    (ih : ∀ e ∈ arguments, f.Agrees policy t types e) :
    f.Agrees policy t types (.call name arguments span) := by
  intro n above hp
  rw [Expr.tree_call] at hp
  obtain ⟨hseen, hlogs⟩ := agrees_row ih hp rfl (n := n) fun c hc => hc
  have hj := h.checkCall_eq hp rfl
    (.call name ((Tree.row Expr.tree n arguments).map Tree.id)) name span hseen
  apply h.agrees_at (Expr.tree_call n name arguments span) hp rfl
  · exact congrArg Verdict.type hj
  · rw [Expr.log, Expr.logAll_eq, ← hlogs]
    exact congrArg _ (congrArg Verdict.log hj)

theorem Checked.agrees_unary (op : UnaryOp) {operand : Expr} (span : Span)
    (ih : f.Agrees policy t types operand) :
    f.Agrees policy t types (.unary op operand span) := by
  intro n above hp
  obtain ⟨hseen, hlogs⟩ := ih.child hp rfl (List.mem_singleton_self _)
  have hj : f.judge types ((Expr.unary op operand span).tree n) =
      .ofUnary op (operand.type (Tree.around policy above)) span :=
    congrArg (fun type => Verdict.ofUnary op type span) (congrArg Prod.fst hseen)
  apply h.agrees_at rfl hp rfl
  · rw [hj]
    rfl
  · rw [hj, Expr.log, ← hlogs]
    exact congrArg (· ++ _) (List.flatMap_singleton ..)

theorem Checked.agrees_binary (op : BinaryOp) {left right : Expr} (span : Span)
    (ihl : f.Agrees policy t types left) (ihr : f.Agrees policy t types right) :
    f.Agrees policy t types (.binary op left right span) := by
  intro n above hp
  obtain ⟨hsl, hll⟩ := ihl.child hp rfl List.mem_cons_self
  obtain ⟨hsr, hlr⟩ := ihr.child hp rfl (List.mem_cons_of_mem _ (List.mem_singleton_self _))
  have hj : f.judge types ((Expr.binary op left right span).tree n) =
      .ofBinary op (left.type (Tree.around policy above))
        (right.type (Tree.around policy above)) span :=
    congrArg₂ (fun l r => Verdict.ofBinary op l r span) (congrArg Prod.fst hsl)
      (congrArg Prod.fst hsr)
  apply h.agrees_at rfl hp rfl
  · rw [hj, Expr.type, Verdict.ofBinary]
    cases op.infer (left.type (Tree.around policy above))
      (right.type (Tree.around policy above)) <;> rfl
  · rw [hj, Expr.log, ← hll, ← hlr, ← List.append_assoc]
    refine congrArg (· ++ _) ?_
    simp [Expr.tree, Tree.above]

theorem Checked.agrees (e : Expr) : f.Agrees policy t types e := by
  induction e with
  | literal value span => exact fun n above hp => h.agrees_at rfl hp rfl rfl rfl
  | location name index span ih => exact h.agrees_location name span ih
  | call name arguments span ih => exact h.agrees_call name span ih
  | unary op operand span ih => exact h.agrees_unary op span ih
  | binary op left right span ihl ihr => exact h.agrees_binary op span ihl ihr

omit h in
theorem flatMap_logs_pair (x y : Tree) :
    [x, y].flatMap (f.logs types) = f.logs types x ++ f.logs types y := by
  simp

omit h in
/-- The problems of a statement's nodes are those of the statement, wherever it is. -/
def StatementAgrees (policy : Policy) (f : Forest) (t : Tree) (types : Types) (s : Stmt) : Prop :=
  ∀ (n : Nat) (above : List Tree), t.Path above (s.tree n) → Tree.around policy above ≠ [] →
    f.logs types (s.tree n) = s.log policy (Tree.around policy above) (Tree.inBody above)

omit h in
def BlockAgrees (policy : Policy) (f : Forest) (t : Tree) (types : Types) (b : Block) : Prop :=
  ∀ (n : Nat) (above : List Tree), t.Path above (b.tree n) → Tree.around policy above ≠ [] →
    f.logs types (b.tree n) = b.log policy (Tree.around policy above) (Tree.inLoop above)

omit h in
theorem checkTest_log {scopes : Scopes} {e : Expr} {id : NodeId} (place : Test)
    (he : f.seen types id = e.seen scopes) :
    (f.checkTest types place id).log = e.testLog scopes place :=
  congrArg (fun r : InferredType × Span => Verdict.require (r.1.is .bool) (.test place r.1) r.2) he

theorem Checked.statement_assign (name : String) (index : Option Expr) (target : Span)
    (value : Expr) (span : Span) :
    f.StatementAgrees policy t types (.assign name index target value span) := by
  intro n above hp _
  obtain ⟨hsl, hll⟩ :=
    (h.agrees (.location name index target)).child hp rfl List.mem_cons_self
  obtain ⟨hsv, hlv⟩ :=
    (h.agrees value).child hp rfl (List.mem_cons_of_mem _ (List.mem_singleton_self _))
  rw [logs_eq, Stmt.log, ← hll, ← hlv, ← List.append_assoc, ← flatMap_logs_pair]
  exact congrArg _ (congrArg₂
    (fun l r => Verdict.require (InferredType.agrees l r) (.assignment l r) span)
    (congrArg Prod.fst hsl) (congrArg Prod.fst hsv))

theorem Checked.statement_call (name : String) (arguments : List Expr) (span : Span) :
    f.StatementAgrees policy t types (.call name arguments span) := by
  intro n above hp _
  obtain ⟨hseen, hlogs⟩ := agrees_row (fun e _ => h.agrees e) hp rfl (n := n) fun c hc => hc
  have hj := h.checkCall_eq hp rfl
    (.callStatement name ((Tree.row Expr.tree n arguments).map Tree.id)) name span hseen
  rw [logs_eq, Stmt.log, Expr.logAll_eq, ← hlogs]
  exact congrArg _ (congrArg Verdict.log hj)

theorem Checked.statement_branch (condition : Expr) {yes : Block} {no : Option Block} (span : Span)
    (hy : f.BlockAgrees policy t types yes) (hn : ∀ b ∈ no, f.BlockAgrees policy t types b) :
    f.StatementAgrees policy t types (.branch condition yes no span) := by
  intro n above hp hne
  -- An `else` is a third child, reported before the test of the condition.
  cases no with
  | none =>
    obtain ⟨hsc, hlc⟩ := (h.agrees condition).child hp rfl List.mem_cons_self
    have hly : f.logs types (yes.tree _) = yes.log policy (Tree.around policy above) false :=
      hy _ _ (hp.child (List.mem_cons_of_mem _ (List.mem_singleton_self _))) hne
    rw [logs_eq, Stmt.log, ← hlc, ← hly, ← checkTest_log .condition hsc, ← List.append_assoc,
      ← flatMap_logs_pair]
    rfl
  | some no =>
    obtain ⟨hsc, hlc⟩ := (h.agrees condition).child hp rfl List.mem_cons_self
    have hly : f.logs types (yes.tree _) = yes.log policy (Tree.around policy above) false :=
      hy _ _ (hp.child (List.mem_cons_of_mem _ List.mem_cons_self)) hne
    have hln : f.logs types (no.tree _) = no.log policy (Tree.around policy above) false :=
      hn no rfl _ _ (hp.child
        (List.mem_cons_of_mem _ (List.mem_cons_of_mem _ (List.mem_singleton_self _)))) hne
    rw [logs_eq, Stmt.log, ← hlc, ← hly, ← hln, ← checkTest_log .condition hsc,
      ← List.append_assoc (f.logs types (yes.tree _)), ← List.append_assoc, ← flatMap_logs_pair,
      ← List.flatMap_cons]
    rfl

theorem Checked.statement_loop (guard : Expr) {body : Block} (span : Span)
    (hb : f.BlockAgrees policy t types body) :
    f.StatementAgrees policy t types (.loop guard body span) := by
  intro n above hp hne
  obtain ⟨hsg, hlg⟩ := (h.agrees guard).child hp rfl List.mem_cons_self
  have hlb : f.logs types (body.tree _) = body.log policy (Tree.around policy above) true :=
    hb _ _ (hp.child (List.mem_cons_of_mem _ (List.mem_singleton_self _))) hne
  rw [logs_eq, Stmt.log, ← hlg, ← hlb, ← checkTest_log .guard hsg, ← List.append_assoc,
    ← flatMap_logs_pair]
  rfl

theorem Checked.statement_ret (value : Option Expr) (span : Span) :
    f.StatementAgrees policy t types (.ret value span) := by
  intro n above hp _
  obtain ⟨-, hlogs⟩ := agrees_row (fun e _ => h.agrees e) hp rfl (n := n) fun c hc => hc
  rw [logs_eq, Stmt.log, ← hlogs]
  exact List.append_nil _

theorem Checked.statement_jump (j : Jump) (span : Span) :
    f.StatementAgrees policy t types (.jump j span) := by
  intro n above hp _
  have hloop := h.inLoopBody_eq hp
  rw [logs_eq, Stmt.log, ← hloop]
  rfl

omit h in
theorem logs_variables (n : Nat) (vars : List Variable) :
    (Tree.row Variable.tree n vars).flatMap (f.logs types) = [] := by
  rw [List.flatMap_eq_nil_iff]
  intro c hc
  obtain ⟨v, -, m, rfl⟩ := Tree.mem_row hc
  rfl

omit h in
theorem blockAgrees_mk (vars : List Variable) {statements : List Stmt} (span : Span)
    (ih : ∀ s ∈ statements, f.StatementAgrees policy t types s) :
    f.BlockAgrees policy t types (.mk vars statements span) := by
  intro n above hp hne
  have hx := Block.tree_mk n vars statements span
  -- The statements see the variables of the block in front of what is seen around it.
  have haround : Tree.around policy ((Block.mk vars statements span).tree n :: above) =
      vars.filterMap (Variable.symbol? policy .frame) :: Tree.around policy above :=
    Tree.around_block (.mk vars statements span) n hne
  have hbody : Tree.inBody ((Block.mk vars statements span).tree n :: above) = Tree.inLoop above :=
    rfl
  have hstatements :
      (Tree.row Stmt.tree (Tree.after n (Tree.row Variable.tree n vars)) statements).flatMap
        (f.logs types) = statements.flatMap (Stmt.log policy
          (vars.filterMap (Variable.symbol? policy .frame) :: Tree.around policy above)
          (Tree.inLoop above)) := by
    refine (Tree.each_row _ _ _).flatMap_eq fun s hs m hm => ?_
    have hc : s.tree m ∈ ((Block.mk vars statements span).tree n).children := by
      rw [hx]
      exact List.mem_append_right _ hm
    have hs' := ih s hs m _ (hp.child hc) (by rw [haround]; exact List.cons_ne_nil _ _)
    rwa [haround, hbody] at hs'
  have hown : (f.judge types ((Block.mk vars statements span).tree n)).log = [] := rfl
  rw [logs_eq, hown, Block.log, Stmt.logAll_eq, ← hstatements, hx]
  simp [Tree.above, logs_variables]

/-- The problems of statements and blocks in the forest are those of their syntax. -/
theorem Checked.statement_and : (∀ s : Stmt, f.StatementAgrees policy t types s) ∧
    ∀ b : Block, f.BlockAgrees policy t types b := by
  apply Stmt.induct
  case assign =>
    exact fun name index target value span => h.statement_assign name index target value span
  case call => exact fun name arguments span => h.statement_call name arguments span
  case branch => exact fun condition _ _ span hy hn => h.statement_branch condition span hy hn
  case loop => exact fun guard _ span hb => h.statement_loop guard span hb
  case ret => exact fun value span => h.statement_ret value span
  case jump => exact fun j span => h.statement_jump j span
  case mk => exact fun vars _ span ih => blockAgrees_mk vars span ih

end Checked

section Program

variable {policy : Policy} {f : Forest} {p : Program} {types : Types}
  (h : f.Checked policy p.tree types)

include h

theorem Checked.return?_eq {s : Stmt} {m : Nat} {above : List Tree}
    (hp : p.tree.Path above (s.tree m)) :
    (f.return? (s.tree m).id).map (fun r => (r.1.map types.get, r.2)) =
      s.returned? (Tree.around policy above) := by
  obtain ⟨node, hn, hk, hspan⟩ := h.carries.node hp.mem
  obtain ⟨kind, span, parent, table⟩ := node
  obtain rfl : kind = (s.tree m).kind := hk
  obtain rfl : span = (s.tree m).span := hspan
  rw [return?, hn]
  rcases s with _ | _ | ⟨_, _, _ | _, _⟩ | _ | ⟨value, span⟩ | _
  case ret =>
    cases value with
    | none => rfl
    | some e =>
      obtain ⟨hs, -⟩ := (h.agrees e).child hp rfl (List.mem_singleton_self _)
      have hget : types.get (e.tree m).id = e.type (Tree.around policy above) :=
        congrArg Prod.fst hs
      simp only [Stmt.returned?, Option.map_some, ← hget]
      rfl
  all_goals rfl

/-- The returns of a function are found among the nodes of its body's statements. -/
theorem Checked.returned_eq {g : Function} {n : Nat} {above : List Tree}
    (hp : p.tree.Path above (g.tree n)) :
    ∃ vars statements, (g.body.tree n).kind = .block vars statements ∧
      (statements.filterMap f.return?).map (fun r => (r.1.map types.get, r.2)) =
        g.returned policy (Tree.around policy above) := by
  obtain ⟨vars, ts, hk, hts, hmem⟩ := g.body.each_statements n
  refine ⟨vars, ts.map Tree.id, hk, ?_⟩
  have hb := hp.child (List.mem_singleton_self (g.body.tree n))
  have haround : Tree.around policy (g.body.tree n :: g.tree n :: above) =
      g.body.scope policy :: g.scope :: Tree.around policy above := by
    rw [Tree.around_block _ _ (by rw [Tree.around_function]; exact List.cons_ne_nil _ _),
      Tree.around_function]
  have hret : ts.map (fun c => (f.return? c.id).map fun r => (r.1.map types.get, r.2)) =
      g.body.statements.map (Stmt.returned?
        (g.body.scope policy :: g.scope :: Tree.around policy above)) :=
    hts.map_eq fun s _ m hm => (h.return?_eq (hb.child (hmem _ hm))).trans (by rw [haround])
  have hfound := congrArg (List.filterMap id) hret
  rw [List.filterMap_map, List.filterMap_map] at hfound
  rw [List.map_filterMap, List.filterMap_map]
  exact hfound

theorem Checked.function {g : Function} {n : Nat} {y : Tree} {above : List Tree}
    (hp : p.tree.Path (y :: above) (g.tree n)) :
    f.logs types (g.tree n) = g.log policy (Tree.around policy (y :: above)) := by
  have hb := hp.child (List.mem_singleton_self (g.body.tree n))
  have hbody : f.logs types (g.body.tree n) =
      g.body.log policy (g.scope :: Tree.around policy (y :: above)) false := by
    have hs := h.statement_and.2 g.body n _ hb
      (by rw [Tree.around_function]; exact List.cons_ne_nil _ _)
    rwa [Tree.around_function] at hs
  obtain ⟨vars, statements, hk, hreturned⟩ := h.returned_eq hp
  rw [logs_eq, h.judge_function hp hk, checkReturns_eq, hreturned, Function.log, ← hbody]
  exact congrArg (· ++ _) (List.flatMap_singleton ..)

theorem Checked.main?_eq {g : Function} {n : Nat} (hx : g.tree n ∈ p.tree.subtrees) :
    f.main? (g.tree n).id = g.main? := by
  obtain ⟨node, hn, hk, hspan⟩ := h.carries.node hx
  obtain ⟨kind, span, parent, table⟩ := node
  obtain rfl : kind = (g.tree n).kind := hk
  obtain rfl : span = (g.tree n).span := hspan
  rw [main?, hn]
  rfl

/-- The problems found in the forest of a program are those of the program. -/
theorem Checked.program : f.logs types p.tree = p.typeLog policy := by
  have hvars : (Declaration.variableTrees 0 p.declarations).flatMap (f.logs types) = [] := by
    rw [List.flatMap_eq_nil_iff]
    intro c hc
    obtain ⟨v, -, m, rfl⟩ := p.each_vars.mem hc
    rfl
  have hchild : ∀ c ∈ Declaration.functionTrees 0 p.declarations, c ∈ p.tree.children :=
    fun c hc => List.mem_append_right _ hc
  have hfunctions : (Declaration.functionTrees 0 p.declarations).flatMap (f.logs types) =
      p.functions.flatMap (Function.log policy [p.scope policy]) := by
    refine p.each_functions.flatMap_eq fun g _ m hm => ?_
    rw [h.function (Tree.Path.root.child (hchild _ hm)), Tree.around_program]
  have hmains : ((Declaration.functionTrees 0 p.declarations).map Tree.id).filterMap f.main? =
      p.functions.filterMap Function.main? := by
    have hmap : (Declaration.functionTrees 0 p.declarations).map (fun c => f.main? c.id) =
        p.functions.map Function.main? :=
      p.each_functions.map_eq fun g _ m hm => h.main?_eq (Tree.child_mem_subtrees (hchild _ hm))
    have hfound := congrArg (List.filterMap id) hmap
    rw [List.filterMap_map, List.filterMap_map] at hfound
    rw [List.filterMap_map]
    exact hfound
  have hjudge : (f.judge types p.tree).log = (p.functions.filterMap Function.main?).flatten
      ++ Verdict.require (!(p.functions.filterMap Function.main?).isEmpty) .missingMain p.span := by
    rw [← hmains]
    rfl
  rw [logs_eq, hjudge, Program.typeLog, ← hfunctions]
  refine congrArg (· ++ _) ?_
  have hcs : p.tree.children = Declaration.variableTrees 0 p.declarations
    ++ Declaration.functionTrees 0 p.declarations := rfl
  rw [hcs, List.flatMap_append, hvars, List.nil_append]

end Program

end Forest

end DecafCheck
