import DecafCheck.Analysis.Basic
import DecafCheck.Proofs.Scope.Bare
import DecafCheck.Proofs.Typing.Sketched

namespace DecafCheck

namespace Tables

variable (t : Tables)

theorem lookupWithin_bare (name : String) (steps : Nat) (id : TableId) :
    t.bare.lookupWithin name steps id =
      (t.lookupWithin name steps id).map (Symbol.moved .forget) := by
  induction steps generalizing id with
  | zero => rfl
  | succ steps ih =>
    rw [lookupWithin, lookupWithin, getElem?_bare, size_bare]
    cases t.tables[id]? with
    | none => rfl
    | some table =>
      have hfind : table.bare.find? name = (table.find? name).map (Symbol.moved .forget) :=
        declared?_bareScope table.symbols name
      dsimp only [Option.map_some]
      rw [hfind, show table.bare.parent = table.parent from rfl]
      cases table.find? name with
      | some s => rfl
      | none =>
        cases table.parent with
        | none => rfl
        | some parent => exact ih parent

theorem lookup_bare (id : TableId) (name : String) :
    t.bare.lookup id name = (t.lookup id name).map (Symbol.moved .forget) := by
  rw [lookup, size_bare]
  exact t.lookupWithin_bare name _ id

theorem outermostWithin_bare (steps : Nat) (id : TableId) :
    t.bare.outermostWithin steps id = t.outermostWithin steps id := by
  induction steps generalizing id with
  | zero => rfl
  | succ steps ih =>
    rw [outermostWithin, outermostWithin, get_bare]
    cases t.get id with
    | error e => rfl
    | ok table =>
      have hparent : table.bare.parent = table.parent := rfl
      dsimp only [Except.map, bind, Except.bind]
      rw [hparent]
      cases table.parent with
      | none => rfl
      | some parent => exact ih parent

theorem outermost_bare (id : TableId) : t.bare.outermost id = t.outermost id := by
  rw [outermost, size_bare]
  exact t.outermostWithin_bare _ id

end Tables

/-- A verdict without its spans. -/
def Verdict.bare (v : Verdict) : Verdict :=
  ⟨v.log.map (Diagnostic.moved .forget), v.type, v.stop.map Stop.bare⟩

namespace Forest

variable (f : Forest) (types : Types)

theorem spanOf_bare (id : NodeId) : f.bare.spanOf id = Span.forget (f.spanOf id) := by
  rw [spanOf, node?_bare]
  cases f.node? id <;> rfl

theorem kindOf?_bare (id : NodeId) : f.bare.kindOf? id = (f.kindOf? id).map Kind.bare := by
  rw [kindOf?, kindOf?, node?_bare, Option.map_map, Option.map_map]
  rfl

theorem parentOf?_bare (id : NodeId) : f.bare.parentOf? id = f.parentOf? id := by
  rw [parentOf?, parentOf?, node?_bare]
  cases f.node? id <;> rfl

theorem nearestTableWithin_bare (steps : Nat) (id : NodeId) :
    f.bare.nearestTableWithin steps id = f.nearestTableWithin steps id := by
  induction steps generalizing id with
  | zero => rfl
  | succ steps ih =>
    rw [nearestTableWithin, nearestTableWithin, node?_bare]
    cases f.node? id with
    | none => rfl
    | some n =>
      dsimp only [Option.map_some, Node.bare, bind, Option.bind]
      cases n.table with
      | some t => rfl
      | none =>
        cases n.parent with
        | none => rfl
        | some parent => exact ih parent

theorem nearestTable_bare (id : NodeId) : f.bare.nearestTable id = f.nearestTable id := by
  rw [nearestTable, size_bare]
  exact f.nearestTableWithin_bare _ id

theorem tableAround?_bare (id : NodeId) : f.bare.tableAround? id = f.tableAround? id := by
  have hget (own : TableId) : f.bare.tables.get own = (f.tables.get own).map Table.bare :=
    f.tables.get_bare own
  unfold tableAround?
  rw [node?_bare]
  cases f.node? id with
  | none => rfl
  | some n =>
    show (n.table >>= fun own => _ : Option TableId) = n.table >>= _
    cases n.table with
    | none => rfl
    | some own =>
      dsimp only [bind, Option.bind]
      rw [hget]
      cases f.tables.get own <;> rfl

theorem indexProblems_bare (s : Symbol) (span : Span) (index : NodeId) :
    f.bare.indexProblems types (s.moved .forget) .nowhere index =
      (f.indexProblems types s span index).map (Diagnostic.moved .forget) := by
  unfold indexProblems
  rw [spanOf_bare]
  split
  · rfl
  · exact (moved_require .forget _ _ span).symm

theorem checkLocation_bare (id : NodeId) (span : Span) (name : String) (index : Option NodeId) :
    f.bare.checkLocation types id .nowhere name index =
      (f.checkLocation types id span name index).bare := by
  unfold checkLocation
  rw [nearestTable_bare]
  cases f.nearestTable id with
  | none => rfl
  | some table =>
    dsimp only
    rw [show f.bare.tables.lookup table name = _ from f.tables.lookup_bare table name]
    cases f.tables.lookup table name with
    | error e => cases e <;> rfl
    | ok s =>
      dsimp only [Except.map, Verdict.bare]
      rw [List.map_flatMap, List.flatMap_congr fun i _ => f.indexProblems_bare types s span i]
      rfl

theorem argumentProblems_bare (name : String) (position : Nat) (arguments : List NodeId)
    (parameters : List DataType) :
    f.bare.argumentProblems types name position arguments parameters =
      (f.argumentProblems types name position arguments parameters).map
        (Diagnostic.moved .forget) := by
  induction arguments generalizing position parameters with
  | nil => rfl
  | cons argument arguments ih =>
    cases parameters with
    | nil => rfl
    | cons parameter parameters =>
      rw [argumentProblems, argumentProblems, List.map_append, moved_require, spanOf_bare, ih]

theorem checkCall_bare (id : NodeId) (kind : Kind) (span : Span) (name : String)
    (arguments : List NodeId) :
    f.bare.checkCall types id kind .nowhere name arguments =
      (f.checkCall types id kind span name arguments).bare := by
  unfold checkCall
  rw [nearestTable_bare]
  cases f.nearestTable id with
  | none => rfl
  | some table =>
    have hglobals : (f.bare.tables.outermost table >>= f.bare.tables.get) =
        (f.tables.outermost table >>= f.tables.get).map Table.bare := by
      rw [show f.bare.tables.outermost table = _ from f.tables.outermost_bare table]
      cases f.tables.outermost table with
      | error e => rfl
      | ok outer => exact f.tables.get_bare outer
    dsimp only
    rw [hglobals]
    cases f.tables.outermost table >>= f.tables.get with
    | error e => rfl
    | ok globals =>
      dsimp only [Except.map]
      rw [show globals.bare.find? name = (globals.find? name).map (Symbol.moved .forget) from
        declared?_bareScope globals.symbols name]
      cases globals.find? name with
      | none => rfl
      | some s =>
        dsimp only [Option.map_some]
        rw [show (s.moved .forget).isFunction = s.isFunction from rfl]
        split
        · dsimp only [Verdict.bare]
          rw [List.map_append, moved_require, ← argumentProblems_bare]
          rfl
        · rfl

theorem inLoopBody_bare (id : NodeId) : f.bare.inLoopBody id = f.inLoopBody id := by
  unfold inLoopBody
  rw [parentOf?_bare]
  cases f.parentOf? id with
  | none => rfl
  | some block =>
    have habove : (f.bare.parentOf? block).bind f.bare.kindOf? =
        ((f.parentOf? block).bind f.kindOf?).map Kind.bare := by
      rw [parentOf?_bare, Option.map_bind]
      exact congrArg _ (funext f.kindOf?_bare)
    dsimp only
    rw [habove, kindOf?_bare]
    cases f.kindOf? block with
    | none => rfl
    | some k =>
      cases (f.parentOf? block).bind f.kindOf? with
      | none => cases k <;> rfl
      | some l => cases k <;> cases l <;> rfl

theorem checkReturn_bare (name : String) (returns : DataType) (value : Option NodeId)
    (span : Span) :
    checkReturn types name returns value .nowhere =
      (checkReturn types name returns value span).map (Diagnostic.moved .forget) := by
  unfold checkReturn
  split
  · rfl
  · rfl
  · exact (moved_require .forget _ _ span).symm

theorem checkReturns_bare (name : String) (returns : DataType)
    (found : List (Option NodeId × Span)) :
    checkReturns types name returns (found.map (Prod.map id Span.forget)) =
      (checkReturns types name returns found).map (Diagnostic.moved .forget) := by
  cases found with
  | nil => rfl
  | cons r rest =>
    rw [List.map_cons, checkReturns, checkReturns, List.map_append, List.map_flatMap,
      List.flatMap_map]
    refine congrArg₂ _ (checkReturn_bare types name returns r.1 r.2)
      (List.flatMap_congr fun q _ => ?_)
    rw [List.map_cons, ← checkReturn_bare]
    rfl

theorem return?_bare (node : NodeId) :
    f.bare.return? node = (f.return? node).map (Prod.map id Span.forget) := by
  unfold return?
  rw [node?_bare]
  cases f.node? node with
  | none => rfl
  | some n => obtain ⟨kind, span, parent, table⟩ := n; cases kind <;> rfl

theorem main?_bare (id : NodeId) :
    f.bare.main? id = (f.main? id).map (List.map (Diagnostic.moved .forget)) := by
  unfold main?
  rw [node?_bare]
  cases f.node? id with
  | none => rfl
  | some n =>
    obtain ⟨kind, span, parent, table⟩ := n
    cases kind with
    | function name returns parameters body =>
      dsimp only [Option.map_some, Node.bare, Kind.bare]
      split
      · simp only [checkMain, Option.map_some, List.map_append, moved_require, List.isEmpty_map]
        rfl
      · rfl
    | _ => rfl

theorem checkFunction_bare (node : NodeId) (span : Span) (name : String) (returns : DataType)
    (body : NodeId) :
    f.bare.checkFunction types node .nowhere name returns body =
      (f.checkFunction types node span name returns body).bare := by
  unfold checkFunction
  rw [tableAround?_bare]
  cases f.tableAround? node with
  | none => rfl
  | some table =>
    have hconflict : (f.bare.tables.lookup table name).toOption.any Symbol.isFunction =
        (f.tables.lookup table name).toOption.any Symbol.isFunction := by
      rw [show f.bare.tables.lookup table name = _ from f.tables.lookup_bare table name]
      cases f.tables.lookup table name <;> rfl
    have hreturns (statements : List NodeId) :
        statements.filterMap f.bare.return? =
        (statements.filterMap f.return?).map (Prod.map id Span.forget) := by
      rw [List.map_filterMap]
      exact congrArg (fun g => statements.filterMap g) (funext f.return?_bare)
    dsimp only
    rw [hconflict, kindOf?_bare]
    cases f.kindOf? body with
    | none =>
      dsimp only [Option.map_none, Verdict.bare]
      rw [moved_require]
      rfl
    | some k =>
      cases k with
      | block vars statements =>
        dsimp only [Option.map_some, Kind.bare, Verdict.bare]
        rw [hreturns, checkReturns_bare, List.map_append, moved_require]
        rfl
      | _ =>
        dsimp only [Option.map_some, Kind.bare, Verdict.bare]
        rw [moved_require]
        rfl

theorem checkProgram_bare (functions : List NodeId) (span : Span) :
    f.bare.checkProgram functions .nowhere = (f.checkProgram functions span).bare := by
  have hmains : functions.filterMap f.bare.main? =
      (functions.filterMap f.main?).map (List.map (Diagnostic.moved .forget)) := by
    rw [List.map_filterMap]
    exact congrArg (fun g => functions.filterMap g) (funext f.main?_bare)
  unfold checkProgram
  dsimp only [Verdict.bare]
  rw [hmains, List.isEmpty_map, List.map_append, moved_require, List.map_flatten]
  rfl

/-- The verdict on a node without its spans is the verdict on the node, but for the spans in it. -/
theorem verdict_bare (id : NodeId) (span : Span) (k : Kind) :
    f.bare.verdict types id .nowhere k.bare = (f.verdict types id span k).bare := by
  cases k with
  | program vars functions => exact f.checkProgram_bare functions span
  | function name returns parameters body =>
    exact f.checkFunction_bare types id span name returns body
  | assignment target value =>
    dsimp only [Kind.bare, verdict, checkAssignment, Verdict.bare]
    rw [moved_require]
    rfl
  | conditional condition yes no =>
    dsimp only [Kind.bare, verdict, checkTest, Verdict.bare]
    rw [moved_require, spanOf_bare]
    rfl
  | whileLoop guard body =>
    dsimp only [Kind.bare, verdict, checkTest, Verdict.bare]
    rw [moved_require, spanOf_bare]
    rfl
  | jump j =>
    dsimp only [Kind.bare, verdict, Verdict.bare]
    rw [moved_require, inLoopBody_bare]
    rfl
  | callStatement name arguments =>
    dsimp only [Kind.bare, verdict]
    rw [checkCall_bare f types id _ span]
    rfl
  | binary op left right =>
    dsimp only [Kind.bare, verdict, Verdict.ofBinary]
    cases op.infer (types.get left) (types.get right) <;> rfl
  | unary op operand =>
    dsimp only [Kind.bare, verdict, Verdict.ofUnary, Verdict.bare]
    rw [moved_require]
    rfl
  | call name arguments => exact f.checkCall_bare types id _ span name arguments
  | location name index => exact f.checkLocation_bare types id span name index
  | _ => rfl

end Forest

/-- A walk in progress without its spans. -/
def Typing.bare (t : Typing) : Typing :=
  ⟨t.types, t.log.map (Diagnostic.moved .forget)⟩

theorem Typing.visit_bare (f : Forest) (t : Typing) (step : Step) :
    visit f.bare t.bare step.bare = Prod.map bare (Option.map Stop.bare) (visit f t step) := by
  cases step with
  | enter id kind span => rfl
  | leave id kind span =>
    dsimp only [Step.bare, visit]
    rw [show t.bare.types = t.types from rfl, f.verdict_bare t.types id span kind]
    refine Prod.ext ?_ rfl
    dsimp only [add, bare, Verdict.bare, Prod.map_fst]
    rw [List.map_append]
  | broken e => rfl

theorem Forest.checkTypes_bare (f : Forest) (before : Types) :
    f.bare.checkTypes before = ⟨(f.checkTypes before).value,
      (f.checkTypes before).log.map (Diagnostic.moved .forget),
        (f.checkTypes before).stop.map Stop.bare⟩ := by
  have hroot : f.bare.root = f.root := rfl
  unfold checkTypes
  rw [hroot]
  cases f.root with
  | none => rfl
  | some root =>
    have hwalk := follow_map (Typing.visit_bare f) {} (f.tour root)
    rw [← f.tour_bare root] at hwalk
    exact congrArg (fun r : Typing × Option Stop => (⟨r.1.types, r.1.log, r.2⟩ : Outcome Types))
      hwalk

/-- Spans have no say in an analysis. -/
theorem Forest.analyze_bare (policy : Policy) (f : Forest) :
    f.bare.analyze policy = ⟨Prod.map bare id (f.analyze policy).value,
      (f.analyze policy).log.map (Diagnostic.moved .forget),
        (f.analyze policy).stop.map Stop.bare⟩ := by
  unfold analyze
  rw [buildScopes_bare]
  obtain ⟨g, log, _ | stop⟩ := f.buildScopes policy
  · simp only [Option.map_none, checkTypes_bare, Prod.map_apply, id, List.map_append]
  · rfl

end DecafCheck
