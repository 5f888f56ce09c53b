import DecafCheck.Proofs.Scope.Behind
import DecafCheck.Typing.Check

namespace DecafCheck

namespace Forest

section Nodes

variable (f : Forest) (old : Tables) (types : Types)

theorem indexProblems_behind : (f.behind old).indexProblems types = f.indexProblems types := by
  funext s span index
  rw [indexProblems, spanOf_behind]
  rfl

theorem argumentProblems_behind (name : String) (position : Nat) (arguments : List NodeId)
    (parameters : List DataType) :
    (f.behind old).argumentProblems types name position arguments parameters =
      f.argumentProblems types name position arguments parameters := by
  induction arguments generalizing position parameters with
  | nil => rfl
  | cons argument arguments ih =>
    cases parameters with
    | nil => rfl
    | cons parameter parameters => rw [argumentProblems, argumentProblems, spanOf_behind, ih]

theorem checkTest_behind (place : Test) (id : NodeId) :
    (f.behind old).checkTest types place id = f.checkTest types place id := by
  rw [checkTest, spanOf_behind]
  rfl

theorem inLoopBody_behind (id : NodeId) : (f.behind old).inLoopBody id = f.inLoopBody id := by
  have hkind : (f.behind old).kindOf? = f.kindOf? := funext (f.kindOf?_behind old)
  unfold inLoopBody
  simp only [parentOf?_behind, hkind]

theorem return?_behind (id : NodeId) : (f.behind old).return? id = f.return? id := by
  unfold return?
  rw [node?_behind]
  cases f.node? id with
  | none => rfl
  | some x =>
    obtain ⟨kind, span, parent, table⟩ := x
    cases kind <;> rfl

theorem main?_behind (id : NodeId) : (f.behind old).main? id = f.main? id := by
  unfold main?
  rw [node?_behind]
  cases f.node? id with
  | none => rfl
  | some x =>
    obtain ⟨kind, span, parent, table⟩ := x
    cases kind <;> rfl

theorem checkProgram_behind (functions : List NodeId) (span : Span) :
    (f.behind old).checkProgram functions span = f.checkProgram functions span := by
  rw [checkProgram, funext (f.main?_behind old)]
  rfl

end Nodes

namespace Chained

variable {f : Forest} (h : f.Chained) (old : Tables) (types : Types)

include h

theorem checkLocation_behind (id : NodeId) (span : Span) (name : String) (index : Option NodeId) :
    (f.behind old).checkLocation types id span name index =
      f.checkLocation types id span name index := by
  unfold checkLocation
  rw [nearestTable_behind, indexProblems_behind]
  cases hk : f.nearestTable id with
  | none => rfl
  | some k =>
    obtain ⟨scopes, hc⟩ := h.of_nearestTable hk
    have hlookup : (f.behind old).tables.lookup (old.size + k) name = f.tables.lookup k name :=
      hc.lookup_behind old name
    dsimp only [Option.map_some]
    rw [hlookup]

theorem checkCall_behind (id : NodeId) (kind : Kind) (span : Span) (name : String)
    (arguments : List NodeId) :
    (f.behind old).checkCall types id kind span name arguments =
      f.checkCall types id kind span name arguments := by
  unfold checkCall
  rw [nearestTable_behind, funext (f.argumentProblems_behind old types name 1 arguments)]
  cases hk : f.nearestTable id with
  | none => rfl
  | some k =>
    -- both ways out end at a table with the symbols of the outermost scope
    obtain ⟨scopes, hc⟩ := h.of_nearestTable hk
    obtain ⟨parent, hglobals⟩ := hc.outermost_eq
    obtain ⟨parent', hglobals'⟩ := (hc.behind old).outermost_eq
    have hbehind : ((f.behind old).tables.outermost (old.size + k) >>= (f.behind old).tables.get) =
        _ := hglobals'
    dsimp only [Option.map_some]
    rw [hglobals, hbehind]
    rfl

/-- The table around a function's own moves with it and stays at the inner end of a chain. -/
theorem tableAround?_behind (id : NodeId) :
    (f.behind old).tableAround? id = (f.tableAround? id).map (old.size + ·) ∧
      ∀ k, f.tableAround? id = some k → ∃ scopes, f.tables.Chain k scopes := by
  unfold tableAround?
  rw [node?_behind]
  cases hx : f.node? id with
  | none => exact ⟨rfl, fun _ hk => by cases hk⟩
  | some x =>
    dsimp only [Option.map_some, Node.raised, bind, Option.bind]
    cases ht : x.table with
    | none => exact ⟨rfl, fun _ hk => by cases hk⟩
    | some own =>
      obtain ⟨scopes, hc⟩ := h id own (by rw [tableOf?, hx, Option.bind_some, ht])
      obtain ⟨table, htable, hget, hbehind⟩ := hc.get_behind old
      have hbehind : (f.behind old).tables.get (old.size + own) = .ok (table.raised old.size) :=
        hbehind
      dsimp only [Option.map_some]
      rw [hget, hbehind]
      exact ⟨rfl, fun k hk => hc.around htable hk⟩

theorem checkFunction_behind (id : NodeId) (span : Span) (name : String) (returns : DataType)
    (body : NodeId) :
    (f.behind old).checkFunction types id span name returns body =
      f.checkFunction types id span name returns body := by
  obtain ⟨haround, hchain⟩ := h.tableAround?_behind old id
  unfold checkFunction
  rw [haround, kindOf?_behind, funext (f.return?_behind old)]
  cases hk : f.tableAround? id with
  | none => rfl
  | some k =>
    obtain ⟨scopes, hc⟩ := hchain k hk
    have hlookup : (f.behind old).tables.lookup (old.size + k) name = f.tables.lookup k name :=
      hc.lookup_behind old name
    dsimp only [Option.map_some]
    rw [hlookup]

/-- A node is judged the same behind older tables. -/
theorem verdict_behind (id : NodeId) (span : Span) (kind : Kind) :
    (f.behind old).verdict types id span kind = f.verdict types id span kind := by
  cases kind with
  | program vars functions => exact f.checkProgram_behind old functions span
  | function name returns parameters body =>
    exact h.checkFunction_behind old types id span name returns body
  | conditional condition yes no => exact f.checkTest_behind old types .condition condition
  | whileLoop guard body => exact f.checkTest_behind old types .guard guard
  | jump j =>
    rw [verdict, inLoopBody_behind]
    rfl
  | callStatement name arguments =>
    rw [verdict, h.checkCall_behind]
    rfl
  | call name arguments => exact h.checkCall_behind old types id _ span name arguments
  | location name index => exact h.checkLocation_behind old types id span name index
  | _ => rfl

/-- Types are checked the same behind older tables. -/
theorem checkTypes_behind (before : Types) :
    (f.behind old).checkTypes before = f.checkTypes before := by
  have hvisit : Typing.visit (f.behind old) = Typing.visit f := by
    funext t step
    cases step with
    | enter id kind span => rfl
    | leave id kind span =>
      dsimp only [Typing.visit]
      rw [h.verdict_behind]
    | broken e => rfl
  have hroot : (f.behind old).root = f.root := rfl
  unfold checkTypes
  rw [hroot, hvisit, funext (f.tour_behind old)]

end Chained

end Forest

end DecafCheck
