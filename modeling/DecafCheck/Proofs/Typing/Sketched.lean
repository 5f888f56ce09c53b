import DecafCheck.Proofs.Scope.Sketched
import DecafCheck.Proofs.Typing.Alongside

namespace DecafCheck

section Logs

variable (φ : Span → Span)

theorem moved_require (condition : Bool) (p : Problem) (span : Span) :
    (Verdict.require condition p span).map (Diagnostic.moved φ) =
      Verdict.require condition p (φ span) := by
  cases condition <;> rfl

theorem Expr.moved_indexLog (s : Symbol) (span : Span) (part : InferredType × Span) :
    (indexLog s span part).map (Diagnostic.moved φ) = indexLog s (φ span) (part.map id φ) := by
  unfold indexLog
  simp only [Prod.map_fst, id_eq, Prod.map_snd]
  split
  · rfl
  · exact moved_require φ _ _ span

theorem Expr.moved_argumentLog (name : String) (position : Nat) (parts : List (InferredType × Span))
    (parameters : List DataType) :
    (argumentLog name position parts parameters).map (Diagnostic.moved φ) =
      argumentLog name position (parts.map (Prod.map id φ)) parameters := by
  induction parts generalizing position parameters with
  | nil => cases parameters <;> rfl
  | cons part parts ih =>
    cases parameters with
    | nil => rfl
    | cons parameter parameters =>
      rw [argumentLog, List.map_append, moved_require, ih]
      rfl

theorem Function.moved_returnLog (name : String) (returns : DataType) (value : Option InferredType)
    (span : Span) :
    (returnLog name returns value span).map (Diagnostic.moved φ) =
      returnLog name returns value (φ span) := by
  unfold returnLog
  split
  · rfl
  · rfl
  · exact moved_require φ _ _ span

theorem Function.moved_returnsLog (name : String) (returns : DataType)
    (returned : List (Option InferredType × Span)) :
    (returnsLog name returns returned).map (Diagnostic.moved φ) =
      returnsLog name returns (returned.map (Prod.map id φ)) := by
  cases returned with
  | nil => rfl
  | cons r rest =>
    rw [List.map_cons, returnsLog, returnsLog, List.map_append, moved_returnLog, List.map_flatMap,
      List.flatMap_map]
    refine congrArg _ (List.flatMap_congr fun q _ => ?_)
    rw [List.map_cons, moved_returnLog]
    rfl

end Logs

namespace Verdict

def moved (φ : Span → Span) (v : Verdict) : Verdict :=
  { v with log := v.log.map (Diagnostic.moved φ) }

variable (φ : Span → Span) (scopes : Scopes) (parts : List (InferredType × Span)) (span : Span)

theorem moved_test (place : Test) (part : InferredType × Span) :
    (test place part).map (Diagnostic.moved φ) = test place (part.map id φ) :=
  moved_require φ _ _ part.2

theorem moved_ofBinary (op : BinaryOp) (left right : InferredType) :
    (ofBinary op left right span).moved φ = ofBinary op left right (φ span) := by
  unfold ofBinary
  cases op.infer left right <;> rfl

theorem moved_ofAssignment :
    (ofAssignment parts span).moved φ = ofAssignment (parts.map (Prod.map id φ)) (φ span) := by
  rcases parts with _ | ⟨target, _ | ⟨value, _ | _⟩⟩
  case cons.cons.nil =>
    simp only [ofAssignment, moved, moved_require, List.map_cons, List.map_nil, Prod.map_fst, id_eq]
  all_goals rfl

theorem moved_ofOperands (op : BinaryOp) :
    (ofOperands op parts span).moved φ = ofOperands op (parts.map (Prod.map id φ)) (φ span) := by
  rcases parts with _ | ⟨left, _ | ⟨right, _ | _⟩⟩
  case cons.cons.nil => exact moved_ofBinary φ span op left.1 right.1
  all_goals rfl

theorem moved_ofOperand (op : UnaryOp) :
    (ofOperand op parts span).moved φ = ofOperand op (parts.map (Prod.map id φ)) (φ span) := by
  rcases parts with _ | ⟨operand, _ | _⟩
  case cons.nil =>
    simp only [ofOperand, ofUnary, moved, moved_require, List.map_cons, List.map_nil,
      Prod.map_fst, id_eq]
  all_goals rfl

theorem moved_ofCall (name : String) :
    (ofCall scopes name parts span).moved φ =
      ofCall scopes name (parts.map (Prod.map id φ)) (φ span) := by
  unfold ofCall
  cases declared? scopes.globals name with
  | none => rfl
  | some s =>
    dsimp only
    split
    · simp only [moved, List.map_append, moved_require, Expr.moved_argumentLog, List.length_map]
    · rfl

theorem moved_ofLocation (name : String) :
    (ofLocation scopes name parts span).moved φ =
      ofLocation scopes name (parts.map (Prod.map id φ)) (φ span) := by
  unfold ofLocation
  cases scopes.find? name with
  | none => rfl
  | some s => simp only [moved, List.map_flatMap, Expr.moved_indexLog, List.flatMap_map]

end Verdict

namespace Kind

variable (scopes : Scopes) (inBody : Bool) (parts : List (InferredType × Span))
  (returned : List (Option InferredType × Span)) (span : Span) (k : Kind)

/-- The spans of the scopes around a construct do not count. -/
theorem verdict_bare :
    k.verdict scopes.bare inBody parts returned span =
      k.verdict scopes inBody parts returned span := by
  have hcall (name : String) :
      Verdict.ofCall scopes.bare name parts span = .ofCall scopes name parts span := by
    rw [Verdict.ofCall, Verdict.ofCall, scopes.globals_bare, declared?_bareScope]
    cases declared? scopes.globals name <;> rfl
  cases k with
  | function name returns parameters body =>
    rw [verdict, verdict, scopes.find?_bare, Option.any_map]
    rfl
  | callStatement name arguments => rw [verdict, verdict, hcall]
  | call name arguments => exact hcall name
  | location name index =>
    rw [verdict, verdict, Verdict.ofLocation, Verdict.ofLocation, scopes.find?_bare]
    cases scopes.find? name <;> rfl
  | _ => rfl

/-- The verdict on the sketch of a construct. -/
theorem verdict_sketch (φ : Span → Span) : (k.verdict scopes inBody parts returned span).moved φ =
    (k.sketch φ).verdict scopes inBody (parts.map (Prod.map id φ))
      (returned.map (Prod.map id φ)) (φ span) := by
  have htest (place : Test) : (parts.head?.toList.flatMap (Verdict.test place)).map
      (Diagnostic.moved φ) =
      (parts.map (Prod.map id φ)).head?.toList.flatMap (Verdict.test place) := by
    cases parts with
    | nil => rfl
    | cons part parts => simp [Verdict.moved_test]
  cases k with
  | function name returns parameters body =>
    simp only [verdict, sketch, Verdict.moved, List.map_append, moved_require,
      Function.moved_returnsLog]
  | assignment => exact Verdict.moved_ofAssignment φ parts span
  | conditional => simp only [verdict, sketch, Verdict.moved, htest]
  | whileLoop => simp only [verdict, sketch, Verdict.moved, htest]
  | jump j => simp only [verdict, sketch, Verdict.moved, moved_require]
  | callStatement name arguments =>
    have hcall := Verdict.moved_ofCall φ scopes parts span name
    simp only [verdict, sketch, ← hcall]
    rfl
  | binary op => exact Verdict.moved_ofOperands φ parts span op
  | unary op => exact Verdict.moved_ofOperand φ parts span op
  | call name arguments => exact Verdict.moved_ofCall φ scopes parts span name
  | location name index => exact Verdict.moved_ofLocation φ scopes parts span name
  | _ => rfl

end Kind

namespace Tree

variable {policy : Policy} {φ φ' : Span → Span}

/-- Two places that cannot be told apart: the trees have the same sketch, and so does what counts
around them. -/
structure SketchedAt (policy : Policy) (φ φ' : Span → Span) (above : List Tree) (x : Tree)
    (above' : List Tree) (x' : Tree) : Prop where
  sketch : x.sketch φ = x'.sketch φ'
  around : (around policy above).bare = (around policy above').bare
  inLoop : inLoop above = inLoop above'
  inBody : inBody above = inBody above'

theorem inLoop_sketch (φ : Span → Span) (x : Tree) (above above' : List Tree) :
    inLoop (x :: above) = inLoop (x.sketch φ :: above') := by
  rw [inLoop, inLoop, kind_sketch]
  cases x.kind <;> rfl

theorem inBody_sketch (φ : Span → Span) (x : Tree) {above above' : List Tree}
    (h : inLoop above = inLoop above') :
    inBody (x :: above) = inBody (x.sketch φ :: above') := by
  rw [inBody, inBody, kind_sketch, h]
  cases x.kind <;> rfl

theorem around_sketch (φ : Span → Span) (x : Tree) {above above' : List Tree}
    (h : (around policy above).bare = (around policy above').bare) :
    (around policy (x :: above)).bare = (around policy (x.sketch φ :: above')).bare := by
  have hstorage : storageIn (around policy above) = storageIn (around policy above') := by
    have hnil : around policy above = [] ↔ around policy above' = [] := by
      rw [← Scopes.bare_eq_nil, h, Scopes.bare_eq_nil]
    simp only [storageIn, hnil]
  rw [around, around, kind_sketch, Kind.opensScope_sketch, hstorage, ← symbols_sketch]
  split
  · rw [Scopes.bare_cons, Scopes.bare_cons, bareScope_moved, h]
  · exact h

theorem SketchedAt.child {above above' : List Tree} {x x' c c' : Tree}
    (h : SketchedAt policy φ φ' above x above' x') (hc : c.sketch φ = c'.sketch φ') :
    SketchedAt policy φ φ' (x :: above) c (x' :: above') c' where
  sketch := hc
  around := by rw [around_sketch φ x h.around, h.sketch, ← around_sketch φ' x' rfl]
  inLoop := by rw [inLoop_sketch φ x above above', h.sketch, ← inLoop_sketch φ' x' above' above']
  inBody := by rw [inBody_sketch φ x h.inLoop, h.sketch, ← inBody_sketch φ' x' rfl]

theorem isReturn_sketch (φ : Span → Span) (k : Kind) : (k.sketch φ).isReturn = k.isReturn := by
  cases k <;> rfl

/-- The checks cannot tell such places apart either. -/
theorem alongside_sketched (policy : Policy) (φ φ' : Span → Span) :
    Alongside policy φ φ' (Diagnostic.moved φ) (Diagnostic.moved φ') (SketchedAt policy φ φ') where
  span {_ _ x x'} h := by rw [← span_sketch φ x, h.sketch, span_sketch]
  isReturn {_ _ x x'} h := by rw [← isReturn_sketch φ, ← kind_sketch, h.sketch, kind_sketch,
    isReturn_sketch]
  children {_ _ x x'} h := by
    have hcs := congrArg Tree.children h.sketch
    rw [children_sketch, children_sketch, ← List.forall₂_eq_eq_eq, List.forall₂_map_left_iff,
      List.forall₂_map_right_iff] at hcs
    exact hcs.imp fun c c' hc => h.child hc
  verdict {y y' above above' x x'} h {parts parts' returned returned'} hparts hreturned := by
    have hspan : φ x.span = φ' x'.span := by rw [← span_sketch φ x, h.sketch, span_sketch]
    have hkind : x.kind.sketch φ = x'.kind.sketch φ' := by
      rw [← kind_sketch φ x, h.sketch, kind_sketch]
    have hmoved : (x.kind.verdict (Tree.around policy (y :: above))
        (Tree.inBody (y :: above)) parts returned
          x.span).moved φ =
        (x'.kind.verdict (Tree.around policy (y' :: above'))
          (Tree.inBody (y' :: above')) parts' returned' x'.span).moved φ' := by
      rw [Kind.verdict_sketch, Kind.verdict_sketch, ← Kind.verdict_bare, h.around, h.inBody, hkind,
        hparts, hreturned, hspan, Kind.verdict_bare]
    have htype := congrArg Verdict.type hmoved
    have hlog := congrArg Verdict.log hmoved
    exact ⟨htype, hlog⟩

end Tree

end DecafCheck
