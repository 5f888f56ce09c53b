import DecafCheck.Proofs.Grammar.Growth.Basic

namespace DecafCheck

namespace Growing

section Keeps

variable {α β : Type}

/-- Nodes are added behind the others, and none is changed. -/
def Keeps (q : Growing α) : Prop :=
  ∀ ⦃c f r g⦄, q c f = some (r, g) → f.nodes.toList <+: g.nodes.toList

theorem keeps_tooDeep : Keeps (tooDeep : Growing α) := by
  intro c f r g h
  cases h

theorem keeps_pure (a : α) : Keeps (pure a : Growing α) := by
  intro c f r g h
  cases h
  exact List.prefix_refl _

theorem keeps_reading (p : Parser α) : Keeps (reading p) := by
  intro c f r g h
  cases h
  exact List.prefix_refl _

theorem keeps_spanOf (id : NodeId) : Keeps (spanOf id) := by
  intro c f r g h
  obtain ⟨n, -, hn⟩ := Option.map_eq_some_iff.mp h
  cases hn
  exact List.prefix_refl _

theorem keeps_setRoot (id : NodeId) : Keeps (setRoot id) := by
  intro c f r g h
  cases h
  exact List.prefix_refl _

theorem keeps_add (number : Numbering) (kind : Kind) (span : Span) :
    Keeps (add number kind span) := by
  intro c f r g h
  obtain ⟨id, -, hid⟩ := Option.map_eq_some_iff.mp h
  cases hid
  rw [Forest.add, Array.toList_push]
  exact List.prefix_append _ _

theorem Keeps.bind {q : Growing α} {k : α → Growing β} (hq : Keeps q) (hk : ∀ a, Keeps (k a)) :
    Keeps (q >>= k) := by
  intro c f r g h
  rw [bind_apply] at h
  split at h
  · next hrun => exact (hq hrun).trans (hk _ h)
  · next hrun =>
    cases h
    exact hq hrun
  · cases h

theorem Keeps.ite {q q' : Growing α} (hq : Keeps q) (hq' : Keeps q') (b : Bool) :
    Keeps (if b then q else q') := by
  cases b
  · exact hq'
  · exact hq

end Keeps

section Productions

variable {number : Numbering}

/-- Calls that nest no deeper than `depth` keep every node. -/
structure Keeping (number : Numbering) (depth : Nat) : Prop where
  level : ∀ strata, Keeps (level number strata depth)
  operators : ∀ stratum tighter left, Keeps (operators number stratum tighter left depth)
  unary : Keeps (unary number depth)
  primary : Keeps (primary number depth)
  location : ∀ name start, Keeps (location number name start depth)
  arguments : Keeps (arguments number depth)
  moreArguments : Keeps (moreArguments number depth)

theorem keeping (number : Numbering) (depth : Nat) : Keeping number depth := by
  induction depth with
  | zero =>
    have hlevel (strata : List (List BinaryOp)) : Keeps (level number strata 0) := by
      cases strata <;> exact keeps_tooDeep
    exact ⟨hlevel, fun _ _ _ => keeps_tooDeep, keeps_tooDeep, keeps_tooDeep,
      fun _ _ => keeps_tooDeep, keeps_tooDeep, keeps_tooDeep⟩
  | succ depth ih =>
    constructor
    case level =>
      intro strata
      cases strata with
      | nil => exact ih.unary
      | cons stratum tighter => exact (ih.level tighter).bind fun _ => ih.operators ..
    case operators =>
      intro stratum tighter left
      refine (keeps_reading _).bind fun found => ?_
      cases found.bind (BinaryOp.ofToken? stratum) with
      | none => exact keeps_pure _
      | some op =>
        exact (keeps_reading _).bind fun _ => (ih.level _).bind fun _ =>
          (keeps_spanOf _).bind fun _ =>
          (keeps_spanOf _).bind fun _ => (keeps_add ..).bind fun _ => ih.operators ..
    case unary =>
      refine (keeps_reading _).bind fun start => (keeps_reading _).bind fun found => ?_
      cases found.bind UnaryOp.ofToken? with
      | none => exact ih.primary
      | some op =>
        exact (keeps_reading _).bind fun _ => ih.unary.bind fun _ =>
          (keeps_spanOf _).bind fun _ => keeps_add ..
    case primary =>
      refine (keeps_reading _).bind fun span => (keeps_reading _).bind fun found => ?_
      split
      · exact (keeps_reading _).bind fun _ => (keeps_reading _).bind fun _ => keeps_add ..
      · exact (keeps_reading _).bind fun _ => keeps_add ..
      · exact (keeps_reading _).bind fun _ => keeps_add ..
      · refine (keeps_reading _).bind fun _ => (keeps_reading _).bind fun called =>
          Keeps.ite ?_ (ih.location ..) called
        exact ih.arguments.bind fun _ => (keeps_reading _).bind fun _ => keeps_add ..
      · exact (keeps_reading _).bind fun _ => (ih.level _).bind fun _ =>
          (keeps_reading _).bind fun _ => keeps_pure _
      · exact keeps_reading _
    case location =>
      intro name start
      refine (keeps_reading _).bind fun indexed => Keeps.ite ?_ ?_ indexed
      · exact (ih.level _).bind fun _ => (keeps_reading _).bind fun _ =>
          (keeps_reading _).bind fun _ => keeps_add ..
      · exact (keeps_reading _).bind fun _ => keeps_add ..
    case arguments =>
      refine (keeps_reading _).bind fun _ => (keeps_reading _).bind fun closed =>
        Keeps.ite ?_ ?_ closed
      · exact (keeps_reading _).bind fun _ => keeps_pure _
      · exact (ih.level _).bind fun _ => ih.moreArguments.bind fun _ =>
          (keeps_reading _).bind fun _ => keeps_pure _
    case moreArguments =>
      refine (keeps_reading _).bind fun found => Keeps.ite ?_ (keeps_pure _) _
      exact (keeps_reading _).bind fun _ => (ih.level _).bind fun _ =>
        ih.moreArguments.bind fun _ => keeps_pure _

theorem keeps_variableDeclaration : Keeps (variableDeclaration number) :=
  (keeps_reading _).bind fun _ => keeps_add ..

theorem keeps_localVariables (depth : Nat) : Keeps (localVariables number depth) := by
  induction depth with
  | zero => exact keeps_tooDeep
  | succ depth ih =>
    refine (keeps_reading _).bind fun found => Keeps.ite ?_ (keeps_pure _) _
    exact keeps_variableDeclaration.bind fun _ => ih.bind fun _ => keeps_pure _

theorem keeps_assignmentOrCall (depth : Nat) : Keeps (assignmentOrCall number depth) := by
  refine (keeps_reading _).bind fun _ => (keeps_reading _).bind fun called => Keeps.ite ?_ ?_ called
  · exact (keeping number depth).arguments.bind fun _ => (keeps_reading _).bind fun _ =>
      (keeps_reading _).bind fun _ =>
      keeps_add ..
  · exact ((keeping number depth).location ..).bind fun _ => (keeps_reading _).bind fun _ =>
      ((keeping number depth).level _).bind fun _ => (keeps_reading _).bind fun _ =>
        (keeps_reading _).bind fun _ =>
        keeps_add ..

theorem keeps_condition (depth : Nat) : Keeps (condition number depth) :=
  (keeps_reading _).bind fun _ => ((keeping number depth).level _).bind fun _ =>
    (keeps_reading _).bind fun _ =>
    keeps_pure _

theorem keeps_returned? (depth : Nat) : Keeps (returned? number depth) :=
  (keeps_reading _).bind fun ended => Keeps.ite (keeps_pure _)
    (((keeping number depth).level _).bind fun _ => keeps_pure _) ended

/-- Blocks that nest no deeper than `depth` keep every node. -/
structure BlocksKeeping (number : Numbering) (depth : Nat) : Prop where
  block : Keeps (block number depth)
  statements : Keeps (statements number depth)
  statement : Keeps (statement number depth)
  otherwise? : Keeps (otherwise? number depth)

theorem blocksKeeping (number : Numbering) (depth : Nat) : BlocksKeeping number depth := by
  induction depth with
  | zero => exact ⟨keeps_tooDeep, keeps_tooDeep, keeps_tooDeep, keeps_tooDeep⟩
  | succ depth ih =>
    constructor
    case block =>
      exact (keeps_reading _).bind fun _ => (keeps_reading _).bind fun _ =>
        (keeps_localVariables depth).bind fun _ =>
        ih.statements.bind fun _ => (keeps_reading _).bind fun _ =>
          (keeps_reading _).bind fun _ => keeps_add ..
    case statements =>
      refine (keeps_reading _).bind fun found => Keeps.ite ?_ (keeps_pure _) _
      exact ih.statement.bind fun _ => ih.statements.bind fun _ => keeps_pure _
    case statement =>
      refine (keeps_reading _).bind fun start => (keeps_reading _).bind fun found => ?_
      split
      · exact keeps_assignmentOrCall depth
      · exact (keeps_reading _).bind fun _ => (keeps_condition depth).bind fun _ =>
          ih.block.bind fun _ =>
          ih.otherwise?.bind fun _ => (keeps_reading _).bind fun _ => keeps_add ..
      · exact (keeps_reading _).bind fun _ => (keeps_condition depth).bind fun _ =>
          ih.block.bind fun _ =>
          (keeps_reading _).bind fun _ => keeps_add ..
      · exact (keeps_reading _).bind fun _ => (keeps_returned? depth).bind fun _ =>
          (keeps_reading _).bind fun _ =>
          (keeps_reading _).bind fun _ => keeps_add ..
      · exact (keeps_reading _).bind fun _ => (keeps_reading _).bind fun _ =>
          (keeps_reading _).bind fun _ =>
          keeps_add ..
      · exact (keeps_reading _).bind fun _ => (keeps_reading _).bind fun _ =>
          (keeps_reading _).bind fun _ =>
          keeps_add ..
      · exact keeps_reading _
    case otherwise? =>
      refine (keeps_reading _).bind fun found => Keeps.ite ?_ (keeps_pure _) _
      exact (keeps_reading _).bind fun _ => ih.block.bind fun _ => keeps_pure _

theorem keeps_moreParameters (depth : Nat) : Keeps (moreParameters depth) := by
  induction depth with
  | zero => exact keeps_tooDeep
  | succ depth ih =>
    refine (keeps_reading _).bind fun found => Keeps.ite ?_ (keeps_pure _) _
    exact (keeps_reading _).bind fun _ => (keeps_reading _).bind fun _ =>
      ih.bind fun _ => keeps_pure _

theorem keeps_parameters (depth : Nat) : Keeps (parameters depth) := by
  refine (keeps_reading _).bind fun _ => (keeps_reading _).bind fun closed => Keeps.ite ?_ ?_ closed
  · exact (keeps_reading _).bind fun _ => keeps_pure _
  · exact (keeps_reading _).bind fun _ => (keeps_moreParameters depth).bind fun _ =>
      (keeps_reading _).bind fun _ =>
      keeps_pure _

theorem keeps_function (depth : Nat) : Keeps (function number depth) :=
  (keeps_reading _).bind fun _ => (keeps_reading _).bind fun _ => (keeps_reading _).bind fun _ =>
    (keeps_reading _).bind fun _ => (keeps_parameters depth).bind fun _ =>
      (blocksKeeping number depth).block.bind fun _ => (keeps_reading _).bind fun _ => keeps_add ..

theorem keeps_declarations (depth : Nat) : Keeps (declarations number depth) := by
  induction depth with
  | zero => exact keeps_tooDeep
  | succ depth ih =>
    refine (keeps_reading _).bind fun found => Keeps.ite (keeps_pure _)
      (Keeps.ite ?_ (Keeps.ite ?_ ?_ _) _) _
    · exact (keeps_function depth).bind fun _ => ih.bind fun _ => keeps_pure _
    · exact keeps_variableDeclaration.bind fun _ => ih.bind fun _ => keeps_pure _
    · exact keeps_reading _

end Productions

section Calls

variable {α β : Type} {q : Growing β} {p : Growing α} {c d : Cursor} {f g : Forest}

/-- While `p` runs from `c` with the forest `f`, it comes to call `q` at `d` with the forest `g`,
and all that is left to do then keeps the nodes. No failure is caught, so how the call ends is seen
in the end of the run. -/
inductive Calls (q : Growing β) (d : Cursor) (g : Forest) :
    {α : Type} → Growing α → Cursor → Forest → Prop
  | here : Calls q d g q d g
  | inside {α γ : Type} {p : Growing α} {k : α → Growing γ} {c : Cursor} {f : Forest} :
      (∀ a, Keeps (k a)) → Calls q d g p c f → Calls q d g (p >>= k) c f
  | behind {α γ : Type} {p : Growing α} {k : α → Growing γ} {c c' : Cursor}
      {f f' : Forest} {a : α} :
      p c f = some (.ok (a, c'), f') → Calls q d g (k a) c' f' → Calls q d g (p >>= k) c f

theorem Calls.eq_none (h : Calls q d g p c f) (hq : q d g = none) : p c f = none := by
  induction h with
  | here => exact hq
  | inside _ _ ih => rw [bind_apply, ih]
  | behind hrun _ ih => rw [bind_apply, hrun]; exact ih

theorem Calls.eq_error (h : Calls q d g p c f) {e : ParseError} {g' : Forest}
    (hq : q d g = some (.error e, g')) :
    p c f = some (.error e, g') := by
  induction h with
  | here => exact hq
  | inside _ _ ih => rw [bind_apply, ih]
  | behind hrun _ ih => rw [bind_apply, hrun]; exact ih

/-- What a call has added is in the forest at the end. -/
theorem Calls.isPrefix (h : Calls q d g p c f) {r : Except ParseError (β × Cursor)} {g' : Forest}
    (hq : q d g = some (r, g')) {s : Except ParseError (α × Cursor)} {f' : Forest}
    (hp : p c f = some (s, f')) :
    g'.nodes.toList <+: f'.nodes.toList := by
  induction h generalizing f' with
  | here =>
    cases hq.symm.trans hp
    exact List.prefix_refl _
  | inside hk _ ih =>
    rw [bind_apply] at hp
    split at hp
    · next hrun => exact (ih hrun).trans (hk _ hp)
    · next hrun =>
      cases hp
      exact ih hrun
    · cases hp
  | behind hrun _ ih =>
    rw [bind_apply, hrun] at hp
    exact ih hp

/-- An expression that begins with no operator begins with a primary expression. -/
theorem calls_primary {number : Numbering} (hc : c.current.bind UnaryOp.ofToken? = none)
    (strata : List (List BinaryOp)) (depth : Nat) (f : Forest) :
    Calls (primary number depth) c f (level number strata (depth + 2 + strata.length)) c f := by
  induction strata with
  | nil =>
    refine .behind rfl (.behind rfl ?_)
    rw [hc]
    exact .here
  | cons stratum tighter ih => exact .inside (fun _ => (keeping number _).operators ..) ih

end Calls

end Growing

end DecafCheck
