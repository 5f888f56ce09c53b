import DecafCheck.Proofs.Typing.Problems

namespace DecafCheck

namespace Scopes

/-- The scopes around two places, of which no lookup tells them apart. -/
structure Agree (scopes scopes' : Scopes) : Prop where
  left : scopes ≠ []
  right : scopes' ≠ []
  find? : ∀ name, scopes.find? name = scopes'.find? name
  globals : ∀ name, declared? scopes.globals name = declared? scopes'.globals name

/-- The same scope may be opened at both places. -/
theorem Agree.cons {scopes scopes' : Scopes} (h : scopes.Agree scopes') (scope : List Symbol) :
    Agree (scope :: scopes) (scope :: scopes') where
  left := List.cons_ne_nil _ _
  right := List.cons_ne_nil _ _
  find? name := by rw [find?_cons, find?_cons, h.find?]
  globals name := by rw [globals_cons h.left, globals_cons h.right, h.globals]

theorem agree_singleton {scope scope' : List Symbol}
    (h : ∀ name, declared? scope name = declared? scope' name) :
    Agree [scope] [scope'] where
  left := List.cons_ne_nil _ _
  right := List.cons_ne_nil _ _
  find? name := by rw [find?_cons, find?_cons, h]
  globals := h

end Scopes

variable {scopes scopes' : Scopes} (h : scopes.Agree scopes')

include h

namespace Expr

theorem type_agree (e : Expr) : e.type scopes = e.type scopes' := by
  induction e with
  | literal value span => rfl
  | location name index span => rw [type, type, h.find?]
  | call name arguments span => rw [type, type, h.globals]
  | unary op operand span ih => exact ih
  | binary op left right span ihl ihr => rw [type, type, ihl, ihr]

theorem seen_agree (e : Expr) : e.seen scopes = e.seen scopes' := by
  rw [seen, seen, type_agree h]

theorem locationLog_agree (name : String) (index : Option Expr) (span : Span) :
    locationLog scopes name index span = locationLog scopes' name index span := by
  rw [locationLog, locationLog, h.find?, funext (seen_agree h)]

theorem callLog_agree (name : String) (arguments : List Expr) (span : Span) :
    callLog scopes name arguments span = callLog scopes' name arguments span := by
  rw [callLog, callLog, h.globals, funext (seen_agree h)]

theorem log_agree (e : Expr) : e.log scopes = e.log scopes' := by
  induction e with
  | literal value span => rfl
  | location name index span ih =>
    rw [log_location, log_location, locationLog_agree h]
    exact congrArg (· ++ _) (List.flatMap_congr fun i hi => ih i (Option.mem_toList.mp hi))
  | call name arguments span ih =>
    rw [log, log, logAll_eq, logAll_eq, callLog_agree h]
    exact congrArg (· ++ _) (List.flatMap_congr ih)
  | unary op operand span ih => rw [log, log, ih, type_agree h]
  | binary op left right span ihl ihr => rw [log, log, ihl, ihr, type_agree h, type_agree h]

theorem testLog_agree (place : Test) (e : Expr) :
    e.testLog scopes place = e.testLog scopes' place := by
  rw [testLog, testLog, type_agree h]

end Expr

omit h in
theorem Stmt.log_agree_and (policy : Policy) :
    (∀ (s : Stmt) (scopes scopes' : Scopes), scopes.Agree scopes' → ∀ inLoop,
      s.log policy scopes inLoop = s.log policy scopes' inLoop) ∧
    ∀ (b : Block) (scopes scopes' : Scopes), scopes.Agree scopes' → ∀ inLoop,
      b.log policy scopes inLoop = b.log policy scopes' inLoop := by
  apply Stmt.induct
  case assign =>
    intro name index target value span scopes scopes' h inLoop
    rw [log, log, Expr.log_agree h, Expr.log_agree h, Expr.type_agree h, Expr.type_agree h]
  case call =>
    intro name arguments span scopes scopes' h inLoop
    rw [log, log, Expr.logAll_eq, Expr.logAll_eq, Expr.callLog_agree h, funext (Expr.log_agree h)]
  case branch =>
    intro condition yes no span hyes hno scopes scopes' h inLoop
    cases no with
    | none => rw [log, log, Expr.log_agree h, hyes scopes scopes' h, Expr.testLog_agree h]
    | some no =>
      rw [log, log, Expr.log_agree h, hyes scopes scopes' h, hno no rfl scopes scopes' h,
        Expr.testLog_agree h]
  case loop =>
    intro guard body span hbody scopes scopes' h inLoop
    rw [log, log, Expr.log_agree h, hbody scopes scopes' h, Expr.testLog_agree h]
  case ret =>
    intro value span scopes scopes' h inLoop
    rw [log, log, funext (Expr.log_agree h)]
  case jump => exact fun j span scopes scopes' h inLoop => rfl
  case mk =>
    intro vars statements span ih scopes scopes' h inLoop
    rw [Block.log_eq, Block.log_eq]
    exact List.flatMap_congr fun s hs => ih s hs _ _ (h.cons _) inLoop

theorem Stmt.returned?_agree (s : Stmt) : s.returned? scopes = s.returned? scopes' := by
  cases s with
  | ret value span => rw [returned?, returned?, funext (Expr.type_agree h)]
  | _ => rfl

/-- What is found out about a function depends on the scopes around it through lookups only. -/
theorem Function.log_agree (policy : Policy) (g : Function) :
    g.log policy scopes = g.log policy scopes' := by
  have hbody := (Stmt.log_agree_and policy).2 g.body _ _ (h.cons g.scope) false
  have hreturned : g.returned policy scopes = g.returned policy scopes' := by
    rw [returned, returned, funext (Stmt.returned?_agree
      ((h.cons g.scope).cons (g.body.scope policy)))]
  rw [log, log, hbody, h.find?, hreturned]

end DecafCheck
