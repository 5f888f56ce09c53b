import DecafCheck.Proofs.Scope.Program
import DecafCheck.Proofs.Typing.Walk

namespace DecafCheck

namespace Expr

/-- The type of an expression; `unknown` if it has none. -/
def type (scopes : Scopes) : Expr → InferredType
  | .literal value _ => .known value.type
  | .location name _ _ =>
    match scopes.find? name with
    | some s => .known s.type
    | none => .unknown
  | .call name _ _ =>
    match declared? scopes.globals name with
    | some s => if s.isFunction then .known s.type else .unknown
    | none => .unknown
  | .unary _ operand _ => operand.type scopes
  | .binary op left right _ =>
    match op.infer (left.type scopes) (right.type scopes) with
    | .ok type => .known type
    | .error _ => .unknown

/-- What the checks around an expression see of it. -/
def seen (scopes : Scopes) (e : Expr) : InferredType × Span :=
  (e.type scopes, e.span)

def indexLog (s : Symbol) (span : Span) (index : InferredType × Span) : List Diagnostic :=
  if !index.1.is .int then [(Problem.index index.1).on index.2]
  else Verdict.require (s.length != 0) (.notIndexable s.name) span

def locationLog (scopes : Scopes) (name : String) (index : Option Expr) (span : Span) :
    List Diagnostic :=
  match scopes.find? name with
  | none => [(Problem.undeclared name).on span]
  | some s => (index.toList.map (seen scopes)).flatMap (indexLog s span)

/-- Each argument against its parameter, counted from `position`. -/
def argumentLog (name : String) : Nat → List (InferredType × Span) → List DataType → List Diagnostic
  | position, argument :: arguments, parameter :: parameters =>
    Verdict.require (argument.1.is parameter)
      (.argument position name parameter argument.1) argument.2
      ++ argumentLog name (position + 1) arguments parameters
  | _, _, _ => []

def callLog (scopes : Scopes) (name : String) (arguments : List Expr) (span : Span) :
    List Diagnostic :=
  match declared? scopes.globals name with
  | none => [(Problem.undeclaredFunction name).on span]
  | some s =>
    if s.isFunction then
      Verdict.require (s.parameters.length == arguments.length)
          (.arity name s.parameters.length arguments.length) span
        ++ argumentLog name 1 (arguments.map (seen scopes)) s.parameters
    else [(Problem.notFunction name).on span]

mutual

/-- The problems with an expression, those of its parts first. -/
def log (scopes : Scopes) : Expr → List Diagnostic
  | .literal _ _ => []
  | .location name none span => locationLog scopes name none span
  | .location name (some index) span =>
    index.log scopes ++ locationLog scopes name (some index) span
  | .call name arguments span => logAll scopes arguments ++ callLog scopes name arguments span
  | .unary op operand span =>
    operand.log scopes ++ (Verdict.ofUnary op (operand.type scopes) span).log
  | .binary op left right span =>
    left.log scopes ++ (right.log scopes ++
      (Verdict.ofBinary op (left.type scopes) (right.type scopes) span).log)

def logAll (scopes : Scopes) : List Expr → List Diagnostic
  | [] => []
  | e :: rest => e.log scopes ++ logAll scopes rest

end

theorem logAll_eq (scopes : Scopes) (es : List Expr) :
    logAll scopes es = es.flatMap (log scopes) := by
  induction es with
  | nil => rfl
  | cons e es ih => rw [logAll, ih, List.flatMap_cons]

theorem log_location (scopes : Scopes) (name : String) (index : Option Expr) (span : Span) :
    (location name index span).log scopes =
      index.toList.flatMap (log scopes) ++ locationLog scopes name index span := by
  cases index <;> simp [log]

def testLog (scopes : Scopes) (place : Test) (e : Expr) : List Diagnostic :=
  Verdict.require ((e.type scopes).is .bool) (.test place (e.type scopes)) e.span

end Expr

mutual

/-- The problems with a statement, those of its parts first. A jump is right as a direct statement
of the body of a loop. -/
def Stmt.log (policy : Policy) (scopes : Scopes) (inLoop : Bool) : Stmt → List Diagnostic
  | .assign name index target value span =>
    (Expr.location name index target).log scopes ++ (value.log scopes
      ++ Verdict.require (((Expr.location name index target).type scopes).agrees
        (value.type scopes))
        (.assignment ((Expr.location name index target).type scopes) (value.type scopes)) span)
  | .call name arguments span =>
    Expr.logAll scopes arguments ++ Expr.callLog scopes name arguments span
  | .branch condition yes none _ =>
    condition.log scopes ++ (Block.log policy scopes false yes ++
      condition.testLog scopes .condition)
  | .branch condition yes (some no) _ =>
    condition.log scopes ++ (Block.log policy scopes false yes ++ (Block.log policy scopes false no
      ++ condition.testLog scopes .condition))
  | .loop guard body _ =>
    guard.log scopes ++ (Block.log policy scopes true body ++ guard.testLog scopes .guard)
  | .ret value _ => value.toList.flatMap (Expr.log scopes)
  | .jump j span => Verdict.require inLoop (.jumpOutsideLoop j) span

def Stmt.logAll (policy : Policy) (scopes : Scopes) (inLoop : Bool) : List Stmt → List Diagnostic
  | [] => []
  | s :: rest => Stmt.log policy scopes inLoop s ++ Stmt.logAll policy scopes inLoop rest

/-- The problems with the statements of a block. -/
def Block.log (policy : Policy) (scopes : Scopes) (inLoop : Bool) : Block → List Diagnostic
  | .mk vars statements _ =>
    Stmt.logAll policy (vars.filterMap (Variable.symbol? policy .frame) :: scopes) inLoop statements

end

theorem Stmt.logAll_eq (policy : Policy) (scopes : Scopes) (inLoop : Bool) (ss : List Stmt) :
    logAll policy scopes inLoop ss = ss.flatMap (log policy scopes inLoop) := by
  induction ss with
  | nil => rfl
  | cons s ss ih => rw [logAll, ih, List.flatMap_cons]

theorem Block.log_eq (policy : Policy) (scopes : Scopes) (inLoop : Bool) (b : Block) :
    b.log policy scopes inLoop =
      b.statements.flatMap (Stmt.log policy (b.scope policy :: scopes) inLoop) := by
  cases b
  rw [log, Stmt.logAll_eq]
  rfl

/-- The type of the value of a return statement, if it has a value, and its span. -/
def Stmt.returned? (scopes : Scopes) : Stmt → Option (Option InferredType × Span)
  | .ret value span => some (value.map (Expr.type scopes), span)
  | _ => none

namespace Function

/-- A return among the direct statements of a function's body. -/
def returnLog (name : String) (returns : DataType) (value : Option InferredType) (span : Span) :
    List Diagnostic :=
  match returns, value with
  | .void, some _ => [(Problem.voidReturn name).on span]
  | .void, none => []
  | _, _ =>
    let found := value.getD (.known .void)
    Verdict.require (found.is returns) (.returnType name returns found) span

/-- Every return is checked, and all but the first are reported as such. -/
def returnsLog (name : String) (returns : DataType) :
    List (Option InferredType × Span) → List Diagnostic
  | [] => []
  | (value, span) :: rest =>
    returnLog name returns value span
      ++ rest.flatMap fun (value, span) =>
        (Problem.multipleReturns name).on span :: returnLog name returns value span

/-- The returns among the direct statements of the body. -/
def returned (policy : Policy) (scopes : Scopes) (g : Function) :
    List (Option InferredType × Span) :=
  g.body.statements.filterMap (Stmt.returned? (g.body.scope policy :: g.scope :: scopes))

/-- The problems with the body of a function and with its returns. -/
def log (policy : Policy) (scopes : Scopes) (g : Function) : List Diagnostic :=
  g.body.log policy (g.scope :: scopes) false
    ++ (Verdict.require ((scopes.find? g.name).any Symbol.isFunction)
      (.functionConflict g.name) g.span
      ++ returnsLog g.name g.returns (g.returned policy scopes))

/-- The problems of a function if it is a main function. -/
def main? (g : Function) : Option (List Diagnostic) :=
  if g.name = "main" then some (Forest.checkMain g.returns g.parameters g.span) else none

end Function

/-- The problems with the functions of a program and with its main function. -/
def Program.typeLog (policy : Policy) (p : Program) : List Diagnostic :=
  p.functions.flatMap (Function.log policy [p.scope policy])
    ++ ((p.functions.filterMap Function.main?).flatten
      ++ Verdict.require (!(p.functions.filterMap Function.main?).isEmpty) .missingMain p.span)

end DecafCheck
