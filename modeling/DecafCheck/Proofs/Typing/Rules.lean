import DecafCheck.Proofs.Program.Basic
import DecafCheck.Scope.Build

namespace DecafCheck

/-- What a name stands for. -/
inductive Meaning
  | value (type : DataType)
  | function (parameters : List DataType) (returns : DataType)

/-- The type of a name by itself; for a function it is the type it returns. -/
def Meaning.type : Meaning → DataType
  | value type => type
  | function _ returns => returns

/-- The declarations of the scopes around a place, the innermost first. -/
abbrev Env := List (List (String × Meaning))

namespace Env

/-- A name means what the innermost scope says that declares it, wherever in that scope. -/
inductive Means : Env → String → Meaning → Prop
  | here {scope : List (String × Meaning)} {outer : Env} {name : String} {m : Meaning} :
      (name, m) ∈ scope → Means (scope :: outer) name m
  | outside {scope : List (String × Meaning)} {outer : Env} {name : String} {m : Meaning} :
      (∀ m, (name, m) ∉ scope) → Means outer name m → Means (scope :: outer) name m

/-- The outermost scope declares a function of the name. -/
def HasFunction (env : Env) (name : String) (parameters : List DataType) (returns : DataType) :
    Prop :=
  ∃ globals ∈ env.getLast?, (name, .function parameters returns) ∈ globals

end Env

/-- The typing rules, as a relation on syntax: no tables, nodes or reports come into them. -/
inductive HasType (env : Env) : Expr → DataType → Prop
  | literal {value : Literal} {span : Span} : HasType env (.literal value span) value.type
  | name {name : String} {m : Meaning} {span : Span} :
      env.Means name m → HasType env (.location name none span) m.type
  | element {name : String} {type : DataType} {index : Expr} {span : Span} :
      env.Means name (.value type) → HasType env index .int →
      HasType env (.location name (some index) span) type
  | negative {operand : Expr} {span : Span} :
      HasType env operand .int → HasType env (.unary .neg operand span) .int
  | negation {operand : Expr} {span : Span} :
      HasType env operand .bool → HasType env (.unary .not operand span) .bool
  | arithmetic {op : BinaryOp} {left right : Expr} {span : Span} :
      op ∈ [.add, .sub, .mul, .div, .mod] →
      HasType env left .int → HasType env right .int → HasType env (.binary op left right span) .int
  | order {op : BinaryOp} {left right : Expr} {span : Span} : op ∈ [.lt, .le, .gt, .ge] →
      HasType env left .int → HasType env right .int →
      HasType env (.binary op left right span) .bool
  | logic {op : BinaryOp} {type : DataType} {left right : Expr} {span : Span} :
      op ∈ [.or, .and, .eq, .ne] → HasType env left type → HasType env right type →
      HasType env (.binary op left right span) .bool
  | call {name : String} {parameters : List DataType} {returns : DataType} {arguments : List Expr}
      {span : Span} :
      env.HasFunction name parameters returns → arguments.length = parameters.length →
      (∀ a ∈ arguments.zip parameters, HasType env a.1 a.2) →
      HasType env (.call name arguments span) returns

def Variable.binding (v : Variable) : String × Meaning :=
  (v.name, .value v.type)

def Parameter.binding (p : Parameter) : String × Meaning :=
  (p.name, .value p.type)

def Function.binding (g : Function) : String × Meaning :=
  (g.name, .function (g.parameters.map Parameter.type) g.returns)

/-- A variable has a value type and at least one element. -/
def Variable.Storable (v : Variable) : Prop :=
  v.type ≠ .void ∧ 1 ≤ v.length

mutual

/-- `inLoop` says whether the statement is a direct statement of the body of a loop. -/
inductive Stmt.WellFormed (policy : Policy) : Env → Bool → Stmt → Prop
  | assign {env : Env} {inLoop : Bool} {name : String} {index : Option Expr} {target : Span}
      {value : Expr}
      {span : Span} {type : DataType} : HasType env (.location name index target) type →
      HasType env value type →
      Stmt.WellFormed policy env inLoop (.assign name index target value span)
  | call {env : Env} {inLoop : Bool} {name : String} {arguments : List Expr} {span : Span}
      {returns : DataType} : HasType env (.call name arguments span) returns →
      Stmt.WellFormed policy env inLoop (.call name arguments span)
  | branch {env : Env} {inLoop : Bool} {condition : Expr} {yes : Block} {no : Option Block}
      {span : Span} : HasType env condition .bool → Block.WellFormed policy env false yes →
      (∀ b ∈ no, Block.WellFormed policy env false b) →
      Stmt.WellFormed policy env inLoop (.branch condition yes no span)
  | loop {env : Env} {inLoop : Bool} {guard : Expr} {body : Block} {span : Span} :
      HasType env guard .bool → Block.WellFormed policy env true body →
      Stmt.WellFormed policy env inLoop (.loop guard body span)
  | ret {env : Env} {inLoop : Bool} {value : Option Expr} {span : Span} :
      (∀ e ∈ value, ∃ type, HasType env e type) →
      Stmt.WellFormed policy env inLoop (.ret value span)
  | jump {env : Env} {j : Jump} {span : Span} : Stmt.WellFormed policy env true (.jump j span)

/-- `inLoop` says whether the block is the body of a loop. -/
inductive Block.WellFormed (policy : Policy) : Env → Bool → Block → Prop
  | mk {env : Env} {inLoop : Bool} {vars : List Variable} {statements : List Stmt} {span : Span} :
      (vars.map Variable.name).Nodup → (∀ v ∈ vars, v.Storable) →
      (policy.globalArraysOnly = true → ∀ v ∈ vars, v.length = 1) →
      (∀ s ∈ statements, Stmt.WellFormed policy (vars.map Variable.binding :: env) inLoop s) →
      Block.WellFormed policy env inLoop (.mk vars statements span)

end

/-- The returns among the direct statements of a function's body. -/
def Function.returns? (g : Function) : List (Option Expr) :=
  g.body.statements.filterMap fun
    | .ret value _ => some value
    | _ => none

/-- A function's body sees its parameters. Only the direct statements of the body are held to the
return type. -/
structure Function.WellFormed (policy : Policy) (env : Env) (g : Function) : Prop where
  parameters : (g.parameters.map Parameter.name).Nodup
  body : g.body.WellFormed policy (g.parameters.map Parameter.binding :: env) false
  once : g.returns?.length ≤ 1
  void : g.returns = .void → ∀ value ∈ g.returns?, value = none
  typed : g.returns ≠ .void → ∀ value ∈ g.returns?, ∃ e, value = some e ∧
    HasType (g.body.vars.map Variable.binding :: g.parameters.map Parameter.binding :: env) e
    g.returns

/-- All variables and functions of a program are in scope everywhere, whatever their order. -/
structure Program.WellFormed (policy : Policy) (p : Program) : Prop where
  names : (p.vars.map Variable.name ++ p.functions.map Function.name).Nodup
  storable : ∀ v ∈ p.vars, v.Storable
  functions : ∀ g ∈ p.functions,
    g.WellFormed policy [p.vars.map Variable.binding ++ p.functions.map Function.binding]
  main : ∃ g ∈ p.functions, g.name = "main" ∧ g.returns = .int ∧ g.parameters = []

end DecafCheck
