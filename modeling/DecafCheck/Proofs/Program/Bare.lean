import DecafCheck.Program.Grammar
import DecafCheck.Proofs.Program.Basic
import DecafCheck.Proofs.Token.Spelling

namespace DecafCheck

/-- Stands for a span that does not matter. -/
def Span.nowhere : Span := ⟨0, 0⟩

namespace Expr

mutual

/-- An expression without its spans. -/
def bare : Expr → Expr
  | .literal value _ => .literal value .nowhere
  | .location name none _ => .location name none .nowhere
  | .location name (some index) _ => .location name (some (bare index)) .nowhere
  | .call name arguments _ => .call name (bareAll arguments) .nowhere
  | .unary op operand _ => .unary op (bare operand) .nowhere
  | .binary op left right _ => .binary op (bare left) (bare right) .nowhere

def bareAll : List Expr → List Expr
  | [] => []
  | e :: rest => bare e :: bareAll rest

end

theorem bareAll_eq (es : List Expr) : bareAll es = es.map bare := by
  induction es with
  | nil => rfl
  | cons e es ih => rw [bareAll, ih, List.map_cons]

theorem bare_location (name : String) (index : Option Expr) (span : Span) :
    (location name index span).bare = .location name (index.map bare) .nowhere := by
  cases index <;> rfl

theorem bare_call (name : String) (arguments : List Expr) (span : Span) :
    (call name arguments span).bare = .call name (arguments.map bare) .nowhere := by
  rw [bare, bareAll_eq]

inductive Writable : Expr → Prop
  | integer {value : Int} {span : Span} : 0 ≤ value → value < integerBound →
      Writable (.literal (.int value) span)
  | truth {value : Bool} {span : Span} : Writable (.literal (.bool value) span)
  | location {name : String} {index : Option Expr} {span : Span} : isName name = true →
      (∀ i ∈ index, Writable i) → Writable (.location name index span)
  | call {name : String} {arguments : List Expr} {span : Span} : isName name = true →
      (∀ a ∈ arguments, Writable a) → Writable (.call name arguments span)
  | unary {op : UnaryOp} {operand : Expr} {span : Span} : Writable operand →
      Writable (.unary op operand span)
  | binary {op : BinaryOp} {left right : Expr} {span : Span} : Writable left → Writable right →
      Writable (.binary op left right span)

end Expr

namespace Variable

def bare (v : Variable) : Variable :=
  { v with span := .nowhere }

def Writable (v : Variable) : Prop :=
  isName v.name = true ∧ v.length < arrayBound

end Variable

mutual

def Stmt.bare : Stmt → Stmt
  | .assign name index _ value _ => .assign name (index.map Expr.bare) .nowhere value.bare .nowhere
  | .call name arguments _ => .call name (arguments.map Expr.bare) .nowhere
  | .branch condition yes no _ => .branch condition.bare (Block.bare yes) (Block.bare? no) .nowhere
  | .loop guard body _ => .loop guard.bare (Block.bare body) .nowhere
  | .ret value _ => .ret (value.map Expr.bare) .nowhere
  | .jump j _ => .jump j .nowhere

def Block.bare : Block → Block
  | .mk vars statements _ => .mk (vars.map Variable.bare) (Stmt.bareAll statements) .nowhere

def Block.bare? : Option Block → Option Block
  | none => none
  | some b => some (Block.bare b)

def Stmt.bareAll : List Stmt → List Stmt
  | [] => []
  | s :: rest => Stmt.bare s :: Stmt.bareAll rest

end

theorem Stmt.bareAll_eq (ss : List Stmt) : bareAll ss = ss.map bare := by
  induction ss with
  | nil => rfl
  | cons s ss ih => rw [bareAll, ih, List.map_cons]

mutual

inductive Stmt.Writable : Stmt → Prop
  | assign {name : String} {index : Option Expr} {target : Span} {value : Expr} {span : Span} :
      isName name = true → (∀ i ∈ index, i.Writable) → value.Writable →
      Stmt.Writable (.assign name index target value span)
  | call {name : String} {arguments : List Expr} {span : Span} : isName name = true →
      (∀ a ∈ arguments, a.Writable) → Stmt.Writable (.call name arguments span)
  | branch {condition : Expr} {yes : Block} {no : Option Block} {span : Span} : condition.Writable →
      Block.Writable yes → (∀ b ∈ no, Block.Writable b) →
      Stmt.Writable (.branch condition yes no span)
  | loop {guard : Expr} {body : Block} {span : Span} : guard.Writable → Block.Writable body →
      Stmt.Writable (.loop guard body span)
  | ret {value : Option Expr} {span : Span} : (∀ e ∈ value, e.Writable) →
      Stmt.Writable (.ret value span)
  | jump {j : Jump} {span : Span} : Stmt.Writable (.jump j span)

inductive Block.Writable : Block → Prop
  | mk {vars : List Variable} {statements : List Stmt} {span : Span} : (∀ v ∈ vars, v.Writable) →
      (∀ s ∈ statements, Stmt.Writable s) → Block.Writable (.mk vars statements span)

end

def Parameter.bare (p : Parameter) : Parameter :=
  { p with span := .nowhere }

namespace Function

def bare (f : Function) : Function :=
  ⟨f.name, f.returns, f.parameters.map Parameter.bare, f.body.bare, .nowhere⟩

structure Writable (f : Function) : Prop where
  name : isName f.name = true
  parameters : ∀ p ∈ f.parameters, isName p.name = true
  body : f.body.Writable

end Function

namespace Declaration

def bare : Declaration → Declaration
  | .variable v => .variable v.bare
  | .function f => .function f.bare

def Writable : Declaration → Prop
  | .variable v => v.Writable
  | .function f => f.Writable

end Declaration

namespace Program

def bare (p : Program) : Program :=
  ⟨p.declarations.map Declaration.bare, .nowhere⟩

def Writable (p : Program) : Prop :=
  ∀ d ∈ p.declarations, d.Writable

end Program

end DecafCheck
