import DecafCheck.Forest.Basic

namespace DecafCheck

namespace Expr

mutual

def plant (f : Forest) : Expr → Forest × NodeId
  | .literal value span => f.add (.literal value) span
  | .location name none span => f.add (.location name none) span
  | .location name (some index) span =>
    let (f, index) := plant f index
    f.add (.location name (some index)) span
  | .call name arguments span =>
    let (f, arguments) := plantAll f arguments
    f.add (.call name arguments) span
  | .unary op operand span =>
    let (f, operand) := plant f operand
    f.add (.unary op operand) span
  | .binary op left right span =>
    let (f, left) := plant f left
    let (f, right) := plant f right
    f.add (.binary op left right) span

def plantAll (f : Forest) : List Expr → Forest × List NodeId
  | [] => (f, [])
  | e :: rest =>
    let (f, id) := plant f e
    let (f, ids) := plantAll f rest
    (f, id :: ids)

end

def plant? (f : Forest) : Option Expr → Forest × Option NodeId
  | none => (f, none)
  | some e =>
    let (f, id) := plant f e
    (f, some id)

end Expr

def Variable.plant (f : Forest) (v : Variable) : Forest × NodeId :=
  f.add (.variable v.name v.type v.length) v.span

def Variable.plantAll (f : Forest) : List Variable → Forest × List NodeId
  | [] => (f, [])
  | v :: rest =>
    let (f, id) := v.plant f
    let (f, ids) := plantAll f rest
    (f, id :: ids)

mutual

def Stmt.plant (f : Forest) : Stmt → Forest × NodeId
  | .assign name index target value span =>
    let (f, index) := Expr.plant? f index
    let (f, location) := f.add (.location name index) target
    let (f, value) := value.plant f
    f.add (.assignment location value) span
  | .call name arguments span =>
    let (f, arguments) := Expr.plantAll f arguments
    f.add (.callStatement name arguments) span
  | .branch condition yes none span =>
    let (f, condition) := condition.plant f
    let (f, yes) := Block.plant f yes
    f.add (.conditional condition yes none) span
  | .branch condition yes (some no) span =>
    let (f, condition) := condition.plant f
    let (f, yes) := Block.plant f yes
    let (f, no) := Block.plant f no
    f.add (.conditional condition yes (some no)) span
  | .loop guard body span =>
    let (f, guard) := guard.plant f
    let (f, body) := Block.plant f body
    f.add (.whileLoop guard body) span
  | .ret value span =>
    let (f, value) := Expr.plant? f value
    f.add (.ret value) span
  | .jump j span => f.add (.jump j) span

def Stmt.plantAll (f : Forest) : List Stmt → Forest × List NodeId
  | [] => (f, [])
  | s :: rest =>
    let (f, id) := Stmt.plant f s
    let (f, ids) := Stmt.plantAll f rest
    (f, id :: ids)

def Block.plant (f : Forest) : Block → Forest × NodeId
  | .mk vars statements span =>
    let (f, vars) := Variable.plantAll f vars
    let (f, statements) := Stmt.plantAll f statements
    f.add (.block vars statements) span

end

def Function.plant (f : Forest) (g : Function) : Forest × NodeId :=
  let (f, body) := g.body.plant f
  f.add (.function g.name g.returns g.parameters body) g.span

/-- Gives the numbers of the variables and those of the functions. -/
def Declaration.plantAll (f : Forest) : List Declaration → Forest × List NodeId × List NodeId
  | [] => (f, [], [])
  | .variable v :: rest =>
    let (f, id) := v.plant f
    let (f, vars, functions) := plantAll f rest
    (f, id :: vars, functions)
  | .function g :: rest =>
    let (f, id) := g.plant f
    let (f, vars, functions) := plantAll f rest
    (f, vars, id :: functions)

/-- The forest of a program, without the links to parents. Nodes are numbered in post-order, the
declarations in the order of the text; the program node lists its variables before its functions. -/
def Program.plant (p : Program) : Forest :=
  let (f, vars, functions) := Declaration.plantAll {} p.declarations
  let (f, root) := f.add (.program vars functions) p.span
  f.setRoot root

end DecafCheck
