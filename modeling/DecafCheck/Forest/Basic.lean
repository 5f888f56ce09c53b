import DecafCheck.Program.Basic
import DecafCheck.Scope.Table

namespace DecafCheck

abbrev NodeId := Nat

inductive Kind
  | program (vars functions : List NodeId)
  | function (name : String) (returns : DataType) (parameters : List Parameter) (body : NodeId)
  | block (vars statements : List NodeId)
  | variable (name : String) (type : DataType) (length : Nat)
  | assignment (location value : NodeId)
  | conditional (condition yes : NodeId) (no : Option NodeId)
  | whileLoop (guard body : NodeId)
  | ret (value : Option NodeId)
  | jump (j : Jump)
  | callStatement (name : String) (arguments : List NodeId)
  | binary (op : BinaryOp) (left right : NodeId)
  | unary (op : UnaryOp) (operand : NodeId)
  | call (name : String) (arguments : List NodeId)
  | location (name : String) (index : Option NodeId)
  | literal (value : Literal)
deriving DecidableEq, Repr

namespace Kind

def children : Kind → List NodeId
  | .program vars functions => vars ++ functions
  | .function _ _ _ body => [body]
  | .block vars statements => vars ++ statements
  | .variable _ _ _ => []
  | .assignment target value => [target, value]
  | .conditional condition yes no => condition :: yes :: no.toList
  | .whileLoop guard body => [guard, body]
  | .ret value => value.toList
  | .jump _ => []
  | .callStatement _ arguments => arguments
  | .binary _ left right => [left, right]
  | .unary _ operand => [operand]
  | .call _ arguments => arguments
  | .location _ index => index.toList
  | .literal _ => []

def name : Kind → String
  | .program _ _ => "program"
  | .function _ _ _ _ => "function"
  | .block _ _ => "block"
  | .variable _ _ _ => "variable"
  | .assignment _ _ => "assignment"
  | .conditional _ _ _ => "conditional"
  | .whileLoop _ _ => "while loop"
  | .ret _ => "return"
  | .jump j => j.word
  | .callStatement _ _ => "void function call"
  | .binary _ _ _ => "binary expression"
  | .unary _ _ => "unary expression"
  | .call _ _ => "function call"
  | .location _ _ => "location"
  | .literal _ => "literal"

def opensScope : Kind → Bool
  | .program _ _ => true
  | .function _ _ _ _ => true
  | .block _ _ => true
  | _ => false

end Kind

structure Node where
  kind : Kind
  span : Span
  parent : Option NodeId := none
  table : Option TableId := none
deriving Repr

/-- Numbered nodes that refer to each other by number. A node may mention numbers that no node has;
reading such a node is a `Fault`. -/
structure Forest where
  nodes : Array Node := #[]
  root : Option NodeId := none
  tables : Tables := {}

namespace Forest

def size (f : Forest) : Nat :=
  f.nodes.size

def node? (f : Forest) (id : NodeId) : Option Node :=
  f.nodes[id]?

/-- Reads a node that must be there. -/
def node (f : Forest) (id : NodeId) : Except Fault Node :=
  match f.node? id with
  | some n => .ok n
  | none => .error (.missing f.size id)

/-- The next number goes to the new node. -/
def add (f : Forest) (kind : Kind) (span : Span) : Forest × NodeId :=
  ({ f with nodes := f.nodes.push { kind, span } }, f.size)

def setRoot (f : Forest) (id : NodeId) : Forest :=
  { f with root := some id }

def setParent (f : Forest) (parent : Option NodeId) (id : NodeId) : Forest :=
  { f with nodes := f.nodes.modify id fun n => { n with parent } }

def attach (f : Forest) (id : NodeId) (table : TableId) : Forest :=
  { f with nodes := f.nodes.modify id fun n => { n with table := some table } }

/-- Every number that some node lists, with the node that lists it, in order. -/
def links (f : Forest) : List (NodeId × NodeId) :=
  f.nodes.toList.zipIdx.flatMap fun (n, id) => n.kind.children.map fun child => (child, id)

/-- Points every listed node at the last node that lists it. The root has no parent. -/
def linked (f : Forest) : Forest :=
  let f := f.links.foldl (fun f (child, parent) => f.setParent (some parent) child) f
  match f.root with
  | some root => f.setParent none root
  | none => f

/-- The forest with its parents filled in, if every number listed is that of a node. -/
def link (f : Forest) : Except Fault Forest :=
  match (f.links.map Prod.fst ++ f.root.toList).find? fun id => f.size ≤ id with
  | some id => .error (.missing f.size id)
  | none => .ok f.linked

/-- The table of the closest node from `id` upwards that has one, at most `steps` nodes up. -/
def nearestTableWithin (f : Forest) : Nat → NodeId → Option TableId
  | 0, _ => none
  | steps + 1, id => do
    let n ← f.node? id
    match n.table with
    | some t => return t
    | none => f.nearestTableWithin steps (← n.parent)

/-- The table of the closest node from `id` upwards that has one. A way up that does not run in a
circle meets each node at most once. -/
def nearestTable (f : Forest) (id : NodeId) : Option TableId :=
  f.nearestTableWithin f.size id

/-- The symbol that a name means at a node. -/
def resolve (f : Forest) (id : NodeId) (name : String) : Option Symbol := do
  let table ← f.nearestTable id
  (f.tables.lookup table name).toOption

end Forest

end DecafCheck
