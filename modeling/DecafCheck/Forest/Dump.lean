import DecafCheck.Forest.Basic
import DecafCheck.Text.Quoted

namespace DecafCheck

def DataType.label : DataType → String
  | int => "Int"
  | bool => "Bool"
  | void => "Void"

def UnaryOp.label : UnaryOp → String
  | neg => "Neg"
  | not => "Not"

def BinaryOp.label : BinaryOp → String
  | or => "Or"
  | and => "And"
  | eq => "Eq"
  | ne => "Ne"
  | lt => "Lt"
  | le => "Le"
  | gt => "Gt"
  | ge => "Ge"
  | add => "Add"
  | sub => "Sub"
  | mul => "Mul"
  | div => "Div"
  | mod => "Mod"

def Jump.label : Jump → String
  | exit => "Break"
  | next => "Continue"

def Literal.outline : Literal → Outline
  | int value => .wrap "Int" (.atom (toString value))
  | bool true => .wrap "Bool" (.atom "true")
  | bool false => .wrap "Bool" (.atom "false")

def TableId.text (id : TableId) : String :=
  "TableId(" ++ toString id ++ ")"

def NodeId.outline (id : NodeId) : Outline :=
  .atom ("NodeId(" ++ toString id ++ ")")

def Parameter.outline (p : Parameter) : Outline :=
  .record "Parameter"
    [.field "name" (.atom (Text.quote p.name)), .field "ty" (.atom p.type.label),
      .field "span" p.span.outline]

namespace Kind

def nameField (name : String) : Outline :=
  .field "name" (.atom (Text.quote name))

def nodeField (label : String) (id : NodeId) : Outline :=
  .field label (NodeId.outline id)

def nodesField (label : String) (ids : List NodeId) : Outline :=
  .field label (.list (ids.map NodeId.outline))

def nodeField? (label : String) (id : Option NodeId) : Outline :=
  .field label (.ofOption (id.map NodeId.outline))

def outline : Kind → Outline
  | .program vars functions =>
    .record "Program" [nodesField "variables" vars, nodesField "functions" functions]
  | .function name returns parameters body =>
    .record "Function"
      [nameField name, .field "return_type" (.atom returns.label),
       .field "parameters" (.list (parameters.map Parameter.outline)), nodeField "body" body]
  | .block vars statements =>
    .record "Block" [nodesField "variables" vars, nodesField "statements" statements]
  | .variable name type length =>
    .record "Variable"
      [nameField name, .field "ty" (.atom type.label),
        .field "array_length" (.atom (toString length))]
  | .assignment target value =>
    .record "Assignment" [nodeField "location" target, nodeField "value" value]
  | .conditional condition yes no =>
    .record "Conditional"
      [nodeField "condition" condition, nodeField "then_block" yes, nodeField? "else_block" no]
  | .whileLoop guard body => .record "WhileLoop" [nodeField "guard" guard, nodeField "body" body]
  | .ret value => .record "Return" [nodeField? "value" value]
  | .jump j => .atom j.label
  | .callStatement name arguments =>
    .record "VoidFunctionCall" [nameField name, nodesField "arguments" arguments]
  | .binary op left right =>
    .record "BinaryExpr" [.field "op" (.atom op.label), nodeField "left" left,
      nodeField "right" right]
  | .unary op operand =>
    .record "UnaryExpr" [.field "op" (.atom op.label), nodeField "operand" operand]
  | .call name arguments =>
    .record "FunctionCall" [nameField name, nodesField "arguments" arguments]
  | .location name index => .record "Location" [nameField name, nodeField? "index" index]
  | .literal value => .wrap "Literal" value.outline

end Kind

def Node.outline (n : Node) : Outline :=
  .record "Node"
    [.field "kind" n.kind.outline, .field "span" n.span.outline,
     .field "parent" (.ofOption (n.parent.map NodeId.outline)),
     .field "table" (.ofOption (n.table.map fun t => .atom (TableId.text t)))]

/-- The outline of a forest whose scopes have not been built. -/
def Forest.outline (f : Forest) : Outline :=
  .record "Ast"
    [.field "nodes" (.list (f.nodes.toList.map Node.outline)),
     .field "root" (.ofOption (f.root.map NodeId.outline)),
     .field "tables" (.record "SymbolTables" [.field "tables" (.list [])])]

/-- What a table belongs to. -/
def Kind.owner : Kind → String
  | .function name _ _ _ => "function '" ++ name ++ "'"
  | kind => kind.name

def Table.dump (t : Table) (id : TableId) (owner : Kind) : String :=
  let parent := (t.parent.map TableId.text).getD "none"
  TableId.text id ++ " (" ++ owner.owner ++ ", parent: " ++ parent ++ ")\n"
    ++ String.join (t.sorted.map fun s => "    " ++ s.text ++ "\n")

/-- The part of the dump that a node has. -/
def Forest.dumpNode (f : Forest) (n : Node) : Except Fault String :=
  match n.table with
  | none => .ok ""
  | some id => return (← f.tables.get id).dump id n.kind

/-- Every node that has a table, in the order of their numbers, with its symbols by name. -/
def Forest.dumpSymbols (f : Forest) : Except Fault String := do
  return String.join (← f.nodes.toList.mapM f.dumpNode)

end DecafCheck
