namespace DecafCheck

/-- The nested text of a value, written on one line or with one item per line. -/
inductive Outline
  | atom (text : String)
  | field (label : String) (value : Outline)
  | tuple (head : String) (items : List Outline)
  | record (head : String) (items : List Outline)
  | list (items : List Outline)

namespace Outline

/-- Written as `head(item)`. -/
def wrap (head : String) (item : Outline) : Outline :=
  .tuple head [item]

def ofOption (item : Option Outline) : Outline :=
  match item with
  | none => .atom "None"
  | some o => wrap "Some" o

mutual

/-- The whole value on one line. -/
def inline : Outline → String
  | .atom text => text
  | .field label value => label ++ ": " ++ inline value
  | .tuple head items => head ++ "(" ++ ", ".intercalate (inlineAll items) ++ ")"
  | .record head items => head ++ " \x7b " ++ ", ".intercalate (inlineAll items) ++ " \x7d"
  | .list items => "[" ++ ", ".intercalate (inlineAll items) ++ "]"

def inlineAll : List Outline → List String
  | [] => []
  | o :: rest => inline o :: inlineAll rest

end

/-- Four blanks for each level. -/
def margin (depth : Nat) : String :=
  String.ofList (List.replicate (4 * depth) ' ')

mutual

/-- One item to a line, each followed by a comma and indented below its head. -/
def indented (depth : Nat) : Outline → String
  | .atom text => text
  | .field label value => label ++ ": " ++ indented depth value
  | .tuple head items => head ++ "(\n" ++ indentedAll (depth + 1) items ++ margin depth ++ ")"
  | .record head items =>
    head ++ " \x7b\n" ++ indentedAll (depth + 1) items ++ margin depth ++ "\x7d"
  | .list [] => "[]"
  | .list (o :: rest) => "[\n" ++ indentedAll (depth + 1) (o :: rest) ++ margin depth ++ "]"

def indentedAll (depth : Nat) : List Outline → String
  | [] => ""
  | o :: rest => margin depth ++ indented depth o ++ ",\n" ++ indentedAll depth rest

end

end Outline

end DecafCheck
