import DecafCheck.Forest.Planting
import DecafCheck.Program.Parser

namespace DecafCheck

/-- Reads tokens and adds nodes to a forest. A run whose calls nest too deep has no result, nor has
one that reads a node that is not there or finds no number for a new one. A run that fails leaves
the nodes it has added. -/
abbrev Growing := StateT Cursor (ExceptT ParseError (StateT Forest Option))

namespace Growing

/-- How deep calls may nest is given from outside, a round of a loop counting as a call. Nothing
depends on it but that a call beyond has no result. -/
def tooDeep {α : Type} : Growing α :=
  fun _ _ => none

/-- Reads tokens and adds nothing. -/
def reading {α : Type} (p : Parser α) : Growing α :=
  fun c f => some (p.run c, f)

def spanOf (id : NodeId) : Growing Span :=
  fun c f => (f.node? id).map fun n => (.ok (n.span, c), f)

def setRoot (id : NodeId) : Growing Unit :=
  fun c f => some (.ok ((), c), f.setRoot id)

/-- How a node is numbered whose place in the forest is given: by its place itself, or by what
becomes of it in 32 bits as long as that is the same. -/
abbrev Numbering := Nat → Option NodeId

def Numbering.word : Numbering :=
  fun n => if (UInt32.ofNat n).toNat = n then some n else none

variable (number : Numbering)

def add (kind : Kind) (span : Span) : Growing NodeId :=
  fun c f => (number f.size).map fun id => (.ok (id, c), (f.add kind span).1)

mutual

/-- Operands joined by operators of the given strata, the loosest outermost. -/
def level : List (List BinaryOp) → Nat → Growing NodeId
  | _, 0 => tooDeep
  | [], depth + 1 => unary depth
  | stratum :: tighter, depth + 1 => do
    let left ← level tighter depth
    operators stratum tighter left depth
termination_by structural _ depth => depth

/-- Goes on to the right of an operand for as long as operators of the stratum follow. -/
def operators (stratum : List BinaryOp) (tighter : List (List BinaryOp)) (left : NodeId) :
    Nat → Growing NodeId
  | 0 => tooDeep
  | depth + 1 => do
    match (← reading .current).bind (BinaryOp.ofToken? stratum) with
    | some op =>
      reading .skip
      let right ← level tighter depth
      let start ← spanOf left
      let stop ← spanOf right
      let whole ← add number (.binary op left right) (start.merge stop)
      operators stratum tighter whole depth
    | none => return left
termination_by structural depth => depth

def unary : Nat → Growing NodeId
  | 0 => tooDeep
  | depth + 1 => do
    let start ← reading .currentSpan
    match (← reading .current).bind UnaryOp.ofToken? with
    | some op =>
      reading .skip
      let operand ← unary depth
      let stop ← spanOf operand
      add number (.unary op operand) (start.merge stop)
    | none => primary depth
termination_by structural depth => depth

def primary : Nat → Growing NodeId
  | 0 => tooDeep
  | depth + 1 => do
    let span ← reading .currentSpan
    let found ← reading .current
    match found with
    | some (.integer spelling) =>
      let value ← reading (.integer spelling span)
      reading .skip
      add number (.literal (.int value)) span
    | some (.keyword .true_) =>
      reading .skip
      add number (.literal (.bool true)) span
    | some (.keyword .false_) =>
      reading .skip
      add number (.literal (.bool false)) span
    | some (.identifier _) =>
      let (name, start) ← reading .identifier
      if ← reading (.sees .leftParen) then
        let args ← arguments depth
        let span ← reading (.spanFrom start)
        add number (.call name args) span
      else
        location name start depth
    | some (.mark .leftParen) =>
      reading .skip
      let inner ← level BinaryOp.strata depth
      reading (.expect .rightParen)
      return inner
    | _ => reading (.fail (.noExpression found))
termination_by structural depth => depth

/-- The index behind a name, if one follows. The name has been taken. -/
def location (name : String) (start : Span) : Nat → Growing NodeId
  | 0 => tooDeep
  | depth + 1 => do
    if ← reading (.accept .leftBracket) then
      let index ← level BinaryOp.strata depth
      reading (.expect .rightBracket)
      let span ← reading (.spanFrom start)
      add number (.location name (some index)) span
    else
      let span ← reading (.spanFrom start)
      add number (.location name none) span
termination_by structural depth => depth

def arguments : Nat → Growing (List NodeId)
  | 0 => tooDeep
  | depth + 1 => do
    reading (.expect .leftParen)
    if ← reading (.sees .rightParen) then
      reading (.expect .rightParen)
      return []
    else
      let first ← level BinaryOp.strata depth
      let rest ← moreArguments depth
      reading (.expect .rightParen)
      return first :: rest
termination_by structural depth => depth

def moreArguments : Nat → Growing (List NodeId)
  | 0 => tooDeep
  | depth + 1 => do
    if (← reading .current) == some (.mark .comma) then
      reading .skip
      let first ← level BinaryOp.strata depth
      let rest ← moreArguments depth
      return first :: rest
    else
      return []
termination_by structural depth => depth

end

def expression : Nat → Growing NodeId :=
  level number BinaryOp.strata

def variableDeclaration : Growing NodeId := do
  let v ← reading .variableDeclaration
  add number (.variable v.name v.type v.length) v.span

def localVariables : Nat → Growing (List NodeId)
  | 0 => tooDeep
  | depth + 1 => do
    if (← reading .current).any Token.isType then
      let first ← variableDeclaration number
      let rest ← localVariables depth
      return first :: rest
    else
      return []

def assignmentOrCall (depth : Nat) : Growing NodeId := do
  let (name, start) ← reading .identifier
  if ← reading (.sees .leftParen) then
    let args ← arguments number depth
    reading (.expect .semicolon)
    let span ← reading (.spanFrom start)
    add number (.callStatement name args) span
  else
    let target ← location number name start depth
    reading (.expect .assign)
    let value ← expression number depth
    reading (.expect .semicolon)
    let span ← reading (.spanFrom start)
    add number (.assignment target value) span

def condition (depth : Nat) : Growing NodeId := do
  reading (.expect .leftParen)
  let test ← expression number depth
  reading (.expect .rightParen)
  return test

def returned? (depth : Nat) : Growing (Option NodeId) := do
  if ← reading (.sees .semicolon) then
    return none
  else
    return some (← expression number depth)

mutual

def block : Nat → Growing NodeId
  | 0 => tooDeep
  | depth + 1 => do
    let start ← reading .currentSpan
    reading (.expect .leftBrace)
    let vars ← localVariables number depth
    let body ← statements depth
    reading (.expect .rightBrace)
    let span ← reading (.spanFrom start)
    add number (.block vars body) span
termination_by structural depth => depth

def statements : Nat → Growing (List NodeId)
  | 0 => tooDeep
  | depth + 1 => do
    let found ← reading .current
    if found.isSome && found != some (.mark .rightBrace) then
      let first ← statement depth
      let rest ← statements depth
      return first :: rest
    else
      return []
termination_by structural depth => depth

def statement : Nat → Growing NodeId
  | 0 => tooDeep
  | depth + 1 => do
    let start ← reading .currentSpan
    let found ← reading .current
    match found with
    | some (.identifier _) => assignmentOrCall number depth
    | some (.keyword .if_) =>
      reading .skip
      let test ← condition number depth
      let yes ← block depth
      let no ← otherwise? depth
      let span ← reading (.spanFrom start)
      add number (.conditional test yes no) span
    | some (.keyword .while_) =>
      reading .skip
      let guard ← condition number depth
      let body ← block depth
      let span ← reading (.spanFrom start)
      add number (.whileLoop guard body) span
    | some (.keyword .return_) =>
      reading .skip
      let value ← returned? number depth
      reading (.expect .semicolon)
      let span ← reading (.spanFrom start)
      add number (.ret value) span
    | some (.keyword .break_) =>
      reading .skip
      reading (.expect .semicolon)
      let span ← reading (.spanFrom start)
      add number (.jump .exit) span
    | some (.keyword .continue_) =>
      reading .skip
      reading (.expect .semicolon)
      let span ← reading (.spanFrom start)
      add number (.jump .next) span
    | _ => reading (.fail (.expected .statement found))
termination_by structural depth => depth

def otherwise? : Nat → Growing (Option NodeId)
  | 0 => tooDeep
  | depth + 1 => do
    if (← reading .current) == some (.keyword .else_) then
      reading .skip
      return some (← block depth)
    else
      return none
termination_by structural depth => depth

end

def moreParameters : Nat → Growing (List Parameter)
  | 0 => tooDeep
  | depth + 1 => do
    if (← reading .current) == some (.mark .comma) then
      reading .skip
      let first ← reading .parameter
      let rest ← moreParameters depth
      return first :: rest
    else
      return []

def parameters (depth : Nat) : Growing (List Parameter) := do
  reading (.expect .leftParen)
  if ← reading (.sees .rightParen) then
    reading (.expect .rightParen)
    return []
  else
    let first ← reading .parameter
    let rest ← moreParameters depth
    reading (.expect .rightParen)
    return first :: rest

def function (depth : Nat) : Growing NodeId := do
  let start ← reading .currentSpan
  reading (.expectToken (.keyword .def_))
  let returns ← reading .dataType
  let (name, _) ← reading .identifier
  let params ← parameters depth
  let body ← block number depth
  let span ← reading (.spanFrom start)
  add number (.function name returns params body) span

/-- Gives the numbers of the variables and those of the functions. -/
def declarations : Nat → Growing (List NodeId × List NodeId)
  | 0 => tooDeep
  | depth + 1 => do
    let found ← reading .current
    if found.isNone then
      return ([], [])
    else if found == some (.keyword .def_) then
      let id ← function number depth
      let (vars, functions) ← declarations depth
      return (vars, id :: functions)
    else if found.any Token.isType then
      let id ← variableDeclaration number
      let (vars, functions) ← declarations depth
      return (id :: vars, functions)
    else
      reading (.fail (.expected .declaration found))

def program (depth : Nat) : Growing Unit := do
  let start ← reading .currentSpan
  let (vars, functions) ← declarations number depth
  let span ← reading (.spanFrom start)
  let root ← add number (.program vars functions) span
  setRoot root

/-- The outcome of parsing a text, and the forest there is by then. -/
def parse (source : String) (depth : Nat) : Option (Except ParseError Unit × Forest) :=
  match Cursor.ofScan (Scan.ofString source) with
  | .error e => some (.error e, {})
  | .ok start => (program number depth start {}).map fun (r, f) => (r.map Prod.fst, f)

/-- However deep calls may nest from some depth on, the result is the same. -/
def Settles {α : Type} (run : Nat → Option α) (a : α) : Prop :=
  ∃ depth, ∀ n, depth ≤ n → run n = some a

end Growing

end DecafCheck
