import DecafCheck.Proofs.Grammar.Form

namespace DecafCheck

def Jump.token : Jump → Token
  | exit => .keyword .break_
  | next => .keyword .continue_

namespace Concrete

/-- Derivations of expressions. They keep every pair of parentheses and every spelling; parentheses
stand for what is inside them. -/
inductive Expr
  | integer (spelling : String)
  | truth (value : Bool)
  | location (name : String) (index : Option Expr)
  | call (name : String) (arguments : List Expr)
  | group (inner : Expr)
  | unary (op : UnaryOp) (operand : Expr)
  | binary (op : BinaryOp) (left right : Expr)

namespace Expr

/-- The stratum of the grammar that a derivation is of. The strata of the binary operators come
first, then that of the unary ones and then that of primary expressions. -/
def stratum : Expr → Nat
  | .binary op _ _ => op.stratum
  | .unary _ _ => UnaryOp.stratum
  | _ => UnaryOp.stratum + 1

/-- Operators have operands of tighter strata, but on the left one of their own stratum may stand as
well. -/
inductive Proper : Expr → Prop
  | integer {spelling : String} : Integer.value spelling < integerBound → Proper (.integer spelling)
  | truth {value : Bool} : Proper (.truth value)
  | location {name : String} {index : Option Expr} : (∀ i ∈ index, Proper i) →
      Proper (.location name index)
  | call {name : String} {arguments : List Expr} : (∀ a ∈ arguments, Proper a) →
      Proper (.call name arguments)
  | group {inner : Expr} : Proper inner → Proper (.group inner)
  | unary {op : UnaryOp} {operand : Expr} : UnaryOp.stratum ≤ operand.stratum → Proper operand →
      Proper (.unary op operand)
  | binary {op : BinaryOp} {left right : Expr} : op.stratum ≤ left.stratum →
      op.stratum < right.stratum → Proper left → Proper right → Proper (.binary op left right)

mutual

def tokens : Expr → List Token
  | .integer spelling => [.integer spelling]
  | .truth value => [(Literal.bool value).token]
  | .location name none => [.identifier name]
  | .location name (some index) =>
    .identifier name :: .mark .leftBracket :: (tokens index ++ [.mark .rightBracket])
  | .call name arguments =>
    .identifier name :: .mark .leftParen :: (rowTokens arguments ++ [.mark .rightParen])
  | .group inner => .mark .leftParen :: (tokens inner ++ [.mark .rightParen])
  | .unary op operand => op.token :: tokens operand
  | .binary op left right => tokens left ++ op.token :: tokens right

/-- Derivations with commas between them. -/
def rowTokens : List Expr → List Token
  | [] => []
  | e :: rest => tokens e ++ laterTokens rest

def laterTokens : List Expr → List Token
  | [] => []
  | e :: rest => .mark .comma :: (tokens e ++ laterTokens rest)

end

mutual

def along : List Lexeme → Expr → DecafCheck.Expr
  | ls, .integer spelling => .literal (.int (Integer.value spelling)) (Lexeme.spanAt ls 0)
  | ls, .truth value => .literal (.bool value) (Lexeme.spanAt ls 0)
  | ls, .location name none => .location name none (Lexeme.cover ls 1)
  | ls, .location name (some index) =>
    .location name (some (along (ls.drop 2) index)) (Lexeme.cover ls ((tokens index).length + 3))
  | ls, .call name arguments =>
    .call name (alongRow (ls.drop 2) arguments) (Lexeme.cover ls ((rowTokens arguments).length + 3))
  | ls, .group inner => along (ls.drop 1) inner
  | ls, .unary op operand =>
    let e := along (ls.drop 1) operand
    .unary op e ((Lexeme.spanAt ls 0).merge e.span)
  | ls, .binary op left right =>
    let l := along ls left
    let r := along (ls.drop ((tokens left).length + 1)) right
    .binary op l r (l.span.merge r.span)

def alongRow : List Lexeme → List Expr → List DecafCheck.Expr
  | _, [] => []
  | ls, e :: rest => along ls e :: alongRow (ls.drop ((tokens e).length + 1)) rest

end

end Expr

structure Variable where
  type : DataType
  name : String
  length : Option String

namespace Variable

def Proper (v : Variable) : Prop :=
  ∀ spelling ∈ v.length, Integer.value spelling < arrayBound

def lengthTokens : Option String → List Token
  | none => []
  | some spelling => [.mark .leftBracket, .integer spelling, .mark .rightBracket]

def tokens (v : Variable) : List Token :=
  v.type.token :: .identifier v.name :: (lengthTokens v.length ++ [.mark .semicolon])

def along (ls : List Lexeme) (v : Variable) : DecafCheck.Variable :=
  ⟨v.name, v.type, (v.length.map Integer.value).getD 1, Lexeme.cover ls v.tokens.length⟩

def form : Form Variable DecafCheck.Variable :=
  ⟨Proper, tokens, along⟩

end Variable

mutual

inductive Stmt
  | assign (name : String) (index : Option Expr) (value : Expr)
  | call (name : String) (arguments : List Expr)
  | branch (condition : Expr) (yes : Block) (no : Option Block)
  | loop (guard : Expr) (body : Block)
  | ret (value : Option Expr)
  | jump (j : Jump)

inductive Block
  | mk (vars : List Variable) (statements : List Stmt)

end

mutual

inductive Stmt.Proper : Stmt → Prop
  | assign {name : String} {index : Option Expr} {value : Expr} : (∀ i ∈ index, i.Proper) →
      value.Proper → Stmt.Proper (.assign name index value)
  | call {name : String} {arguments : List Expr} : (∀ a ∈ arguments, a.Proper) →
      Stmt.Proper (.call name arguments)
  | branch {condition : Expr} {yes : Block} {no : Option Block} : condition.Proper →
      Block.Proper yes → (∀ b ∈ no, Block.Proper b) → Stmt.Proper (.branch condition yes no)
  | loop {guard : Expr} {body : Block} : guard.Proper → Block.Proper body →
      Stmt.Proper (.loop guard body)
  | ret {value : Option Expr} : (∀ e ∈ value, e.Proper) → Stmt.Proper (.ret value)
  | jump {j : Jump} : Stmt.Proper (.jump j)

inductive Block.Proper : Block → Prop
  | mk {vars : List Variable} {statements : List Stmt} : (∀ v ∈ vars, v.Proper) →
      (∀ s ∈ statements, Stmt.Proper s) → Block.Proper (.mk vars statements)

end

mutual

def Stmt.tokens : Stmt → List Token
  | .assign name index value =>
    (Expr.location name index).tokens ++ .mark .assign :: (value.tokens ++ [.mark .semicolon])
  | .call name arguments => (Expr.call name arguments).tokens ++ [.mark .semicolon]
  | .branch condition yes no =>
    .keyword .if_ :: .mark .leftParen ::
      (condition.tokens ++ .mark .rightParen :: (Block.tokens yes ++ Block.elseTokens no))
  | .loop guard body =>
    .keyword .while_ :: .mark .leftParen :: (guard.tokens ++ .mark .rightParen :: Block.tokens body)
  | .ret none => [.keyword .return_, .mark .semicolon]
  | .ret (some value) => .keyword .return_ :: (value.tokens ++ [.mark .semicolon])
  | .jump j => [j.token, .mark .semicolon]

def Block.tokens : Block → List Token
  | .mk vars statements =>
    .mark .leftBrace ::
      (Variable.form.many.tokens vars ++ (Stmt.tokensAll statements ++ [.mark .rightBrace]))

def Block.elseTokens : Option Block → List Token
  | none => []
  | some b => .keyword .else_ :: Block.tokens b

def Stmt.tokensAll : List Stmt → List Token
  | [] => []
  | s :: rest => Stmt.tokens s ++ Stmt.tokensAll rest

end

mutual

def Stmt.along : List Lexeme → Stmt → DecafCheck.Stmt
  | ls, .assign name index value =>
    let target := (Expr.location name index).tokens.length
    .assign name (index.map (Expr.along (ls.drop 2))) (Lexeme.cover ls target)
    (value.along (ls.drop (target + 1)))
      (Lexeme.cover ls (Stmt.tokens (.assign name index value)).length)
  | ls, .call name arguments =>
    .call name (Expr.alongRow (ls.drop 2) arguments)
      (Lexeme.cover ls (Stmt.tokens (.call name arguments)).length)
  | ls, .branch condition yes no =>
    let before := condition.tokens.length + 3
    .branch (condition.along (ls.drop 2)) (Block.along (ls.drop before) yes)
      (Block.alongElse (ls.drop (before + (Block.tokens yes).length)) no)
      (Lexeme.cover ls (Stmt.tokens (.branch condition yes no)).length)
  | ls, .loop guard body =>
    .loop (guard.along (ls.drop 2)) (Block.along (ls.drop (guard.tokens.length + 3)) body)
      (Lexeme.cover ls (Stmt.tokens (.loop guard body)).length)
  | ls, .ret value =>
    .ret (value.map (Expr.along (ls.drop 1))) (Lexeme.cover ls (Stmt.tokens (.ret value)).length)
  | ls, .jump j => .jump j (Lexeme.cover ls 2)

def Block.along : List Lexeme → Block → DecafCheck.Block
  | ls, .mk vars statements =>
    .mk (Variable.form.many.along (ls.drop 1) vars)
      (Stmt.alongAll (ls.drop (1 + (Variable.form.many.tokens vars).length)) statements)
      (Lexeme.cover ls (Block.tokens (.mk vars statements)).length)

def Block.alongElse : List Lexeme → Option Block → Option DecafCheck.Block
  | _, none => none
  | ls, some b => some (Block.along (ls.drop 1) b)

def Stmt.alongAll : List Lexeme → List Stmt → List DecafCheck.Stmt
  | _, [] => []
  | ls, s :: rest => Stmt.along ls s :: Stmt.alongAll (ls.drop (Stmt.tokens s).length) rest

end

structure Parameter where
  type : DataType
  name : String

def Parameter.form : Form Parameter DecafCheck.Parameter where
  Proper _ := True
  tokens p := [p.type.token, .identifier p.name]
  along ls p := ⟨p.name, p.type, Lexeme.cover ls 2⟩

structure Function where
  returns : DataType
  name : String
  parameters : List Parameter
  body : Block

namespace Function

def Proper (g : Function) : Prop :=
  g.body.Proper

def tokens (g : Function) : List Token :=
  .keyword .def_ :: g.returns.token :: .identifier g.name ::
    (Parameter.form.parenthesized.tokens g.parameters ++ g.body.tokens)

def along (ls : List Lexeme) (g : Function) : DecafCheck.Function :=
  ⟨g.name, g.returns, Parameter.form.parenthesized.along (ls.drop 3) g.parameters,
    g.body.along (ls.drop (3 + (Parameter.form.parenthesized.tokens g.parameters).length)),
    Lexeme.cover ls g.tokens.length⟩

def form : Form Function DecafCheck.Function :=
  ⟨Proper, tokens, along⟩

end Function

inductive Declaration
  | variable (v : Variable)
  | function (g : Function)

namespace Declaration

def Proper : Declaration → Prop
  | .variable v => v.Proper
  | .function g => g.Proper

def tokens : Declaration → List Token
  | .variable v => v.tokens
  | .function g => g.tokens

def along (ls : List Lexeme) : Declaration → DecafCheck.Declaration
  | .variable v => .variable (v.along ls)
  | .function g => .function (g.along ls)

def form : Form Declaration DecafCheck.Declaration :=
  ⟨Proper, tokens, along⟩

end Declaration

structure Program where
  declarations : List Declaration

namespace Program

def Proper (p : Program) : Prop :=
  ∀ d ∈ p.declarations, d.Proper

def tokens (p : Program) : List Token :=
  p.declarations.flatMap Declaration.tokens

/-- Without declarations, the span is that of the whole text of `length` bytes. -/
def along (length : Nat) (ls : List Lexeme) (p : Program) : DecafCheck.Program :=
  ⟨Declaration.form.many.along ls p.declarations,
    if p.declarations = [] then ⟨0, length⟩ else Lexeme.cover ls p.tokens.length⟩

end Program

end Concrete

end DecafCheck
