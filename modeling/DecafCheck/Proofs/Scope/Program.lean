import DecafCheck.Analysis.Basic
import DecafCheck.Proofs.Scope.Attached
import DecafCheck.Proofs.Tree.Parts

namespace DecafCheck

def Variable.symbol? (policy : Policy) (storage : Storage) (v : Variable) : Option Symbol :=
  policy.symbol? storage v.name v.type v.length v.span

def Function.symbol (g : Function) : Symbol :=
  .ofFunction g.name g.returns (g.parameters.map Parameter.type) g.span

/-- What a function declares for its body. -/
def Function.scope (g : Function) : List Symbol :=
  g.parameters.map .ofParameter

/-- What a block declares. -/
def Block.scope (policy : Policy) (b : Block) : List Symbol :=
  b.vars.filterMap (Variable.symbol? policy .frame)

/-- What a program declares, its variables before its functions. -/
def Program.scope (policy : Policy) (p : Program) : List Symbol :=
  p.vars.filterMap (Variable.symbol? policy .global) ++ p.functions.map Function.symbol

/-- The problems with variables, behind the declarations of `before`. -/
def Variable.scopeLogAll (policy : Policy) (storage : Storage) (before : List Symbol) :
    List Variable → List Diagnostic
  | [] => []
  | v :: vs =>
    variableLog policy storage before v.name v.type v.length v.span
      ++ scopeLogAll policy storage (before ++ (v.symbol? policy storage).toList) vs

mutual

/-- The problems with the declarations inside a statement. -/
def Stmt.scopeLog (policy : Policy) : Stmt → List Diagnostic
  | .branch _ yes none _ => Block.scopeLog policy yes
  | .branch _ yes (some no) _ => Block.scopeLog policy yes ++ Block.scopeLog policy no
  | .loop _ body _ => Block.scopeLog policy body
  | _ => []

def Stmt.scopeLogAll (policy : Policy) : List Stmt → List Diagnostic
  | [] => []
  | s :: rest => Stmt.scopeLog policy s ++ Stmt.scopeLogAll policy rest

/-- The problems with the declarations of a block and inside it. -/
def Block.scopeLog (policy : Policy) : Block → List Diagnostic
  | .mk vars statements _ =>
    Variable.scopeLogAll policy .frame [] vars ++ Stmt.scopeLogAll policy statements

end

/-- The problems with the parameters of a function and the declarations inside it. -/
def Function.scopeLog (policy : Policy) (g : Function) : List Diagnostic :=
  takenLogAll [] g.scope ++ g.body.scopeLog policy

/-- The problems with functions, behind the declarations of `before`, and inside them. -/
def Function.scopeLogAll (policy : Policy) (before : List Symbol) : List Function → List Diagnostic
  | [] => []
  | g :: gs =>
    takenLog before g.symbol ++ (g.scopeLog policy ++ scopeLogAll policy (before ++ [g.symbol]) gs)

/-- The problems with the declarations of a program. -/
def Program.scopeLog (policy : Policy) (p : Program) : List Diagnostic :=
  Variable.scopeLogAll policy .global [] p.vars
    ++ Function.scopeLogAll policy (p.vars.filterMap (Variable.symbol? policy .global)) p.functions

section Declares

variable (policy : Policy) (storage : Storage)

theorem Tree.declaresAll_eq (ts : List Tree) :
    declaresAll policy storage ts = ts.flatMap (declares policy storage) := by
  induction ts with
  | nil => rfl
  | cons t ts ih => rw [declaresAll, ih, List.flatMap_cons]

theorem Tree.declaresAll_append (ts us : List Tree) :
    declaresAll policy storage (ts ++ us) = declaresAll policy storage ts ++
      declaresAll policy storage us := by
  simp only [declaresAll_eq, List.flatMap_append]

theorem Tree.declaresAll_eq_nil {ts : List Tree} (h : ∀ t ∈ ts, declares policy storage t = []) :
    declaresAll policy storage ts = [] := by
  rw [declaresAll_eq, List.flatMap_eq_nil_iff]
  exact h

theorem Expr.declares_tree (e : Expr) (n : Nat) : (e.tree n).declares policy storage = [] := by
  induction e generalizing n with
  | literal value span => rfl
  | location name index span ih =>
    rw [tree_location]
    refine Tree.declaresAll_eq_nil policy storage fun c hc => ?_
    obtain ⟨i, hi, m, rfl⟩ := Tree.mem_row hc
    exact ih i (Option.mem_toList.mp hi) m
  | call name arguments span ih =>
    rw [tree_call]
    refine Tree.declaresAll_eq_nil policy storage fun c hc => ?_
    obtain ⟨a, ha, m, rfl⟩ := Tree.mem_row hc
    exact ih a ha m
  | unary op operand span ih => exact Tree.declaresAll_eq_nil policy storage (by simpa using ih n)
  | binary op left right span ihl ihr =>
    exact Tree.declaresAll_eq_nil policy storage (by simpa using ⟨ihl n, ihr _⟩)

theorem Block.declares_tree (b : Block) (n : Nat) : (b.tree n).declares policy storage = [] := by
  cases b
  rfl

theorem Stmt.declares_tree (s : Stmt) (n : Nat) : (s.tree n).declares policy storage = [] := by
  have hcs : Tree.declaresAll policy storage (s.tree n).children = [] := by
    refine Tree.declaresAll_eq_nil policy storage fun c hc => ?_
    rcases Part.child_of_statement hc with ⟨a, m, rfl⟩ | ⟨b, m, rfl⟩
    · exact a.declares_tree policy storage m
    · exact b.declares_tree policy storage m
  rcases s with _ | _ | ⟨_, _, _ | _, _⟩ | _ | _ | _
  all_goals exact hcs

theorem Variable.declares_tree (v : Variable) (n : Nat) :
    (v.tree n).declares policy storage = (v.symbol? policy storage).toList := rfl

theorem Function.declares_tree (g : Function) (n : Nat) :
    (g.tree n).declares policy storage = [g.symbol] := rfl

theorem Variable.declaresAll_each {vs : List Variable} {ts : List Tree} (h : Tree.Each tree vs ts) :
    Tree.declaresAll policy storage ts = vs.filterMap (symbol? policy storage) := by
  rw [Tree.declaresAll_eq, h.flatMap_eq fun v _ n _ => v.declares_tree policy storage n,
    List.filterMap_eq_flatMap_toList]

theorem Function.declaresAll_each {gs : List Function} {ts : List Tree} (h : Tree.Each tree gs ts) :
    Tree.declaresAll policy storage ts = gs.map symbol := by
  rw [Tree.declaresAll_eq, h.flatMap_eq fun g _ n _ => g.declares_tree policy storage n,
    ← List.map_eq_flatMap]

theorem Function.symbols_tree (g : Function) (n : Nat) :
    (g.tree n).symbols policy storage = g.scope := by
  have hb := g.body.declares_tree policy storage n
  simp [Tree.symbols, tree, Tree.above, Tree.declaresAll, hb, Kind.parameterSymbols, scope]

theorem Block.symbols_tree (b : Block) (n : Nat) :
    (b.tree n).symbols policy storage = b.vars.filterMap (Variable.symbol? policy storage) := by
  obtain ⟨vars, statements, span⟩ := b
  have hs : ∀ m, Tree.declaresAll policy storage (Tree.row Stmt.tree m statements) = [] := by
    refine fun m => Tree.declaresAll_eq_nil policy storage fun t ht => ?_
    obtain ⟨s, -, k, rfl⟩ := Tree.mem_row ht
    exact s.declares_tree policy storage k
  rw [Block.tree_mk]
  simp [Tree.symbols, Tree.above, Kind.parameterSymbols, Tree.declaresAll_append,
    Variable.declaresAll_each policy storage (Tree.each_row _ _ _), hs, Block.vars]

theorem Program.symbols_tree (p : Program) : p.tree.symbols policy .global = p.scope policy := by
  simp [Tree.symbols, tree, Kind.parameterSymbols, Tree.declaresAll_append,
    Variable.declaresAll_each policy .global p.each_vars,
    Function.declaresAll_each policy .global p.each_functions, scope]

end Declares

section Log

variable (policy : Policy)

theorem Stmt.scopeLogAll_eq (ss : List Stmt) :
    scopeLogAll policy ss = ss.flatMap (scopeLog policy) := by
  induction ss with
  | nil => rfl
  | cons s ss ih => rw [scopeLogAll, ih, List.flatMap_cons]

theorem Block.scopeLog_eq (b : Block) :
    b.scopeLog policy =
      Variable.scopeLogAll policy .frame [] b.vars ++
        b.statements.flatMap (Stmt.scopeLog policy) := by
  cases b
  rw [scopeLog, Stmt.scopeLogAll_eq]
  rfl

theorem Tree.scopeLogAll_append (storage : Storage) (before : List Symbol) (ts us : List Tree) :
    scopeLogAll policy storage before (ts ++ us) =
      scopeLogAll policy storage before ts
        ++ scopeLogAll policy storage (before ++ declaresAll policy storage ts) us := by
  induction ts generalizing before with
  | nil => simp [scopeLogAll, declaresAll]
  | cons t ts ih => simp only [List.cons_append, scopeLogAll, ih, declaresAll, List.append_assoc]

/-- Trees that declare nothing do not get in each other's way. -/
theorem Tree.scopeLogAll_of_declares_nil (storage : Storage) (before : List Symbol) {ts : List Tree}
    (h : ∀ t ∈ ts, declares policy storage t = []) :
    scopeLogAll policy storage before ts = ts.flatMap (scopeLog policy storage before) := by
  induction ts with
  | nil => rfl
  | cons t ts ih =>
    rw [scopeLogAll, h t List.mem_cons_self, List.append_nil,
      ih fun u hu => h u (List.mem_cons_of_mem t hu), List.flatMap_cons]

theorem Expr.scopeLog_tree (e : Expr) (storage : Storage) (before : List Symbol) (n : Nat) :
    (e.tree n).scopeLog policy storage before = [] := by
  have hall {ts : List Tree} (h : ∀ t ∈ ts, t.declares policy storage = [] ∧
      t.scopeLog policy storage before = []) : Tree.scopeLogAll policy storage before ts = [] := by
    rw [Tree.scopeLogAll_of_declares_nil policy storage before fun t ht => (h t ht).1,
      List.flatMap_eq_nil_iff]
    exact fun t ht => (h t ht).2
  induction e generalizing n with
  | literal value span => rfl
  | location name index span ih =>
    rw [tree_location]
    refine hall fun c hc => ?_
    obtain ⟨i, hi, m, rfl⟩ := Tree.mem_row hc
    exact ⟨i.declares_tree policy storage m, ih i (Option.mem_toList.mp hi) m⟩
  | call name arguments span ih =>
    rw [tree_call]
    refine hall fun c hc => ?_
    obtain ⟨a, ha, m, rfl⟩ := Tree.mem_row hc
    exact ⟨a.declares_tree policy storage m, ih a ha m⟩
  | unary op operand span ih =>
    exact hall (by simpa using ⟨operand.declares_tree policy storage n, ih n⟩)
  | binary op left right span ihl ihr =>
    exact hall (by
      simpa using ⟨⟨left.declares_tree policy storage n, ihl n⟩,
        right.declares_tree policy storage _, ihr _⟩)

theorem Variable.scopeLogAll_each {vs : List Variable} {ts : List Tree} (h : Tree.Each tree vs ts)
    (storage : Storage) (before : List Symbol) :
    Tree.scopeLogAll policy storage before ts = scopeLogAll policy storage before vs := by
  induction h generalizing before with
  | nil => rfl
  | @cons v t vs ts hat _ ih =>
    obtain ⟨m, rfl⟩ := hat
    rw [Tree.scopeLogAll, ih, declares_tree]
    rfl

theorem Expr.scopeLog_row (es : List Expr) (storage : Storage) (before : List Symbol) (n : Nat) :
    (Tree.row tree n es).flatMap (Tree.scopeLog policy storage before) = [] := by
  rw [List.flatMap_eq_nil_iff]
  intro c hc
  obtain ⟨e, -, m, rfl⟩ := Tree.mem_row hc
  exact e.scopeLog_tree policy storage before m

/-- A statement's log is that of its children, and none of them declares anything in the scope
around it. -/
theorem Stmt.scopeLog_children (s : Stmt) (storage : Storage) (before : List Symbol) (n : Nat) :
    (s.tree n).scopeLog policy storage before =
      (s.tree n).children.flatMap (Tree.scopeLog policy storage before) := by
  rw [← Tree.scopeLogAll_of_declares_nil policy storage before]
  · rcases s with _ | _ | ⟨_, _, _ | _, _⟩ | _ | _ | _ <;> rfl
  · intro c hc
    rcases Part.child_of_statement hc with ⟨a, m, rfl⟩ | ⟨b, m, rfl⟩
    · exact a.declares_tree policy storage m
    · exact b.declares_tree policy storage m

theorem Stmt.scopeLog_tree_and :
    (∀ (s : Stmt) (storage : Storage) (before : List Symbol) (n : Nat),
      (s.tree n).scopeLog policy storage before = s.scopeLog policy) ∧
    ∀ (b : Block) (storage : Storage) (before : List Symbol) (n : Nat),
      (b.tree n).scopeLog policy storage before = b.scopeLog policy := by
  apply Stmt.induct
  case assign =>
    intro name index target value span storage before n
    rw [scopeLog_children]
    simp [tree, Tree.above, Expr.scopeLog_tree, scopeLog]
  case call =>
    intro name arguments span storage before n
    rw [scopeLog_children]
    exact Expr.scopeLog_row policy arguments storage before n
  case branch =>
    intro condition yes no span hy hn storage before n
    rw [scopeLog_children]
    cases no with
    | none => simp [tree, Tree.above, Expr.scopeLog_tree, scopeLog, hy]
    | some no => simp [tree, Tree.above, Expr.scopeLog_tree, scopeLog, hy, hn no rfl]
  case loop =>
    intro guard body span hb storage before n
    rw [scopeLog_children]
    simp [tree, Tree.above, Expr.scopeLog_tree, scopeLog, hb]
  case ret =>
    intro value span storage before n
    rw [scopeLog_children]
    exact Expr.scopeLog_row policy value.toList storage before n
  case jump =>
    intro j span storage before n
    rfl
  case mk =>
    intro vars statements span ih storage before n
    rw [Block.tree_mk, Block.scopeLog, Stmt.scopeLogAll_eq]
    refine (Tree.scopeLogAll_append policy .frame [] _ _).trans ?_
    rw [Variable.scopeLogAll_each policy (Tree.each_row _ _ _), Tree.scopeLogAll_of_declares_nil,
      (Tree.each_row _ _ _).flatMap_eq fun s hs m _ => ih s hs .frame _ m]
    intro c hc
    obtain ⟨s, -, m, rfl⟩ := Tree.mem_row hc
    exact s.declares_tree policy .frame m

theorem Function.scopeLog_tree (g : Function) (storage : Storage) (before : List Symbol) (n : Nat) :
    (g.tree n).scopeLog policy storage before = takenLog before g.symbol ++ g.scopeLog policy := by
  have hbody := (Stmt.scopeLog_tree_and policy).2 g.body .frame g.scope n
  rw [scopeLog, ← hbody, ← List.append_nil ((g.body.tree n).scopeLog policy .frame g.scope)]
  rfl

theorem Function.scopeLogAll_each {gs : List Function} {ts : List Tree} (h : Tree.Each tree gs ts)
    (storage : Storage) (before : List Symbol) :
    Tree.scopeLogAll policy storage before ts = scopeLogAll policy before gs := by
  induction h generalizing before with
  | nil => rfl
  | @cons g t gs ts hat _ ih =>
    obtain ⟨m, rfl⟩ := hat
    rw [Tree.scopeLogAll, ih, declares_tree, scopeLog_tree, scopeLogAll, List.append_assoc]

theorem Program.scopeLog_tree (p : Program) :
    Tree.scopeLogAll policy .global [] p.tree.children = p.scopeLog policy := by
  refine (Tree.scopeLogAll_append policy .global [] _ _).trans ?_
  rw [Variable.scopeLogAll_each policy p.each_vars,
    Variable.declaresAll_each policy .global p.each_vars,
    Function.scopeLogAll_each policy p.each_functions]
  rfl

end Log

namespace Program

/-- The forest of a program, with parents but without tables. -/
def grown (p : Program) : Forest :=
  p.plant.linked

/-- The forest of a program, with parents and tables. -/
def annotated (policy : Policy) (p : Program) : Forest :=
  p.grown.withTables (p.tree.tables policy)

theorem forest_eq (p : Program) : p.forest = .ok p.grown :=
  p.plant_carries.link_eq

theorem grown_carries (p : Program) : p.grown.Carries p.tree :=
  p.plant_carries.of_alike p.plant_carries.linked_alike

theorem grown_linked (p : Program) : p.grown.Linked p.tree :=
  p.plant_carries.linked

theorem grown_tables (p : Program) : p.grown.tables = {} := by
  rw [grown, p.plant_carries.tables_linked, plant_eq]
  rfl

theorem tableOf?_grown (p : Program) (id : NodeId) : p.grown.tableOf? id = none := by
  rw [grown, p.plant_carries.tableOf?_linked, plant_eq]
  exact Forest.tableOf?_grow_empty _ id

/-- Building the scopes of a program goes through. -/
theorem buildScopes_eq (policy : Policy) (p : Program) :
    p.grown.buildScopes policy = ⟨p.annotated policy, p.scopeLog policy, none⟩ := by
  rw [← scopeLog_tree]
  exact p.grown_carries.buildScopes_eq p.grown_tables policy rfl

theorem annotated_built (policy : Policy) (p : Program) :
    (p.annotated policy).Built policy p.tree :=
  p.grown_carries.built p.grown_linked p.tableOf?_grown policy rfl

end Program

theorem Forest.parse_eq (source : String) :
    Forest.parse source = (Program.parse source).mapError Stop.ofParseError >>=
      fun p => .ok p.grown := by
  simp only [parse, Program.forest_eq]
  rfl

theorem Forest.parse_eq_error {source : String} {e : ParseError}
    (h : Program.parse source = .error e) :
    parse source = .error (Stop.ofParseError e) := by
  rw [parse_eq, h]
  rfl

theorem Forest.parse_eq_ok_iff {source : String} {f : Forest} :
    parse source = .ok f ↔ ∃ p, Program.parse source = .ok p ∧ f = p.grown := by
  rw [parse_eq]
  cases Program.parse source with
  | error e => simp [Except.mapError, bind, Except.bind]
  | ok p => simp [Except.mapError, bind, Except.bind, eq_comm]

end DecafCheck
