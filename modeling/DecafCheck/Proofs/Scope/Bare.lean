import DecafCheck.Proofs.Scope.Sketched
import DecafCheck.Forest.Dump

namespace DecafCheck

/-- A kind without the spans of parameters. -/
def Kind.bare : Kind → Kind
  | .function name returns parameters body =>
    .function name returns (parameters.map Parameter.bare) body
  | k => k

def Node.bare (n : Node) : Node :=
  { n with kind := n.kind.bare, span := .nowhere }

def Table.bare (t : Table) : Table :=
  { t with symbols := bareScope t.symbols }

def Tables.bare (t : Tables) : Tables :=
  ⟨t.tables.map Table.bare⟩

/-- What is left of a forest without its spans. -/
def Forest.bare (f : Forest) : Forest :=
  ⟨f.nodes.map Node.bare, f.root, f.tables.bare⟩

namespace Kind

variable (k : Kind)

theorem children_bare : k.bare.children = k.children := by
  cases k <;> rfl

theorem opensScope_bare : k.bare.opensScope = k.opensScope := by
  cases k <;> rfl

theorem owner_bare : k.bare.owner = k.owner := by
  cases k <;> rfl

end Kind

namespace Forest

variable (f : Forest)

theorem size_bare : f.bare.size = f.size :=
  Array.size_map

theorem node?_bare (id : NodeId) : f.bare.node? id = (f.node? id).map Node.bare :=
  Array.getElem?_map

theorem add_bare (k : Kind) (span : Span) :
    f.bare.add k.bare .nowhere = Prod.map bare id (f.add k span) := by
  unfold add
  rw [size_bare, Prod.map_apply, bare, bare, Array.map_push]
  rfl

theorem alter_bare (id : NodeId) {change : Node → Node} (h : ∀ n, (change n).bare = change n.bare) :
    f.bare.alter id change = (f.alter id change).bare := by
  have hnodes : (f.nodes.map Node.bare).modify id change =
      (f.nodes.modify id change).map Node.bare := by
    apply Array.ext_getElem?
    intro i
    simp only [Array.getElem?_modify, Array.getElem?_map]
    split
    · cases f.nodes[i]? with
      | none => rfl
      | some n => exact congrArg some (h n).symm
    · rfl
  rw [alter, alter, bare, bare, ← hnodes]

theorem setParent_bare (parent : Option NodeId) (id : NodeId) :
    f.bare.setParent parent id = (f.setParent parent id).bare :=
  f.alter_bare id fun _ => rfl

theorem attach_bare (id : NodeId) (table : TableId) :
    f.bare.attach id table = (f.attach id table).bare :=
  f.alter_bare id fun _ => rfl

theorem setParents_bare (links : List (NodeId × NodeId)) :
    f.bare.setParents links = (f.setParents links).bare := by
  induction links generalizing f with
  | nil => rfl
  | cons link links ih =>
    show (f.bare.setParent (some link.2) link.1).setParents links = _
    rw [setParent_bare, ih]
    rfl

theorem links_bare : f.bare.links = f.links := by
  simp only [links, bare, Array.toList_map, List.zipIdx_map, List.flatMap_map, Prod.map, Node.bare,
    Kind.children_bare, id]

theorem linked_bare {r : NodeId} (hr : f.root = some r) : f.bare.linked = f.linked.bare := by
  have hr' : f.bare.root = some r := hr
  rw [linked_eq hr', linked_eq hr, links_bare, setParents_bare, setParent_bare]

end Forest

section Planting

open Forest (add_bare)

theorem Expr.plantAll_bare {es : List Expr}
    (h : ∀ e ∈ es, ∀ f, plant f.bare e.bare = Prod.map Forest.bare id (plant f e)) (f : Forest) :
    plantAll f.bare (es.map bare) = Prod.map Forest.bare id (plantAll f es) := by
  induction es generalizing f with
  | nil => rfl
  | cons e es ih =>
    rw [List.map_cons, plantAll, plantAll, h e List.mem_cons_self]
    dsimp only [Prod.map_fst, Prod.map_snd, id]
    rw [ih fun d hd => h d (List.mem_cons_of_mem e hd)]
    rfl

theorem Expr.plant_bare (e : Expr) (f : Forest) :
    plant f.bare e.bare = Prod.map Forest.bare id (plant f e) := by
  induction e generalizing f with
  | literal value span => exact add_bare f (.literal value) span
  | location name index span ih =>
    cases index with
    | none => exact add_bare f (.location name none) span
    | some i =>
      rw [bare, plant, plant, ih i rfl]
      exact add_bare _ (.location name (some _)) span
  | call name arguments span ih =>
    rw [bare_call, plant, plant, plantAll_bare ih]
    exact add_bare _ (.call name _) span
  | unary op operand span ih =>
    rw [bare, plant, plant, ih]
    exact add_bare _ (.unary op _) span
  | binary op left right span ihl ihr =>
    rw [bare, plant, plant, ihl]
    dsimp only [Prod.map_fst, Prod.map_snd, id]
    rw [ihr]
    exact add_bare _ (.binary op _ _) span

theorem Expr.plant?_bare (e : Option Expr) (f : Forest) :
    plant? f.bare (e.map bare) = Prod.map Forest.bare id (plant? f e) := by
  cases e with
  | none => rfl
  | some e =>
    rw [Option.map_some, plant?, plant?, plant_bare]
    rfl

theorem Variable.plant_bare (v : Variable) (f : Forest) :
    v.bare.plant f.bare = Prod.map Forest.bare id (v.plant f) :=
  add_bare f (.variable v.name v.type v.length) v.span

theorem Variable.plantAll_bare (vs : List Variable) (f : Forest) :
    plantAll f.bare (vs.map bare) = Prod.map Forest.bare id (plantAll f vs) := by
  induction vs generalizing f with
  | nil => rfl
  | cons v vs ih =>
    rw [List.map_cons, plantAll, plantAll, plant_bare]
    dsimp only [Prod.map_fst, Prod.map_snd, id]
    rw [ih]
    rfl

theorem Stmt.plantAll_bare {ss : List Stmt}
    (h : ∀ s ∈ ss, ∀ f, plant f.bare s.bare = Prod.map Forest.bare id (plant f s)) (f : Forest) :
    plantAll f.bare (ss.map bare) = Prod.map Forest.bare id (plantAll f ss) := by
  induction ss generalizing f with
  | nil => rfl
  | cons s ss ih =>
    rw [List.map_cons, plantAll, plantAll, h s List.mem_cons_self]
    dsimp only [Prod.map_fst, Prod.map_snd, id]
    rw [ih fun d hd => h d (List.mem_cons_of_mem s hd)]
    rfl

theorem Stmt.plant_bare_and :
    (∀ s : Stmt, ∀ f, plant f.bare s.bare = Prod.map Forest.bare id (plant f s)) ∧
      ∀ b : Block, ∀ f, Block.plant f.bare b.bare = Prod.map Forest.bare id (Block.plant f b) := by
  apply Stmt.induct
  case assign =>
    intro name index target value span f
    rw [bare, plant, plant, Expr.plant?_bare]
    dsimp only [Prod.map_fst, Prod.map_snd, id]
    -- the target is planted as a location of its own, between its index and the value
    have hlocation := add_bare (Expr.plant? f index).1
      (.location name (Expr.plant? f index).2) target
    dsimp only [Kind.bare] at hlocation
    rw [hlocation]
    dsimp only [Prod.map_fst, Prod.map_snd, id]
    rw [Expr.plant_bare]
    exact add_bare _ (.assignment _ _) span
  case call =>
    intro name arguments span f
    rw [bare, plant, plant, Expr.plantAll_bare fun e _ => e.plant_bare]
    exact add_bare _ (.callStatement name _) span
  case branch =>
    intro condition yes no span hyes hno f
    cases no with
    | none =>
      rw [bare, Block.bare?, plant, plant, Expr.plant_bare]
      dsimp only [Prod.map_fst, Prod.map_snd, id]
      rw [hyes]
      exact add_bare _ (.conditional _ _ none) span
    | some no =>
      rw [bare, Block.bare?, plant, plant, Expr.plant_bare]
      dsimp only [Prod.map_fst, Prod.map_snd, id]
      rw [hyes]
      dsimp only [Prod.map_fst, Prod.map_snd, id]
      rw [hno no rfl]
      exact add_bare _ (.conditional _ _ (some _)) span
  case loop =>
    intro guard body span hbody f
    rw [bare, plant, plant, Expr.plant_bare]
    dsimp only [Prod.map_fst, Prod.map_snd, id]
    rw [hbody]
    exact add_bare _ (.whileLoop _ _) span
  case ret =>
    intro value span f
    rw [bare, plant, plant, Expr.plant?_bare]
    exact add_bare _ (.ret _) span
  case jump => exact fun j span f => add_bare f (.jump j) span
  case mk =>
    intro vars statements span ih f
    rw [Block.bare, Stmt.bareAll_eq, Block.plant, Block.plant, Variable.plantAll_bare]
    dsimp only [Prod.map_fst, Prod.map_snd, id]
    rw [plantAll_bare ih]
    exact add_bare _ (.block _ _) span

theorem Declaration.plantAll_bare (ds : List Declaration) (f : Forest) :
    plantAll f.bare (ds.map bare) = Prod.map Forest.bare id (plantAll f ds) := by
  induction ds generalizing f with
  | nil => rfl
  | cons d ds ih =>
    cases d with
    | «variable» v =>
      rw [List.map_cons, bare, plantAll, plantAll, v.plant_bare]
      dsimp only [Prod.map_fst, Prod.map_snd, id]
      rw [ih]
      rfl
    | function g =>
      have hg : g.bare.plant f.bare = Prod.map Forest.bare id (g.plant f) := by
        rw [Function.plant, Function.plant, Function.bare, Stmt.plant_bare_and.2]
        exact add_bare _ (.function g.name g.returns g.parameters _) g.span
      rw [List.map_cons, bare, plantAll, plantAll, hg]
      dsimp only [Prod.map_fst, Prod.map_snd, id]
      rw [ih]
      rfl

theorem Program.plant_bare (p : Program) : p.bare.plant = p.plant.bare := by
  have hempty : ({} : Forest).bare = {} := by simp [Forest.bare, Tables.bare]
  have hds := Declaration.plantAll_bare p.declarations {}
  rw [hempty] at hds
  rw [plant, plant, bare, hds]
  dsimp only [Prod.map_fst, Prod.map_snd, id]
  have hroot := add_bare (Declaration.plantAll {} p.declarations).1
    (.program (Declaration.plantAll {} p.declarations).2.1
      (Declaration.plantAll {} p.declarations).2.2) p.span
  dsimp only [Kind.bare] at hroot
  rw [hroot]
  rfl

end Planting

def Malformed.bare : Malformed → Malformed
  | .outsideScope _ => .outsideScope .nowhere
  | .noTable node _ => .noTable node .nowhere
  | m => m

def Stop.bare : Stop → Stop
  | .malformed m => .malformed m.bare
  | stop => stop

def Step.bare : Step → Step
  | .enter id kind _ => .enter id kind.bare .nowhere
  | .leave id kind _ => .leave id kind.bare .nowhere
  | .broken f => .broken f

theorem Forest.tourWithin_bare (f : Forest) (depth : Nat) (id : NodeId) :
    f.bare.tourWithin depth id = (f.tourWithin depth id).map Step.bare := by
  induction depth generalizing id with
  | zero => rfl
  | succ depth ih =>
    rw [tourWithin, tourWithin, node?_bare, size_bare]
    cases f.node? id with
    | none => rfl
    | some n =>
      have hchildren : n.bare.kind.children.flatMap (f.bare.tourWithin depth) =
          (n.kind.children.flatMap (f.tourWithin depth)).map Step.bare := by
        rw [List.map_flatMap, Node.bare, n.kind.children_bare]
        exact List.flatMap_congr fun id _ => ih id
      simp only [Option.map_some, hchildren, List.map_cons, List.map_append, List.map_nil]
      rfl

theorem Forest.tour_bare (f : Forest) (id : NodeId) :
    f.bare.tour id = (f.tour id).map Step.bare := by
  rw [tour, size_bare]
  exact f.tourWithin_bare _ id

theorem Table.insert_bare (t : Table) (s : Symbol) :
    t.bare.insert (s.moved .forget) = (t.insert s).map Table.bare := by
  have hfind : t.bare.find? s.name = (t.find? s.name).map (Symbol.moved .forget) :=
    declared?_bareScope t.symbols s.name
  unfold insert
  rw [show (s.moved .forget).name = s.name from rfl, hfind]
  cases t.find? s.name with
  | some _ => rfl
  | none =>
    show Except.ok _ = Except.ok _
    rw [bare, bare, bareScope_append]
    rfl

namespace Tables

variable (t : Tables)

theorem size_bare : t.bare.size = t.size :=
  Array.size_map

theorem getElem?_bare (id : TableId) : t.bare.tables[id]? = (t.tables[id]?).map Table.bare :=
  Array.getElem?_map

theorem get_bare (id : TableId) : t.bare.get id = (t.get id).map Table.bare := by
  unfold get
  rw [getElem?_bare, size_bare]
  cases t.tables[id]? <;> rfl

theorem insert_bare (id : TableId) (s : Symbol) :
    t.bare.insert id (s.moved .forget) = (t.insert id s).map bare := by
  unfold insert
  rw [getElem?_bare, size_bare]
  cases t.tables[id]? with
  | none => rfl
  | some table =>
    simp only [Option.map_some, table.insert_bare]
    cases table.insert s with
    | error e => rfl
    | ok table' =>
      show Except.ok _ = Except.ok _
      rw [bare, bare, Array.map_setIfInBounds]

end Tables

namespace Scoping

/-- A walk in progress without its spans. -/
def bare (s : Scoping) : Scoping :=
  ⟨s.forest.bare, s.enclosing, s.log.map (Diagnostic.moved .forget)⟩

variable (s : Scoping)

theorem report_bare (p : Problem) (span : Span) :
    s.bare.report p .nowhere = (s.report p span).bare := by
  unfold report bare
  rw [List.map_append]
  rfl

theorem openScope_bare (id : NodeId) : s.bare.openScope id = (s.openScope id).bare := by
  have htables : (⟨s.forest.tables.tables.push { parent := s.enclosing.head? }⟩ : Tables).bare =
      ⟨s.forest.tables.bare.tables.push { parent := s.enclosing.head? }⟩ := by
    rw [Tables.bare, Array.map_push]
    rfl
  unfold openScope
  simp only [bare, ← Forest.attach_bare]
  simp only [Forest.bare, Tables.openScope, Tables.size_bare, htables]

theorem declare_bare (symbol : Symbol) :
    s.bare.declare (symbol.moved .forget) = ((s.declare symbol).map bare).mapError Stop.bare := by
  obtain ⟨f, _ | ⟨table, rest⟩, log⟩ := s
  · rfl
  · have hinsert : f.bare.tables.insert table (symbol.moved .forget) =
        (f.tables.insert table symbol).map Tables.bare :=
      f.tables.insert_bare table symbol
    have hreport := report_bare ⟨f, table :: rest, log⟩ (.declaredTwice symbol.name) symbol.span
    simp only [declare, innermost, bare, bind, Except.bind, hinsert]
    -- insertions fail for the same reason in both tables
    cases f.tables.insert table symbol with
    | ok tables => rfl
    | error e =>
      cases e with
      | fault e => rfl
      | declared name => exact congrArg Except.ok hreport
      | undeclared name => exact congrArg Except.ok hreport

theorem declareVariable_bare (policy : Policy) (name : String) (type : DataType) (length : Nat)
    (span : Span) :
    s.bare.declareVariable policy name type length .nowhere =
      ((s.declareVariable policy name type length span).map bare).mapError Stop.bare := by
  obtain ⟨f, _ | ⟨table, rest⟩, log⟩ := s
  · rfl
  · have hstorage : (bare ⟨f, table :: rest, log⟩).storage = storage ⟨f, table :: rest, log⟩ := rfl
    unfold declareVariable
    rw [hstorage]
    generalize storage ⟨f, table :: rest, log⟩ = storage
    cases policy.objection? storage name type length with
    | some p => exact congrArg Except.ok (report_bare ⟨f, table :: rest, log⟩ p span)
    | none =>
      dsimp only
      unfold Symbol.ofVariable
      by_cases hvalid : type ≠ .void ∧ 0 < length
      · rw [if_pos hvalid, if_pos hvalid]
        exact declare_bare ⟨f, table :: rest, log⟩ ⟨name, .variable length storage, type, span⟩
      · rw [if_neg hvalid, if_neg hvalid]
        rfl

theorem declareAll_bare (parameters : List Parameter) :
    (parameters.map Parameter.bare).foldlM (fun s p => declare s (.ofParameter p)) s.bare =
      ((parameters.foldlM (fun s p => declare s (.ofParameter p)) s).map bare).mapError
        Stop.bare := by
  induction parameters generalizing s with
  | nil => rfl
  | cons p parameters ih =>
    have hp : s.bare.declare (.ofParameter p.bare) =
        ((s.declare (.ofParameter p)).map bare).mapError Stop.bare :=
      s.declare_bare (.ofParameter p)
    rw [List.map_cons, List.foldlM_cons, List.foldlM_cons, hp]
    cases s.declare (.ofParameter p) with
    | error stop => rfl
    | ok next => exact ih next

theorem enter_bare (policy : Policy) (id : NodeId) (span : Span) (k : Kind) :
    s.bare.enter policy id .nowhere k.bare =
      ((s.enter policy id span k).map bare).mapError Stop.bare := by
  cases k with
  | program vars functions => exact congrArg Except.ok (s.openScope_bare id)
  | block vars statements => exact congrArg Except.ok (s.openScope_bare id)
  | function name returns parameters body =>
    have htypes : (parameters.map Parameter.bare).map Parameter.type =
        parameters.map Parameter.type := by
      rw [List.map_map]
      rfl
    have hname := s.declare_bare (.ofFunction name returns (parameters.map Parameter.type) span)
    simp only [Kind.bare, enter, htypes]
    rw [show Symbol.ofFunction name returns (parameters.map Parameter.type) .nowhere =
      (Symbol.ofFunction name returns (parameters.map Parameter.type) span).moved .forget from rfl,
      hname]
    cases s.declare (.ofFunction name returns (parameters.map Parameter.type) span) with
    | error stop => rfl
    | ok next =>
      show List.foldlM _ (next.bare.openScope id) _ = _
      rw [openScope_bare]
      exact declareAll_bare _ parameters
  | «variable» name type length => exact s.declareVariable_bare policy name type length span
  | _ => rfl

theorem visit_bare (policy : Policy) (step : Step) :
    visit policy s.bare step.bare = Prod.map bare (Option.map Stop.bare) (visit policy s step) := by
  cases step with
  | enter id kind span =>
    rw [Step.bare, visit, visit, enter_bare]
    cases s.enter policy id span kind <;> rfl
  | leave id kind span =>
    rw [Step.bare, visit, visit, Kind.opensScope_bare]
    split <;> rfl
  | broken f => rfl

end Scoping

/-- The scopes of a forest without its spans are those of the forest itself, but for their spans. -/
theorem Forest.buildScopes_bare (policy : Policy) (f : Forest) :
    f.bare.buildScopes policy = ⟨(f.buildScopes policy).value.bare,
      (f.buildScopes policy).log.map (Diagnostic.moved .forget),
        (f.buildScopes policy).stop.map Stop.bare⟩ := by
  have hroot : f.bare.root = f.root := rfl
  unfold buildScopes
  rw [hroot]
  cases f.root with
  | none => rfl
  | some root =>
    have hwalk := follow_map (fun s => Scoping.visit_bare s policy) { forest := f } (f.tour root)
    rw [← f.tour_bare root] at hwalk
    exact congrArg (fun r : Scoping × Option Stop => (⟨r.1.forest, r.1.log, r.2⟩ : Outcome Forest))
      hwalk

section Dump

theorem Table.sorted_bare (t : Table) : t.bare.sorted = t.sorted.map (Symbol.moved .forget) := by
  have hsort := List.map_mergeSort (r := fun a b => decide (a.name ≤ b.name))
    (s := fun a b => decide (a.name ≤ b.name)) (f := Symbol.moved .forget) (l := t.symbols)
    fun _ _ _ _ => rfl
  exact hsort.symm

theorem Table.dump_bare (t : Table) (id : TableId) (k : Kind) :
    t.bare.dump id k.bare = t.dump id k := by
  unfold dump
  rw [sorted_bare, Kind.owner_bare, List.map_map]
  rfl

theorem Forest.dumpNode_bare (f : Forest) (n : Node) : f.bare.dumpNode n.bare = f.dumpNode n := by
  have htable : n.bare.table = n.table := rfl
  unfold dumpNode
  rw [htable]
  cases n.table with
  | none => rfl
  | some id =>
    have hget : f.bare.tables.get id = (f.tables.get id).map Table.bare := f.tables.get_bare id
    dsimp only [Node.bare]
    rw [hget]
    cases f.tables.get id with
    | error e => simp only [Except.map, bind, Except.bind]
    | ok table => exact congrArg Except.ok (table.dump_bare id n.kind)

theorem Forest.dumpSymbols_bare (f : Forest) : f.bare.dumpSymbols = f.dumpSymbols := by
  have hnodes : f.bare.dumpNode ∘ Node.bare = f.dumpNode := funext f.dumpNode_bare
  unfold dumpSymbols
  rw [show f.bare.nodes.toList = f.nodes.toList.map Node.bare from Array.toList_map,
    List.mapM_map, hnodes]

end Dump

end DecafCheck
