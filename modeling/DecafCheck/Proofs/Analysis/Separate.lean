import DecafCheck.Proofs.Analysis.Inside
import DecafCheck.Proofs.Grammar.Text
import DecafCheck.Proofs.Typing.Sketched

namespace DecafCheck

/-- A function apart from its body and the places in the text. -/
def Function.head (g : Function) : String × DataType × List Parameter :=
  (g.name, g.returns, g.parameters.map Parameter.bare)

/-- Programs that differ in the body of one function at most. -/
structure Program.SameBut (k : Nat) (p q : Program) : Prop where
  vars : p.vars.map Variable.bare = q.vars.map Variable.bare
  heads : p.functions.map Function.head = q.functions.map Function.head
  bodies : ∀ i f g, i ≠ k → p.functions[i]? = some f → q.functions[i]? = some g →
      f.body.bare = g.body.bare

namespace Forest

/-- The functions of the program. -/
def functions (f : Forest) : List NodeId :=
  match f.root.bind f.kindOf? with
  | some (.program _ functions) => functions
  | _ => []

/-- The node at the end of a way down from a node. A step of the way is the place of a child among
all children. -/
def descend (f : Forest) (id : NodeId) : List Nat → Option NodeId
  | [] => some id
  | i :: path => (f.kindOf? id).bind fun kind => kind.children[i]?.bind fun c => f.descend c path

theorem descend_append (f : Forest) (id : NodeId) (path more : List Nat) :
    f.descend id (path ++ more) = (f.descend id path).bind fun c => f.descend c more := by
  induction path generalizing id with
  | nil => rfl
  | cons i path ih =>
    simp only [List.cons_append, descend, Option.bind_assoc]
    refine Option.bind_congr fun kind _ => Option.bind_congr fun c _ => ih c

theorem Below.exists_descend {f : Forest} {id c : NodeId} (h : f.Below id c) :
    ∃ path, f.descend id path = some c := by
  induction h with
  | self => exact ⟨[], rfl⟩
  | @child p c _ hc ih =>
    obtain ⟨path, hpath⟩ := ih
    obtain ⟨kind, hkind, hc⟩ := hc
    obtain ⟨i, hi⟩ := List.mem_iff_getElem?.mp hc
    refine ⟨path ++ [i], ?_⟩
    rw [descend_append, hpath]
    simp [descend, hkind, hi]

/-- A node without its spans and numbers, with its type. -/
def described (f : Forest) (types : Types) (φ : Span → Span) (id : NodeId) :
    Option Kind × Option InferredType :=
  ((f.kindOf? id).map (Kind.sketch φ), types.lookup id)

/-- Places that cannot be told apart have the same nodes below them, with the same types. -/
theorem Checked.descend_eq {policy : Policy} {f f' : Forest} {t t' : Tree} {types types' : Types}
    (h : f.Checked policy t types) (h' : f'.Checked policy t' types')
    (hfit : ∀ x ∈ t.subtrees, x.Fitting) (hfit' : ∀ x ∈ t'.subtrees, x.Fitting) {φ φ' : Span → Span}
    {y y' x x' : Tree} {above above' : List Tree} (hp : t.Path (y :: above) x)
    (hp' : t'.Path (y' :: above') x')
    (hat : Tree.SketchedAt policy φ φ' (y :: above) x (y' :: above') x') (path : List Nat) :
    (f.descend x.id path).map (f.described types φ) =
      (f'.descend x'.id path).map (f'.described types' φ') := by
  induction path generalizing x x' y y' above above' with
  | nil =>
    have hagree := h.agree h' hfit hfit' (Tree.alongside_sketched policy φ φ') hp hp' hat
    have hkind := congrArg Tree.kind hat.sketch
    rw [Tree.kind_sketch, Tree.kind_sketch] at hkind
    simp only [descend, described, Option.map_some, h.carries.kind x hp.mem,
      h'.carries.kind x' hp'.mem, hkind, hagree.type]
  | cons i path ih =>
    simp only [descend, h.carries.kind x hp.mem, h'.carries.kind x' hp'.mem, Option.bind_some,
      h.carries.listed x hp.mem, h'.carries.listed x' hp'.mem, List.getElem?_map]
    have hcs := (Tree.alongside_sketched policy φ φ').children hat
    rcases getElem?_of_forall₂ hcs i with ⟨hc, hc'⟩ | ⟨c, c', hc, hc', hcat⟩
    · rw [hc, hc']
      rfl
    · rw [hc, hc']
      exact ih (hp.child (List.mem_of_getElem? hc)) (hp'.child (List.mem_of_getElem? hc')) hcat

end Forest

section Heads

variable (policy : Policy)

theorem bareScope_vars {vs vs' : List Variable} (h : vs.map Variable.bare = vs'.map Variable.bare) :
    bareScope (vs.filterMap (Variable.symbol? policy .global)) =
      bareScope (vs'.filterMap (Variable.symbol? policy .global)) := by
  have hbare (vs : List Variable) : bareScope (vs.filterMap (Variable.symbol? policy .global)) =
      (vs.map Variable.bare).filterMap (Variable.symbol? policy .global) := by
    rw [bareScope, List.map_filterMap, List.filterMap_map]
    refine congrArg (fun s => vs.filterMap s) (funext fun v => ?_)
    exact policy.moved_symbol? .global v.name v.type v.length v.span
  rw [hbare, hbare, h]

theorem bareScope_functions {gs gs' : List Function}
    (h : gs.map Function.head = gs'.map Function.head) :
    bareScope (gs.map Function.symbol) = bareScope (gs'.map Function.symbol) := by
  have hbare (gs : List Function) :
      bareScope (gs.map Function.symbol) = (gs.map Function.head).map fun g =>
      .ofFunction g.1 g.2.1 (g.2.2.map Parameter.type) .nowhere := by
    rw [bareScope, List.map_map, List.map_map]
    refine List.map_congr_left fun g _ => ?_
    simp only [Function.comp_apply, Function.head, List.map_map]
    rfl
  rw [hbare, hbare, h]

variable {k : Nat} {p q : Program} (h : p.SameBut k q)

include h

theorem Program.SameBut.bareScope_eq : bareScope (p.scope policy) = bareScope (q.scope policy) := by
  rw [scope, scope, bareScope_append, bareScope_append, bareScope_vars policy h.vars,
    bareScope_functions h.heads]

theorem Program.SameBut.bareScope_before_eq (i : Nat) :
    bareScope (p.scopeBefore policy i) = bareScope (q.scopeBefore policy i) := by
  have hheads : (p.functions.take i).map Function.head =
      (q.functions.take i).map Function.head := by
    rw [List.map_take, List.map_take, h.heads]
  rw [scopeBefore, scopeBefore, bareScope_append, bareScope_append, bareScope_vars policy h.vars,
    bareScope_functions hheads]

/-- Functions at the same place have the same head. -/
theorem Program.SameBut.head_eq {i : Nat} {f g : Function} (hf : p.functions[i]? = some f)
    (hg : q.functions[i]? = some g) : f.head = g.head := by
  have hi := congrArg (fun heads => heads[i]?) h.heads
  simpa [hf, hg] using hi

theorem Program.SameBut.sketched {i : Nat} (hi : i ≠ k) {f g : Function}
    (hf : p.functions[i]? = some f) (hg : q.functions[i]? = some g) :
    Tree.Sketched .forget .forget Function.tree f g := by
  have hhead := h.head_eq hf hg
  simp only [Function.head, Prod.mk.injEq] at hhead
  obtain ⟨hname, hreturns, hparameters⟩ := hhead
  apply Function.sketched_of_bare_eq
  rw [Function.bare, Function.bare, hname, hreturns, hparameters, h.bodies i f g hi hf hg]

end Heads

namespace Function

variable {policy : Policy} {φ φ' : Span → Span} {f g : Function}

theorem moved_main? (h : Tree.Sketched φ φ' tree f g) :
    (f.main?.getD []).map (Diagnostic.moved φ) = (g.main?.getD []).map (Diagnostic.moved φ') := by
  have hkind := congrArg Tree.kind (h 0 0)
  have hspan := congrArg Tree.span (h 0 0)
  rw [Tree.kind_sketch, Tree.kind_sketch] at hkind
  rw [Tree.span_sketch, Tree.span_sketch] at hspan
  obtain ⟨hname, hreturns, hparameters, -⟩ := Kind.function.inj hkind
  have hempty : f.parameters.isEmpty = g.parameters.isEmpty := by
    have hmap := congrArg List.isEmpty hparameters
    rwa [List.isEmpty_map, List.isEmpty_map] at hmap
  have hspan : φ f.span = φ' g.span := hspan
  unfold main?
  rw [hname]
  split
  · simp only [Option.getD_some, Forest.checkMain, List.map_append, moved_require, hreturns,
      hempty, hspan]
  · rfl

theorem moved_ownLog (h : Tree.Sketched φ φ' tree f g) {before before' : List Symbol}
    (hbefore : bareScope before = bareScope before') {scopes scopes' : Scopes}
    (hlog : (f.log policy scopes).map (Diagnostic.moved φ) =
      (g.log policy scopes').map (Diagnostic.moved φ')) :
    (f.ownLog policy before scopes).map (Diagnostic.moved φ) =
      (g.ownLog policy before' scopes').map (Diagnostic.moved φ') := by
  have hscope : (takenLog before f.symbol ++ f.scopeLog policy).map (Diagnostic.moved φ) =
      (takenLog before' g.symbol ++ g.scopeLog policy).map (Diagnostic.moved φ') := by
    rw [← f.scopeLog_tree policy .global before 0, ← g.scopeLog_tree policy .global before' 0,
      Tree.scopeLog_sketch φ policy _ .global before before' hbefore, h 0 0,
      Tree.scopeLog_sketch φ' policy _ .global before' before' rfl]
  have hrest : (f.log policy scopes ++ f.main?.getD []).map (Diagnostic.moved φ) =
      (g.log policy scopes' ++ g.main?.getD []).map (Diagnostic.moved φ') := by
    rw [List.map_append, List.map_append, hlog, moved_main? h]
  rw [ownLog, ownLog, List.map_append, hscope, hrest, ← List.map_append]

end Function

namespace Program

/-- The tree of a function and the place of its root. -/
theorem exists_functionTree {p : Program} {i : Nat} {g : Function} (hg : p.functions[i]? = some g)
    (policy : Policy) :
    ∃ n, p.tree.Path [p.tree] (g.tree n) ∧ (p.annotated policy).functions[i]? =
      some (g.tree n).id := by
  obtain ⟨us, n, vs, htrees, rfl, -, -⟩ := p.each_functions.split hg
  have hcarries := (p.annotated_built policy).carries
  have hfunctions :
      (p.annotated policy).functions =
      (Declaration.functionTrees 0 p.declarations).map Tree.id := by
    rw [Forest.functions, hcarries.root, Option.bind_some, hcarries.kind _ p.tree.self_mem_subtrees]
    rfl
  refine ⟨n, Tree.Path.root.child (others_of_split htrees).1, ?_⟩
  rw [hfunctions, htrees]
  simp

variable {source source' : String} {p q : Program} {policy : Policy}
  {types types' : Types} {i : Nat} {f g : Function} {φ φ' : Span → Span}

theorem SameBut.sketchedAt {k : Nat} (h : p.SameBut k q) (policy : Policy)
    (hs : Tree.Sketched φ φ' Function.tree f g) (n m : Nat) :
    Tree.SketchedAt policy φ φ' [p.tree] (f.tree n) [q.tree] (g.tree m) where
  sketch := hs n m
  around := by
    rw [Tree.around_program, Tree.around_program, Scopes.bare_cons, Scopes.bare_cons,
      h.bareScope_eq policy]
  inLoop := rfl
  inBody := rfl

/-- What is reported inside a function can be told from the sketch of the function, given the heads
of all functions. -/
theorem SameBut.moved_within {k : Nat} (h : p.SameBut k q) (hp : parse source = .ok p)
    (hq : parse source' = .ok q) (ha : (p.annotated policy).Checked policy p.tree types)
    (hb : (q.annotated policy).Checked policy q.tree types') (hmany : 1 < p.functions.length)
    (hf : p.functions[i]? = some f) (hg : q.functions[i]? = some g)
    (hs : Tree.Sketched φ φ' Function.tree f g) :
    (Log.within (p.log policy) f.span).map (Diagnostic.moved φ) =
      (Log.within (q.log policy) g.span).map (Diagnostic.moved φ') := by
  obtain ⟨ls, -, hplaced⟩ := placed_of_parse hp
  obtain ⟨ls', -, hplaced'⟩ := placed_of_parse hq
  have hmany' : 1 < q.functions.length := by
    have hlength := congrArg List.length h.heads
    rw [List.length_map, List.length_map] at hlength
    omega
  rw [hplaced.within_function policy hf hmany, hplaced'.within_function policy hg hmany']
  apply Function.moved_ownLog hs (h.bareScope_before_eq policy i)
  obtain ⟨n, hn, -⟩ := exists_functionTree hf policy
  obtain ⟨m, hm, -⟩ := exists_functionTree hg policy
  have hagree := ha.agree hb (fun x => fitting_of_mem) (fun x => fitting_of_mem)
    (Tree.alongside_sketched policy φ φ') hn hm (h.sketchedAt policy hs n m)
  have hlogs := hagree.logs
  rwa [ha.function hn, hb.function hm, Tree.around_program, Tree.around_program] at hlogs

end Program

/-- The same is found below two nodes: every node there is at the end of a way down, and the ways
lead to the same constructs with the same types. -/
structure Analysis.SameBelow (a b : Analysis) (m n : NodeId) : Prop where
  reached : ∀ id, a.forest.Below m id → ∃ path, a.forest.descend m path = some id
  reached' : ∀ id, b.forest.Below n id → ∃ path, b.forest.descend n path = some id
  same : ∀ path, (a.forest.descend m path).map (a.forest.described a.types .forget) =
    (b.forest.descend n path).map (b.forest.described b.types .forget)

/-- Functions are checked separately: a change of one body leaves what is found in the other
functions as it is. -/
theorem check_separately {source source' : String} {p q : Program}
    (hp : Program.parse source = .ok p) (hq : Program.parse source' = .ok q) {k : Nat}
    (hk : k < p.functions.length) (h : p.SameBut k q) (policy : Policy) :
    ∃ a b, check policy source = .ok a ∧ check policy source' = .ok b ∧
      ∀ i f g, i ≠ k → p.functions[i]? = some f → q.functions[i]? = some g →
        (Log.within a.log f.span).map (fun d => (d.code, d.message)) =
          (Log.within b.log g.span).map (fun d => (d.code, d.message)) ∧
        (∀ text, f.span.Shows source text → g.span.Shows source' text →
          (Log.within a.log f.span).map (Diagnostic.moved (Span.relative f.span.start)) =
            (Log.within b.log g.span).map (Diagnostic.moved (Span.relative g.span.start))) ∧
        ∃ m n, a.forest.functions[i]? = some m ∧ b.forest.functions[i]? = some n ∧
          a.forest.spanOf m = f.span ∧ b.forest.spanOf n = g.span ∧ a.SameBelow b m n := by
  obtain ⟨types, ha, hcheck⟩ := check_of_parse_ok hp policy
  obtain ⟨types', hb, hcheck'⟩ := check_of_parse_ok hq policy
  refine ⟨_, _, hcheck, hcheck', fun i f g hi hf hg => ?_⟩
  have hmany : 1 < p.functions.length := by
    have hlt := (List.getElem?_eq_some_iff.mp hf).1
    omega
  have hsketched := h.sketched hi hf hg
  refine ⟨?_, fun text hft hgt => ?_, ?_⟩
  · have hmoved := h.moved_within hp hq ha hb hmany hf hg hsketched
    have hpairs := congrArg (List.map fun d : Diagnostic => (d.code, d.message)) hmoved
    rw [List.map_map, List.map_map] at hpairs
    exact hpairs
  · have hs := Function.sketched_of_shows hp hq (List.mem_of_getElem? hf)
      (List.mem_of_getElem? hg) hft hgt
    exact h.moved_within hp hq ha hb hmany hf hg hs
  · obtain ⟨n, hn, hid⟩ := Program.exists_functionTree hf policy
    obtain ⟨m, hm, hid'⟩ := Program.exists_functionTree hg policy
    refine ⟨_, _, hid, hid', ha.carries.span _ hn.mem, hb.carries.span _ hm.mem, ?_⟩
    exact ⟨fun id => Forest.Below.exists_descend, fun id => Forest.Below.exists_descend,
      ha.descend_eq hb (fun x => Program.fitting_of_mem) (fun x => Program.fitting_of_mem) hn hm
        (h.sketchedAt policy hsketched n m)⟩

/-- The body `return a + 1;`. -/
def Block.returnsNext : Block → Bool
  | .mk [] [.ret (some (.binary .add (.location "a" none _) (.literal (.int 1) _) _)) _] _ => true
  | _ => false

theorem Block.bare_of_returnsNext {b : Block} (h : b.returnsNext = true) :
    b.bare = .mk [] [.ret (some (.binary .add (.location "a" none .nowhere)
      (.literal (.int 1) .nowhere) .nowhere)) .nowhere] .nowhere := by
  unfold returnsNext at h
  split at h
  · rfl
  · cases h

/-- The heads of a program's functions, the number of its variables, and whether all functions but
the first return the next number. -/
def Program.outlook (p : Program) : List (String × DataType × List Parameter) × Nat × Bool :=
  (p.functions.map Function.head, p.vars.length,
    (p.functions.drop 1).all fun g => g.body.returnsNext)

theorem Program.sameBut_of_outlook {p q : Program}
    {heads : List (String × DataType × List Parameter)} (hp : p.outlook = (heads, 0, true))
    (hq : q.outlook = (heads, 0, true)) : p.SameBut 0 q := by
  simp only [outlook, Prod.mk.injEq, List.length_eq_zero_iff, List.all_eq_true] at hp hq
  obtain ⟨hheads, hvars, hbodies⟩ := hp
  obtain ⟨hheads', hvars', hbodies'⟩ := hq
  have hmem {r : Program} {i : Nat} (hi : i ≠ 0) {g : Function} (hg : r.functions[i]? = some g) :
      g ∈ r.functions.drop 1 := by
    apply List.mem_of_getElem? (i := i - 1)
    rw [List.getElem?_drop, Nat.add_sub_cancel' (Nat.one_le_iff_ne_zero.mpr hi), hg]
  refine ⟨by rw [hvars, hvars'], hheads.trans hheads'.symm, fun i f g hi hf hg => ?_⟩
  rw [Block.bare_of_returnsNext (hbodies f (hmem hi hf)),
    Block.bare_of_returnsNext (hbodies' g (hmem hi hg))]

def separateText : String :=
  "def int f()\x7b\x7d def int main(int a)\x7breturn a + 1;\x7d"

/-- The same with another first function. -/
def separateText' : String :=
  "def int f()\x7breturn;\x7d def int main(int a)\x7breturn a + 1;\x7d"

theorem check_separately_main :
    ∃ p, Program.parse separateText = .ok p ∧ ∃ q, Program.parse separateText' = .ok q ∧
      0 < p.functions.length ∧ p.SameBut 0 q ∧
        ∃ a b, check {} separateText = .ok a ∧ check {} separateText' = .ok b ∧
          ∀ f g, p.functions[1]? = some f → q.functions[1]? = some g →
            (Log.within a.log f.span).map (fun d => (d.code, d.message)) =
              (Log.within b.log g.span).map (fun d => (d.code, d.message)) ∧
            (∀ text, f.span.Shows separateText text → g.span.Shows separateText' text →
              (Log.within a.log f.span).map (Diagnostic.moved (Span.relative f.span.start)) =
                (Log.within b.log g.span).map
                  (Diagnostic.moved (Span.relative g.span.start))) ∧
            ∃ m n, a.forest.functions[1]? = some m ∧ b.forest.functions[1]? = some n ∧
              a.forest.spanOf m = f.span ∧ b.forest.spanOf n = g.span ∧ a.SameBelow b m n := by
  have hparts : (Program.parse separateText).toOption.map Program.outlook =
      some ([("f", .int, []), ("main", .int, [⟨"a", .int, .nowhere⟩])], 0, true) := by
    decide +kernel
  have hparts' : (Program.parse separateText').toOption.map Program.outlook =
      some ([("f", .int, []), ("main", .int, [⟨"a", .int, .nowhere⟩])], 0, true) := by
    decide +kernel
  obtain ⟨p, hp, hparts⟩ := exists_ok_of_map hparts
  obtain ⟨q, hq, hparts'⟩ := exists_ok_of_map hparts'
  have hsame := Program.sameBut_of_outlook hparts hparts'
  have hk : 0 < p.functions.length := by
    have hheads : p.functions.map Function.head = _ := congrArg Prod.fst hparts
    rw [← List.length_map (f := Function.head), hheads]
    exact Nat.two_pos
  obtain ⟨a, b, ha, hb, hall⟩ := check_separately hp hq hk hsame {}
  exact ⟨p, hp, q, hq, hk, hsame, a, b, ha, hb, fun f g => hall 1 f g Nat.one_ne_zero⟩

end DecafCheck
