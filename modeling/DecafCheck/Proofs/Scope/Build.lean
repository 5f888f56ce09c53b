import DecafCheck.Proofs.Scope.Chain
import DecafCheck.Proofs.Tree.Forest
import DecafCheck.Scope.Build

namespace DecafCheck

/-- The symbol of a variable that nothing speaks against. -/
def Policy.symbol? (policy : Policy) (storage : Storage) (name : String) (type : DataType)
    (length : Nat) (span : Span) : Option Symbol :=
  match policy.objection? storage name type length with
  | some _ => none
  | none => some ⟨name, .variable length storage, type, span⟩

theorem Policy.objection?_eq_none_iff (policy : Policy) (storage : Storage) (name : String)
    (type : DataType) (length : Nat) :
    policy.objection? storage name type length = none ↔
      type ≠ .void ∧ 0 < length ∧
      (policy.globalArraysOnly = true → storage = .frame → length ≤ 1) := by
  unfold objection?
  split
  · simp_all
  · split
    · simp_all
    · split
      · simp_all
      · next hv hl ha =>
        simp only [not_and, Nat.not_lt] at ha
        simpa using ⟨hv, Nat.pos_of_ne_zero hl, ha⟩

theorem Policy.symbol?_eq_some_iff {policy : Policy} {storage : Storage} {name : String}
    {type : DataType} {length : Nat} {span : Span} {s : Symbol} :
    policy.symbol? storage name type length span = some s ↔
      policy.objection? storage name type length = none ∧
      s = ⟨name, .variable length storage, type, span⟩ := by
  unfold symbol?
  split
  · next ho => simp [ho]
  · next ho => simp [ho, eq_comm]

/-- The report that a name is taken, if it is. -/
def takenLog (before : List Symbol) (s : Symbol) : List Diagnostic :=
  if (declared? before s.name).isSome then [(Problem.declaredTwice s.name).on s.span] else []

/-- The reports on symbols that are declared one after the other. -/
def takenLogAll (before : List Symbol) : List Symbol → List Diagnostic
  | [] => []
  | s :: rest => takenLog before s ++ takenLogAll (before ++ [s]) rest

/-- The report on a variable, if there is one. -/
def variableLog (policy : Policy) (storage : Storage) (before : List Symbol) (name : String)
    (type : DataType) (length : Nat) (span : Span) : List Diagnostic :=
  match policy.objection? storage name type length with
  | some p => [p.on span]
  | none => takenLog before ⟨name, .variable length storage, type, span⟩

/-- The symbols of the parameters that a node declares in its own scope. -/
def Kind.parameterSymbols : Kind → List Symbol
  | .function _ _ parameters _ => parameters.map .ofParameter
  | _ => []

namespace Tree

mutual

/-- The symbols that a tree declares in the scope around it. -/
def declares (policy : Policy) (storage : Storage) : Tree → List Symbol
  | node _ kind span children =>
    match kind with
    | .variable name type length => (policy.symbol? storage name type length span).toList
    | .function name returns parameters _ =>
      [.ofFunction name returns (parameters.map Parameter.type) span]
    | .program _ _ => []
    | .block _ _ => []
    | _ => declaresAll policy storage children

def declaresAll (policy : Policy) (storage : Storage) : List Tree → List Symbol
  | [] => []
  | t :: ts => declares policy storage t ++ declaresAll policy storage ts

end

/-- The symbols that a scope's node declares in its scope. -/
def symbols (policy : Policy) (storage : Storage) (t : Tree) : List Symbol :=
  t.kind.parameterSymbols ++ declaresAll policy storage t.children

mutual

/-- The nodes of scopes, in the order they are entered, with their tables. The tables are numbered
from `base` on; `outer` is the table around the tree. -/
def scopes (policy : Policy) (base outer : Nat) : Tree → List (NodeId × Table)
  | node id kind span children =>
    if kind.opensScope then
      (id, ⟨firsts ((node id kind span children).symbols policy .frame), some outer⟩)
        :: scopesAll policy (base + 1) base children
    else
      scopesAll policy base outer children

def scopesAll (policy : Policy) (base outer : Nat) : List Tree → List (NodeId × Table)
  | [] => []
  | t :: ts =>
    scopes policy base outer t ++
      scopesAll policy (base + (scopes policy base outer t).length) outer ts

end

mutual

/-- The problems with the declarations of a tree, behind those of `before` in the scope around
it. -/
def scopeLog (policy : Policy) (storage : Storage) (before : List Symbol) : Tree → List Diagnostic
  | node _ kind span children =>
    match kind with
    | .variable name type length => variableLog policy storage before name type length span
    | .function name returns parameters _ =>
      takenLog before (.ofFunction name returns (parameters.map Parameter.type) span)
        ++ (takenLogAll [] (parameters.map .ofParameter)
          ++ scopeLogAll policy .frame (parameters.map .ofParameter) children)
    | .program _ _ => scopeLogAll policy .frame [] children
    | .block _ _ => scopeLogAll policy .frame [] children
    | _ => scopeLogAll policy storage before children

def scopeLogAll (policy : Policy) (storage : Storage) (before : List Symbol) :
    List Tree → List Diagnostic
  | [] => []
  | t :: ts =>
    scopeLog policy storage before t
      ++ scopeLogAll policy storage (before ++ declares policy storage t) ts

end

end Tree

namespace Tables

/-- Gives a table other symbols. -/
def put (t : Tables) (k : Nat) (symbols : List Symbol) : Tables :=
  ⟨t.tables.modify k fun table => { table with symbols }⟩

def append (t : Tables) (made : List Table) : Tables :=
  ⟨t.tables ++ made.toArray⟩

@[simp] theorem size_put (t : Tables) (k : Nat) (symbols : List Symbol) :
    (t.put k symbols).size = t.size := by
  simp [put, size]

@[simp] theorem size_append (t : Tables) (made : List Table) :
    (t.append made).size = t.size + made.length := by
  simp [append, size]

@[simp] theorem append_nil (t : Tables) : t.append [] = t := by
  simp [append]

theorem append_append (t : Tables) (a b : List Table) :
    (t.append a).append b = t.append (a ++ b) := by
  simp [append]

theorem put_put (t : Tables) (k : Nat) (a b : List Symbol) : (t.put k a).put k b = t.put k b := by
  simp only [put, mk.injEq]
  apply Array.ext_getElem?
  intro i
  simp only [Array.getElem?_modify]
  split <;> simp [Function.comp_def]

theorem put_self {t : Tables} {k : Nat} {symbols : List Symbol} {parent : Option TableId}
    (h : t.tables[k]? = some ⟨symbols, parent⟩) : t.put k symbols = t := by
  obtain ⟨tables⟩ := t
  simp only [put, mk.injEq]
  apply Array.ext_getElem?
  intro i
  simp only [Array.getElem?_modify]
  split
  · next hi => subst hi; simp [h]
  · rfl

theorem put_append {t : Tables} {k : Nat} (hk : k < t.size) (made : List Table)
    (symbols : List Symbol) :
    (t.append made).put k symbols = (t.put k symbols).append made := by
  simp only [put, append, mk.injEq]
  apply Array.ext_getElem?
  intro i
  simp only [Array.getElem?_modify, Array.getElem?_append, Array.size_modify]
  have hk' : k < t.tables.size := hk
  by_cases hi : i < t.tables.size
  · simp [hi]
  · have : k ≠ i := by omega
    simp [hi, this]

theorem put_append_last (t : Tables) (table : Table) (symbols : List Symbol) :
    (t.append [table]).put t.size symbols = t.append [{ table with symbols }] := by
  simp only [put, append, mk.injEq]
  apply Array.ext_getElem?
  intro i
  simp only [Array.getElem?_modify, Array.getElem?_append, size]
  by_cases hi : i < t.tables.size
  · have : t.tables.size ≠ i := by omega
    simp [hi, this]
  · rcases Nat.eq_or_lt_of_le (Nat.le_of_not_lt hi) with h | h
    · simp [← h]
    · have hlong : ¬ i - t.tables.size < 1 := by omega
      simp [hi, hlong]

theorem getElem?_put {t : Tables} {k : Nat} {table : Table} (h : t.tables[k]? = some table)
    (symbols : List Symbol) : (t.put k symbols).tables[k]? = some { table with symbols } := by
  simp [put, Array.getElem?_modify, h]

theorem getElem?_append {t : Tables} {k : Nat} (hk : k < t.size) (made : List Table) :
    (t.append made).tables[k]? = t.tables[k]? := by
  have hk' : k < t.tables.size := hk
  simp [append, Array.getElem?_append, hk']

theorem openScope_eq (t : Tables) (parent : Option TableId) :
    t.openScope parent = (t.append [⟨[], parent⟩], t.size) := by
  simp [openScope, append]

theorem insert_eq {t : Tables} {k : Nat} {before : List Symbol} {parent : Option TableId}
    (h : t.tables[k]? = some ⟨firsts before, parent⟩) (s : Symbol) :
    t.insert k s =
      if (declared? before s.name).isSome then .error (.declared s.name)
      else .ok (t.put k (firsts (before ++ [s]))) := by
  have hf : Table.find? ⟨firsts before, parent⟩ s.name = declared? before s.name :=
    declared?_firsts before s.name
  simp only [insert, h, Table.insert, hf, firsts_concat, declared?_firsts]
  cases hd : declared? before s.name with
  | some o => rfl
  | none =>
    simp only [bind, Except.bind, pure, Except.pure, Option.isSome_none, Bool.false_eq_true,
      ↓reduceIte, put, Except.ok.injEq, mk.injEq]
    apply Array.ext_getElem?
    intro i
    rw [Array.getElem?_modify, Array.getElem?_setIfInBounds]
    split
    · next hi =>
      subst hi
      obtain ⟨hk, ht⟩ := Array.getElem?_eq_some_iff.mp h
      simp [hk, ht]
    · rfl

end Tables

namespace Forest

/-- Gives nodes tables that are numbered from `base` on. -/
def attachAll (f : Forest) (base : Nat) : List NodeId → Forest
  | [] => f
  | id :: ids => (f.attach id base).attachAll (base + 1) ids

theorem attachAll_append (f : Forest) (base : Nat) (as bs : List NodeId) :
    f.attachAll base (as ++ bs) = (f.attachAll base as).attachAll (base + as.length) bs := by
  induction as generalizing f base with
  | nil => rfl
  | cons a as ih =>
    simp only [List.cons_append, attachAll, ih, List.length_cons]
    congr 1
    omega

theorem attachAll_tables (f : Forest) (t : Tables) (base : Nat) (ids : List NodeId) :
    { f with tables := t }.attachAll base ids = { f.attachAll base ids with tables := t } := by
  induction ids generalizing f base with
  | nil => rfl
  | cons id ids ih => exact ih (f.attach id base) (base + 1)

@[simp] theorem tables_attachAll (f : Forest) (base : Nat) (ids : List NodeId) :
    (f.attachAll base ids).tables = f.tables := by
  induction ids generalizing f base with
  | nil => rfl
  | cons id ids ih => exact ih (f.attach id base) (base + 1)

end Forest

namespace Scoping

/-- Gives the table `k` other symbols. -/
def put (s : Scoping) (k : Nat) (symbols : List Symbol) : Scoping :=
  { s with forest := { s.forest with tables := s.forest.tables.put k symbols } }

/-- Adds tables with the nodes they belong to, and reports. -/
def adding (s : Scoping) (made : List (NodeId × Table)) (log : List Diagnostic) : Scoping :=
  { s with
    forest := { s.forest.attachAll s.forest.tables.size (made.map Prod.fst) with
      tables := s.forest.tables.append (made.map Prod.snd) }
    log := s.log ++ log }

/-- The innermost open scope has the table `k`, and `before` has been declared in it. -/
structure Standing (s : Scoping) (k : Nat) (before : List Symbol) : Prop where
  head : s.enclosing.head? = some k
  table : ∃ parent, s.forest.tables.tables[k]? = some ⟨firsts before, parent⟩

theorem adding_nil (s : Scoping) : s.adding [] [] = s := by
  simp [adding, Forest.attachAll]

theorem adding_adding (s : Scoping) (a b : List (NodeId × Table)) (l m : List Diagnostic) :
    (s.adding a l).adding b m = s.adding (a ++ b) (l ++ m) := by
  simp only [adding, Forest.attachAll_tables, Tables.size_append, Tables.append_append,
    List.map_append, Forest.attachAll_append, List.append_assoc, List.length_map]

theorem adding_put {s : Scoping} {k : Nat} (hk : k < s.forest.tables.size)
    (made : List (NodeId × Table)) (log : List Diagnostic) (symbols : List Symbol) :
    (s.adding made log).put k symbols = (s.put k symbols).adding made log := by
  simp only [adding, put, Tables.put_append hk, Tables.size_put, Forest.attachAll_tables]

theorem put_put (s : Scoping) (k : Nat) (a b : List Symbol) : (s.put k a).put k b = s.put k b := by
  simp only [put, Tables.put_put]

namespace Standing

variable {s : Scoping} {k : Nat} {before : List Symbol} (h : s.Standing k before)

include h

theorem lt_size : k < s.forest.tables.size := by
  obtain ⟨parent, ht⟩ := h.table
  exact (Array.getElem?_eq_some_iff.mp ht).1

theorem put_self : s.put k (firsts before) = s := by
  obtain ⟨parent, ht⟩ := h.table
  simp only [put, Tables.put_self ht]

theorem put (after : List Symbol) : (s.put k (firsts after)).Standing k after := by
  obtain ⟨parent, ht⟩ := h.table
  exact ⟨h.head, parent, Tables.getElem?_put ht _⟩

theorem adding (made : List (NodeId × Table)) (log : List Diagnostic) :
    (s.adding made log).Standing k before := by
  obtain ⟨parent, ht⟩ := h.table
  refine ⟨h.head, parent, ?_⟩
  rw [← ht]
  exact Tables.getElem?_append h.lt_size _

theorem innermost_eq (span : Span) : s.innermost span = .ok k := by
  have hh := h.head
  rw [innermost]
  cases he : s.enclosing with
  | nil => simp [he] at hh
  | cons j rest =>
    rw [he] at hh
    exact congrArg Except.ok (Option.some.inj hh)

/-- Declaring a symbol adds it to the scope, or reports it and leaves the scope as it is. -/
theorem declare_eq (symbol : Symbol) :
    s.declare symbol = .ok ((s.put k (firsts (before ++ [symbol]))).adding []
      (takenLog before symbol)) := by
  obtain ⟨parent, ht⟩ := h.table
  simp only [declare, h.innermost_eq, bind, Except.bind, Tables.insert_eq ht]
  cases hd : declared? before symbol.name with
  | some o =>
    have hs : s.put k (firsts (before ++ [symbol])) = s := by
      rw [firsts_concat, declared?_firsts, hd]
      exact h.put_self
    simp [hs, takenLog, hd, report, Scoping.adding, Forest.attachAll, pure, Except.pure]
  | none =>
    simp [takenLog, hd, Scoping.put, Scoping.adding, Forest.attachAll, pure, Except.pure]

theorem declareAll_eq (symbols : List Symbol) :
    symbols.foldlM declare s =
      .ok ((s.put k (firsts (before ++ symbols))).adding [] (takenLogAll before symbols)) := by
  induction symbols generalizing s before with
  | nil =>
    rw [List.append_nil, h.put_self, takenLogAll, adding_nil]
    rfl
  | cons symbol symbols ih =>
    have hp := (h.put (before ++ [symbol])).adding [] (takenLog before symbol)
    have hk : k < (s.put k (firsts (before ++ [symbol]))).forest.tables.size := (h.put _).lt_size
    simp only [List.foldlM_cons, h.declare_eq, bind, Except.bind, ih hp, adding_put hk, put_put,
      adding_adding, takenLogAll, List.append_assoc, List.cons_append, List.nil_append]

theorem declareVariable_eq (policy : Policy) (name : String) (type : DataType) (length : Nat)
    (span : Span) :
    s.declareVariable policy name type length span =
      .ok ((s.put k (firsts (before ++
        (policy.symbol? s.storage name type length span).toList))).adding []
        (variableLog policy s.storage before name type length span)) := by
  simp only [declareVariable, h.innermost_eq, bind, Except.bind, Policy.symbol?, variableLog]
  cases ho : policy.objection? s.storage name type length with
  | some p =>
    simp [h.put_self, report, Scoping.adding, Forest.attachAll, pure, Except.pure]
  | none =>
    obtain ⟨hv, hl, -⟩ := (policy.objection?_eq_none_iff _ _ _ _).mp ho
    have hs : Symbol.ofVariable name type length s.storage span =
        .ok ⟨name, .variable length s.storage, type, span⟩ := if_pos ⟨hv, hl⟩
    simp only [hs, Option.toList_some]
    exact h.declare_eq _

end Standing

theorem openScope_eq (s : Scoping) (id : NodeId) :
    s.openScope id =
      { s.adding [(id, ⟨[], s.enclosing.head?⟩)] [] with enclosing :=
        s.forest.tables.size :: s.enclosing } := by
  simp [openScope, Tables.openScope_eq, adding, Forest.attachAll, Forest.attach]

theorem openScope_standing (s : Scoping) (id : NodeId) :
    (s.openScope id).Standing s.forest.tables.size [] := by
  rw [openScope_eq]
  refine ⟨rfl, s.enclosing.head?, ?_⟩
  simp [adding, Tables.append, Tables.size]
  rfl

@[simp] theorem storage_put (s : Scoping) (k : Nat) (symbols : List Symbol) :
    (s.put k symbols).storage = s.storage := rfl

@[simp] theorem storage_adding (s : Scoping) (made : List (NodeId × Table))
    (log : List Diagnostic) :
    (s.adding made log).storage = s.storage := rfl

theorem size_put (s : Scoping) (k : Nat) (symbols : List Symbol) :
    (s.put k symbols).forest.tables.size = s.forest.tables.size :=
  Tables.size_put _ _ _

theorem size_adding (s : Scoping) (made : List (NodeId × Table)) (log : List Diagnostic) :
    (s.adding made log).forest.tables.size = s.forest.tables.size + made.length := by
  simp [adding]

/-- The walk through a tree inside a scope does to the walker's state what the tree says. -/
def Walks (policy : Policy) (t : Tree) : Prop :=
  ∀ (s : Scoping) (k : Nat) (before : List Symbol), s.Standing k before →
    follow (visit policy) s t.steps =
      ((s.put k (firsts (before ++ t.declares policy s.storage))).adding
        (t.scopes policy s.forest.tables.size k) (t.scopeLog policy s.storage before), none)

theorem follow_stepsAll {policy : Policy} {ts : List Tree} (hw : ∀ t ∈ ts, Walks policy t)
    {s : Scoping} {k : Nat} {before : List Symbol} (h : s.Standing k before) :
    follow (visit policy) s (Tree.stepsAll ts) =
      ((s.put k (firsts (before ++ Tree.declaresAll policy s.storage ts))).adding
        (Tree.scopesAll policy s.forest.tables.size k ts)
          (Tree.scopeLogAll policy s.storage before ts), none) := by
  induction ts generalizing s before with
  | nil =>
    rw [Tree.declaresAll, Tree.scopesAll, Tree.scopeLogAll, List.append_nil, h.put_self, adding_nil]
    rfl
  | cons t ts ih =>
    have ht := hw t List.mem_cons_self s k before h
    have hp := h.put (before ++ t.declares policy s.storage)
    have hs := hp.adding (t.scopes policy s.forest.tables.size k)
      (t.scopeLog policy s.storage before)
    have hr := ih (fun u hu => hw u (List.mem_cons_of_mem t hu)) hs
    rw [Tree.stepsAll, follow_append, ht]
    simp only [hr, storage_put, storage_adding, size_adding, size_put,
      adding_put hp.lt_size, put_put, adding_adding, Tree.declaresAll, Tree.scopesAll,
      Tree.scopeLogAll, List.append_assoc]

theorem follow_node {policy : Policy} {id : NodeId} {kind : Kind} {span : Span} {cs : List Tree}
    {s s' s'' : Scoping} (he : s.enter policy id span kind = .ok s')
    (hc : follow (visit policy) s' (Tree.stepsAll cs) = (s'', none)) :
    follow (visit policy) s (Tree.node id kind span cs).steps =
      (if kind.opensScope then s''.closeScope else s'', none) := by
  have hv : visit policy s (.enter id kind span) = (s', none) := by simp [visit, he]
  rw [Tree.steps, follow, hv]
  simp only [follow_append, hc, follow, visit]

theorem storage_openScope (s : Scoping) (id : NodeId) :
    (s.openScope id).storage = if s.enclosing = [] then .global else .frame := by
  rw [openScope_eq]
  cases s.enclosing <;> simp [storage]

theorem size_openScope (s : Scoping) (id : NodeId) :
    (s.openScope id).forest.tables.size = s.forest.tables.size + 1 := by
  rw [openScope_eq]
  exact size_adding s [(id, ⟨[], s.enclosing.head?⟩)] []

/-- A scope that was opened, filled and closed. -/
theorem closeScope_eq (s : Scoping) (id : NodeId) (symbols : List Symbol)
    (made : List (NodeId × Table)) (log : List Diagnostic) :
    (((s.openScope id).put s.forest.tables.size symbols).adding made log).closeScope =
      s.adding ((id, ⟨symbols, s.enclosing.head?⟩) :: made) log := by
  have hopen : (s.adding [(id, ⟨[], s.enclosing.head?⟩)] []).put s.forest.tables.size symbols =
      s.adding [(id, ⟨symbols, s.enclosing.head?⟩)] [] := by
    simp [put, adding, Tables.put_append_last]
  have hmade := congrArg (fun s => s.adding made log) hopen
  rw [adding_adding] at hmade
  rw [openScope_eq]
  exact hmade

/-- The scope of a node, from where it is opened to where it is closed. -/
theorem follow_scope {policy : Policy} {ts : List Tree} (hw : ∀ t ∈ ts, Walks policy t)
    (s : Scoping) (id : NodeId) (parameters : List Symbol) :
    ∃ s' s'', parameters.foldlM declare (s.openScope id) = .ok s' ∧
      follow (visit policy) s' (Tree.stepsAll ts) = (s'', none) ∧
      s''.closeScope =
        let storage := if s.enclosing = [] then .global else .frame
        let base := s.forest.tables.size
        s.adding
          ((id, ⟨firsts (parameters ++ Tree.declaresAll policy storage ts), s.enclosing.head?⟩)
            :: Tree.scopesAll policy (base + 1) base ts)
          (takenLogAll [] parameters ++ Tree.scopeLogAll policy storage parameters ts) := by
  have ho := s.openScope_standing id
  have hp := (ho.put parameters).adding [] (takenLogAll [] parameters)
  refine ⟨_, _, ho.declareAll_eq parameters, follow_stepsAll hw hp, ?_⟩
  simp only [List.nil_append, storage_adding, storage_put, storage_openScope, size_adding, size_put,
    size_openScope, adding_put (ho.put parameters).lt_size, put_put, adding_adding, closeScope_eq,
    List.length_nil, Nat.add_zero]

theorem walks_plain {policy : Policy} {id : NodeId} {kind : Kind} {span : Span} {cs : List Tree}
    (hw : ∀ t ∈ cs, Walks policy t) (he : ∀ s : Scoping, s.enter policy id span kind = .ok s)
    (hk : kind.opensScope = false)
    (hd : ∀ storage, (Tree.node id kind span cs).declares policy storage =
      Tree.declaresAll policy storage cs)
    (hl : ∀ storage before,
      (Tree.node id kind span cs).scopeLog policy storage before =
      Tree.scopeLogAll policy storage before cs) :
    Walks policy (.node id kind span cs) := by
  intro s k before h
  have hs : (Tree.node id kind span cs).scopes policy s.forest.tables.size k =
      Tree.scopesAll policy s.forest.tables.size k cs := by
    simp [Tree.scopes, hk]
  rw [follow_node (he s) (follow_stepsAll hw h), hd, hl, hs]
  simp [hk]

/-- A scope of a node that declares nothing around it. -/
theorem walks_scope {policy : Policy} {id : NodeId} {kind : Kind} {span : Span} {cs : List Tree}
    (hw : ∀ t ∈ cs, Walks policy t)
    (he : ∀ s : Scoping, s.enter policy id span kind = .ok (s.openScope id))
    (hk : kind.opensScope = true) (hp : kind.parameterSymbols = [])
    (hd : ∀ storage, (Tree.node id kind span cs).declares policy storage = [])
    (hl : ∀ storage before,
      (Tree.node id kind span cs).scopeLog policy storage before =
      Tree.scopeLogAll policy .frame [] cs) :
    Walks policy (.node id kind span cs) := by
  intro s k before h
  have hne : s.enclosing ≠ [] := by
    intro hn
    simpa [hn] using h.head
  obtain ⟨s', s'', hs', hs'', hclose⟩ := follow_scope hw s id []
  cases hs'
  rw [follow_node (he s) hs'', hd, hl, List.append_nil, h.put_self, if_pos hk, hclose]
  simp [Tree.scopes, hk, Tree.symbols, hp, hne, h.head, takenLogAll]

theorem walks_function {policy : Policy} {id : NodeId} {name : String} {returns : DataType}
    {parameters : List Parameter} {body : NodeId} {span : Span} {cs : List Tree}
    (hw : ∀ t ∈ cs, Walks policy t) :
    Walks policy (.node id (.function name returns parameters body) span cs) := by
  intro s k before h
  obtain ⟨own, hown⟩ :
      ∃ own, own = Symbol.ofFunction name returns (parameters.map Parameter.type) span :=
    ⟨_, rfl⟩
  have hne : s.enclosing ≠ [] := by
    intro hn
    simpa [hn] using h.head
  have hs := (h.put (before ++ [own])).adding [] (takenLog before own)
  obtain ⟨s', s'', hs', hs'', hclose⟩ := follow_scope hw
    ((s.put k (firsts (before ++ [own]))).adding [] (takenLog before own)) id
    (parameters.map .ofParameter)
  have he : s.enter policy id span (.function name returns parameters body) = .ok s' := by
    rw [enter, ← hown, h.declare_eq, ← hs', List.foldlM_map]
    rfl
  have hopen : ((s.put k (firsts (before ++ [own]))).adding [] (takenLog before own)).enclosing ≠
      [] := hne
  have hk : (Kind.function name returns parameters body).opensScope = true := rfl
  rw [follow_node he hs'', if_pos hk, hclose]
  simp only [hopen, ↓reduceIte, hs.head, size_adding, size_put, List.length_nil, Nat.add_zero,
    adding_adding, Tree.declares, Tree.scopes, Tree.scopeLog, Tree.symbols, Kind.opensScope,
    Kind.parameterSymbols, Tree.kind_node, Tree.children_node, List.nil_append, ← hown]

theorem walks (policy : Policy) {t : Tree} (listed : t.Listed) : Walks policy t := by
  induction t with
  | node id kind span cs ih =>
    have hw : ∀ t ∈ cs, Walks policy t := fun c hc => ih c hc (listed.child hc)
    rcases kind with _ | _ | _ | ⟨name, type, length⟩ | _ | _ | _ | _ | _ | _ | _ | _ | _ | _ | _
    case program => exact walks_scope hw (fun _ => rfl) rfl rfl (fun _ => rfl) (fun _ _ => rfl)
    case block => exact walks_scope hw (fun _ => rfl) rfl rfl (fun _ => rfl) (fun _ _ => rfl)
    case function => exact walks_function hw
    case «variable» =>
      intro s k before h
      obtain rfl : cs = [] := List.map_eq_nil_iff.mp (listed _ (Tree.self_mem_subtrees _)).symm
      have he : s.enter policy id span (.variable name type length) = _ :=
        h.declareVariable_eq policy name type length span
      rw [follow_node he rfl]
      rfl
    all_goals exact walks_plain hw (fun _ => rfl) rfl (fun _ => rfl) (fun _ _ => rfl)

end Scoping

end DecafCheck
