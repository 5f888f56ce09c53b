import DecafCheck.Proofs.Tree.Relabel

namespace DecafCheck

/-- A name that a function or a block declares, and the name that it gets instead. -/
structure Renaming where
  scope : NodeId
  old : String
  new : String

namespace Forest

/-- The symbol that the table of a node holds, whatever the tables around it hold. -/
def held? (f : Forest) (id : NodeId) (name : String) : Option Symbol :=
  (f.tableOf? id).bind fun k => f.tables.tables[k]?.bind fun table => table.find? name

/-- The variables that a block declares. -/
def variablesOf (f : Forest) (id : NodeId) : List NodeId :=
  match f.kindOf? id with
  | some (.block vars _) => vars
  | _ => []

end Forest

namespace Renaming

variable (r : Renaming)

def name (n : String) : String :=
  if n = r.old then r.new else n

def parameter (p : Parameter) : Parameter :=
  { p with name := r.name p.name }

def symbol (s : Symbol) : Symbol :=
  { s with name := r.name s.name }

/-- Renames the declarations of the scope and the locations that mean what it declares. Which these
are is read from a forest that has its tables. -/
def kind (f : Forest) (id : NodeId) : Kind → Kind
  | .function name returns parameters body =>
    .function name returns (if id = r.scope then parameters.map r.parameter else parameters) body
  | .variable name type length =>
    .variable (if id ∈ f.variablesOf r.scope then r.name name else name) type length
  | .location name index =>
    if name = r.old ∧ (f.held? r.scope r.old).isSome ∧
      f.resolve id r.old = f.held? r.scope r.old then
      .location r.new index
    else .location name index
  | k => k

/-- Locations stay locations. -/
theorem kind_location (f : Forest) (id : NodeId) (name : String) (index : Option NodeId) :
    ∃ name', r.kind f id (.location name index) = .location name' index := by
  rw [kind]
  split
  · exact ⟨r.new, rfl⟩
  · exact ⟨name, rfl⟩

theorem nameless_kind (f : Forest) (id : NodeId) (k : Kind) :
    (r.kind f id k).nameless = k.nameless := by
  cases k with
  | function name returns parameters body =>
    rw [kind, Kind.nameless, Kind.nameless]
    split
    · rw [List.map_map]
      rfl
    · rfl
  | location name index =>
    obtain ⟨name', hk⟩ := r.kind_location f id name index
    rw [hk]
    rfl
  | _ => rfl

end Renaming

/-- The names in a node. -/
def Kind.names : Kind → List String
  | .function name _ parameters _ => name :: parameters.map Parameter.name
  | .variable name _ _ => [name]
  | .callStatement name _ => [name]
  | .call name _ => [name]
  | .location name _ => [name]
  | _ => []

/-- A name that no node of the tree has. -/
def Tree.Avoids (t : Tree) (n : String) : Prop :=
  ∀ x ∈ t.subtrees, n ∉ x.kind.names

theorem Tree.Avoids.child {t c : Tree} {n : String} (h : t.Avoids n) (hc : c ∈ t.children) :
    c.Avoids n :=
  fun x hx => h x (mem_subtrees_of_child hc hx)

/-- A name that no symbol of the scope has. -/
def Avoids (scope : List Symbol) (n : String) : Prop :=
  ∀ s ∈ scope, s.name ≠ n

namespace Tree

variable (policy : Policy) (storage : Storage) {n : String}

theorem declaresAll_avoids {ts : List Tree}
    (h : ∀ t ∈ ts, DecafCheck.Avoids (t.declares policy storage) n) :
    DecafCheck.Avoids (declaresAll policy storage ts) n := by
  rw [declaresAll_eq]
  intro s hs
  obtain ⟨t, ht, hs⟩ := List.mem_flatMap.mp hs
  exact h t ht s hs

theorem declares_avoids {t : Tree} (h : t.Avoids n) :
    DecafCheck.Avoids (t.declares policy storage) n := by
  induction t with
  | node id kind span cs ih =>
    have hcs := declaresAll_avoids policy storage fun c hc => ih c hc (h.child hc)
    have hself := h _ (self_mem_subtrees _)
    cases kind with
    | «variable» name type length =>
      intro s hs hn
      obtain ⟨-, rfl⟩ := Policy.symbol?_eq_some_iff.mp (Option.mem_toList.mp hs)
      exact hself (hn ▸ List.mem_cons_self)
    | function name returns parameters body =>
      intro s hs hn
      obtain rfl := List.mem_singleton.mp hs
      exact hself (hn ▸ List.mem_cons_self)
    | program | block => exact List.forall_mem_nil _
    | _ => exact hcs

theorem parameters_avoid {t : Tree} (h : t.Avoids n) :
    DecafCheck.Avoids t.kind.parameterSymbols n := by
  have hself := h _ (self_mem_subtrees _)
  cases hk : t.kind with
  | function name returns parameters body =>
    intro s hs hn
    obtain ⟨p, hp, rfl⟩ := List.mem_map.mp hs
    rw [hk] at hself
    exact hself (List.mem_cons_of_mem _ (List.mem_map.mpr ⟨p, hp, hn⟩))
  | _ => exact List.forall_mem_nil _

theorem symbols_avoid {t : Tree} (h : t.Avoids n) :
    DecafCheck.Avoids (t.symbols policy storage) n :=
  List.forall_mem_append.mpr ⟨parameters_avoid h,
    declaresAll_avoids policy storage fun _ hc => declares_avoids policy storage (h.child hc)⟩

end Tree

namespace Renaming

variable {r : Renaming} {scope : List Symbol}

theorem name_eq_iff {n m : String} (hn : n ≠ r.new) (hm : m ≠ r.new) :
    r.name n = r.name m ↔ n = m := by
  unfold name
  split <;> split <;> grind

/-- A symbol is found by its new name. -/
theorem declared?_map (h : Avoids scope r.new) {n : String} (hn : n ≠ r.new) :
    declared? (scope.map r.symbol) (r.name n) = (declared? scope n).map r.symbol := by
  induction scope with
  | nil => rfl
  | cons s scope ih =>
    obtain ⟨hs, hscope⟩ := List.forall_mem_cons.mp h
    have heq : ((r.symbol s).name == r.name n) = (s.name == n) := by
      rw [Bool.eq_iff_iff, beq_iff_eq, beq_iff_eq]
      exact name_eq_iff hs hn
    rw [declared?, declared?, List.map_cons, List.find?_cons, List.find?_cons, heq]
    cases s.name == n with
    | true => rfl
    | false => exact ih hscope

theorem declared?_map_of_ne (h : Avoids scope r.new) {n : String} (hn : n ≠ r.new)
    (hold : n ≠ r.old) :
    declared? (scope.map r.symbol) n = declared? scope n := by
  have hfound := declared?_map h hn
  rw [name, if_neg hold] at hfound
  rw [hfound]
  cases hs : declared? scope n with
  | none => rfl
  | some s =>
    have hname : s.name ≠ r.old := name_of_declared? hs ▸ hold
    rw [Option.map_some, symbol, name, if_neg hname]

theorem declared?_map_old (h : Avoids scope r.new) :
    declared? (scope.map r.symbol) r.old = none := by
  rw [declared?, List.find?_eq_none]
  intro s' hs'
  obtain ⟨s, hs, rfl⟩ := List.mem_map.mp hs'
  have hne := h s hs
  simp only [symbol, name, beq_iff_eq]
  split
  · next hold => exact fun hnew => hne (hold.trans hnew.symm)
  · next hold => exact hold

theorem declared?_map_new (h : Avoids scope r.new) (hold : r.old ≠ r.new) :
    declared? (scope.map r.symbol) r.new = (declared? scope r.old).map r.symbol := by
  rw [← declared?_map h hold, name, if_pos rfl]

theorem declared?_new (h : Avoids scope r.new) : declared? scope r.new = none := by
  rw [declared?, List.find?_eq_none]
  exact fun s hs hn => h s hs (beq_iff_eq.mp hn)

end Renaming

namespace Tree

/-- The node of the innermost scope. -/
def inner? : List Tree → Option NodeId
  | [] => none
  | x :: above => if x.kind.opensScope then some x.id else inner? above

end Tree

/-- What becomes of symbols that are declared in the innermost scope of a place. -/
def Renaming.on (r : Renaming) (above : List Tree) (scope : List Symbol) : List Symbol :=
  if Tree.inner? above = some r.scope then scope.map r.symbol else scope

theorem Renaming.on_append (r : Renaming) (above : List Tree) (scope more : List Symbol) :
    r.on above (scope ++ more) = r.on above scope ++ r.on above more := by
  unfold on
  split
  · exact List.map_append
  · rfl

theorem Renaming.on_nil (r : Renaming) (above : List Tree) : r.on above [] = [] := by
  unfold on
  split <;> rfl

theorem Renaming.on_plain (r : Renaming) {x : Tree} (hx : x.kind.opensScope = false)
    (above : List Tree) :
    r.on (x :: above) = r.on above := by
  have hinner : Tree.inner? (x :: above) = Tree.inner? above := by
    rw [Tree.inner?, hx]
    rfl
  funext scope
  rw [on, on, hinner]

theorem Renaming.on_scope (r : Renaming) {x : Tree} (hx : x.kind.opensScope = true)
    (above : List Tree) (scope : List Symbol) : r.on (x :: above) scope = if x.id = r.scope then
      scope.map r.symbol else scope := by
  rw [on, Tree.inner?, if_pos hx]
  simp only [Option.some.injEq]

/-- What the program itself declares stays as it is, and the new name is not in use. -/
structure Renaming.Proper (r : Renaming) (t : Tree) : Prop where
  inside : t.id ≠ r.scope
  fresh : t.Avoids r.new

theorem Renaming.Proper.avoids {r : Renaming} {t : Tree} (h : r.Proper t)
    {above : List Tree} {x : Tree} (hp : t.Path above x) : x.Avoids r.new :=
  fun y hy => h.fresh y (Tree.subtrees_trans hp.mem hy)

theorem Renaming.Proper.avoids_above {r : Renaming} {t : Tree} (h : r.Proper t)
    {above : List Tree} {x : Tree} (hp : t.Path above x) : ∀ y ∈ above, y.Avoids r.new := by
  induction hp with
  | root => exact List.forall_mem_nil _
  | child hp _ ih => exact List.forall_mem_cons.mpr ⟨h.avoids hp, ih⟩

theorem Renaming.Proper.on_root {r : Renaming} {t : Tree} (h : r.Proper t) (scope : List Symbol) :
    r.on [t] scope = scope := by
  have hinner : Tree.inner? [t] ≠ some r.scope := by
    unfold Tree.inner?
    split
    · exact fun hid => h.inside (Option.some.inj hid)
    · exact fun hid => nomatch hid
  rw [on, if_neg hinner]

namespace Forest

variable {policy : Policy} {f : Forest} {t : Tree} (h : f.Carries t)
  (hfit : ∀ x ∈ t.subtrees, x.Fitting)

include h hfit

/-- Variables are declared by programs and blocks. -/
theorem Carries.variable_of_path {y x : Tree} {above : List Tree} (hp : t.Path (y :: above) x)
    {name : String} {type : DataType} {length : Nat} (hk : x.kind = .variable name type length) :
    ∃ vars, x.id ∈ vars ∧ ((∃ functions, y.kind = .program vars functions) ∨
      ∃ statements, y.kind = .block vars statements) := by
  obtain ⟨role, hrole, hfits⟩ := h.exists_role hfit hp
  rw [hk] at hfits
  cases role <;> cases hfits
  cases hy : y.kind <;> rw [hy] at hrole <;> simp [Kind.roles, Kind.children] at hrole
  · exact ⟨_, hrole, .inl ⟨_, rfl⟩⟩
  · exact ⟨_, hrole, .inr ⟨_, rfl⟩⟩

theorem Carries.opensScope_of_variable {y x : Tree} {above : List Tree} (hp : t.Path (y :: above) x)
    {name : String} {type : DataType} {length : Nat} (hk : x.kind = .variable name type length) :
    y.kind.opensScope = true := by
  obtain ⟨vars, -, ⟨functions, hy⟩ | ⟨statements, hy⟩⟩ := h.variable_of_path hfit hp hk
  · rw [hy]
    rfl
  · rw [hy]
    rfl

/-- Functions are declared by the program. -/
theorem Carries.function_of_path {y x : Tree} {above : List Tree} (hp : t.Path (y :: above) x)
    {name : String} {returns : DataType} {parameters : List Parameter} {body : NodeId}
    (hk : x.kind = .function name returns parameters body) : above = [] ∧ y = t := by
  obtain ⟨role, hrole, hfits⟩ := h.exists_role hfit hp
  rw [hk] at hfits
  cases role <;> cases hfits
  have hy : ∃ vars functions, y.kind = .program vars functions := by
    cases hy : y.kind <;> rw [hy] at hrole <;> simp [Kind.roles, Kind.children] at hrole
    exact ⟨_, _, rfl⟩
  obtain ⟨vars, functions, hy⟩ := hy
  cases hp with
  | child hpy _ =>
    cases hpy with
    | root => exact ⟨rfl, rfl⟩
    | child hpz hy' => exact absurd hy (h.kind_ne_program hfit (hpz.child hy') vars functions)

/-- The variables that a block declares are its children. -/
theorem Carries.mem_variablesOf {y x : Tree} {above : List Tree} (hp : t.Path (y :: above) x)
    {name : String} {type : DataType} {length : Nat} (hk : x.kind = .variable name type length)
    {id : NodeId} (hroot : t.id ≠ id) :
    x.id ∈ f.variablesOf id ↔ y.id = id := by
  obtain ⟨vars, hvars, hy⟩ := h.variable_of_path hfit hp hk
  cases hp with
  | @child above y x hpy hx =>
    constructor
    · intro hmem
      unfold variablesOf at hmem
      split at hmem
      · next vars' statements hblock =>
        obtain ⟨z, hz, rfl, hzk⟩ := h.of_kindOf? hblock
        have hlisted : x.id ∈ z.children.map Tree.id := by
          rw [← h.listed z hz, hzk]
          exact List.mem_append_left _ hmem
        obtain ⟨c, hc, hid⟩ := List.mem_map.mp hlisted
        rw [Tree.parent_unique h.distinct hpy.mem hz hx hc hid.symm]
      · exact absurd hmem List.not_mem_nil
    · rintro rfl
      rcases hy with ⟨functions, hy⟩ | ⟨statements, hy⟩
      · cases hpy with
        | root => exact absurd rfl hroot
        | child hpz hyz => exact absurd hy (h.kind_ne_program hfit (hpz.child hyz) vars functions)
      · rw [variablesOf, h.kind y hpy.mem, hy]
        exact hvars

end Forest

section Objections

variable (policy : Policy) (storage : Storage) (type : DataType) (length : Nat) (span : Span)

/-- What speaks against a variable is not its name. -/
theorem Policy.code_of_objection? (name name' : String) :
    (policy.objection? storage name type length).map Problem.code =
      (policy.objection? storage name' type length).map Problem.code := by
  unfold objection?
  repeat' split
  all_goals rfl

theorem Policy.symbol?_renamed (r : Renaming) (name : String) :
    policy.symbol? storage (r.name name) type length span =
      (policy.symbol? storage name type length span).map r.symbol := by
  have hcode := policy.code_of_objection? storage type length (r.name name) name
  cases ho : policy.objection? storage name type length with
  | none =>
    rw [ho] at hcode
    simp only [symbol?, ho, Option.map_eq_none_iff.mp hcode]
    rfl
  | some p =>
    rw [ho] at hcode
    obtain ⟨q, hq, -⟩ := Option.map_eq_some_iff.mp hcode
    simp only [symbol?, ho, hq]
    rfl

end Objections

/-- What a report is about and where, whatever its words. -/
def Diagnostic.place (d : Diagnostic) : Code × Span :=
  (d.code, d.span)

namespace Renaming

section Logs

variable {r : Renaming} {before : List Symbol}

theorem takenLog_renamed (h : Avoids before r.new) {s : Symbol} (hs : s.name ≠ r.new) :
    (takenLog (before.map r.symbol) (r.symbol s)).map Diagnostic.place =
      (takenLog before s).map Diagnostic.place := by
  have htaken : (declared? (before.map r.symbol) (r.symbol s).name).isSome =
      (declared? before s.name).isSome := by
    exact (congrArg Option.isSome (declared?_map h hs)).trans Option.isSome_map
  rw [takenLog, takenLog, htaken]
  split <;> rfl

theorem takenLogAll_renamed (h : Avoids before r.new) {symbols : List Symbol}
    (hs : Avoids symbols r.new) :
    (takenLogAll (before.map r.symbol) (symbols.map r.symbol)).map Diagnostic.place =
      (takenLogAll before symbols).map Diagnostic.place := by
  induction symbols generalizing before with
  | nil => rfl
  | cons s symbols ih =>
    obtain ⟨hs, hsymbols⟩ := List.forall_mem_cons.mp hs
    have hnext : Avoids (before ++ [s]) r.new :=
      List.forall_mem_append.mpr ⟨h, List.forall_mem_singleton.mpr hs⟩
    have hrest := ih hnext hsymbols
    rw [List.map_append] at hrest
    rw [takenLogAll, List.map_append, ← takenLog_renamed h hs, ← hrest, ← List.map_append]
    rfl

/-- Which of the first symbols of a scope are taken does not change with a renaming. -/
theorem takenLogAll_on {x : Tree} (hx : x.kind.opensScope = true) (above : List Tree)
    {symbols : List Symbol} (hs : Avoids symbols r.new) :
    (takenLogAll [] (r.on (x :: above) symbols)).map Diagnostic.place =
      (takenLogAll [] symbols).map Diagnostic.place := by
  rw [r.on_scope hx]
  split
  · exact takenLogAll_renamed (List.forall_mem_nil _) hs
  · rfl

theorem variableLog_renamed (policy : Policy) (storage : Storage) (h : Avoids before r.new)
    {name : String} (hname : name ≠ r.new) (type : DataType) (length : Nat) (span : Span) :
    (variableLog policy storage (before.map r.symbol) (r.name name) type length span).map
      Diagnostic.place =
      (variableLog policy storage before name type length span).map Diagnostic.place := by
  have hcode := policy.code_of_objection? storage type length (r.name name) name
  cases ho : policy.objection? storage name type length with
  | none =>
    rw [ho] at hcode
    simp only [variableLog, ho, Option.map_eq_none_iff.mp hcode]
    have hs : Symbol.name ⟨name, .variable length storage, type, span⟩ ≠ r.new := hname
    exact takenLog_renamed h hs
  | some p =>
    rw [ho] at hcode
    obtain ⟨q, hq, hpq⟩ := Option.map_eq_some_iff.mp hcode
    simp only [variableLog, ho, hq]
    exact congrArg (fun code => [(code, span)]) hpq

end Logs

variable {policy : Policy} {f : Forest} {t : Tree} {r : Renaming}

theorem map_type (r : Renaming) (id : NodeId) (parameters : List Parameter) :
    (if id = r.scope then parameters.map r.parameter else parameters).map Parameter.type =
      parameters.map Parameter.type := by
  split
  · rw [List.map_map]
    rfl
  · rfl

theorem map_ofParameter {x : Tree} (hx : x.kind.opensScope = true) (above : List Tree)
    (parameters : List Parameter) :
    (if x.id = r.scope then parameters.map r.parameter else parameters).map Symbol.ofParameter =
      r.on (x :: above) (parameters.map Symbol.ofParameter) := by
  rw [r.on_scope hx]
  split
  · rw [List.map_map, List.map_map]
    rfl
  · rfl

theorem declaresAll_relabel {ρ : NodeId → Kind → Kind} {above : List Tree} {cs : List Tree}
    (storage : Storage) (hcs : ∀ c ∈ cs,
      (c.relabel ρ).declares policy storage = r.on above (c.declares policy storage)) :
    Tree.declaresAll policy storage (cs.map (Tree.relabel ρ)) =
      r.on above (Tree.declaresAll policy storage cs) := by
  induction cs with
  | nil => exact (r.on_nil above).symm
  | cons c cs ih =>
    rw [List.map_cons, Tree.declaresAll, Tree.declaresAll, r.on_append, hcs c List.mem_cons_self,
      ih fun d hd => hcs d (List.mem_cons_of_mem c hd)]

theorem scopeLogAll_relabel {ρ : NodeId → Kind → Kind} {above : List Tree} {cs : List Tree}
    (storage : Storage) (hdeclares : ∀ c ∈ cs,
      (c.relabel ρ).declares policy storage = r.on above (c.declares policy storage))
    (havoids : ∀ c ∈ cs, Avoids (c.declares policy storage) r.new)
    (hlog : ∀ c ∈ cs, ∀ before, Avoids before r.new →
      ((c.relabel ρ).scopeLog policy storage (r.on above before)).map Diagnostic.place =
        (c.scopeLog policy storage before).map Diagnostic.place)
    {before : List Symbol} (h : Avoids before r.new) :
    (Tree.scopeLogAll policy storage (r.on above before) (cs.map (Tree.relabel ρ))).map
      Diagnostic.place = (Tree.scopeLogAll policy storage before cs).map Diagnostic.place := by
  induction cs generalizing before with
  | nil => rfl
  | cons c cs ih =>
    rw [List.forall_mem_cons] at hdeclares havoids hlog
    have hnext : Avoids (before ++ c.declares policy storage) r.new :=
      List.forall_mem_append.mpr ⟨h, havoids.1⟩
    have hrest := ih hdeclares.2 havoids.2 hlog.2 hnext
    rw [r.on_append, ← hdeclares.1] at hrest
    rw [List.map_cons, Tree.scopeLogAll, Tree.scopeLogAll, List.map_append, List.map_append,
      hlog.1 before h, hrest]

variable (h : f.Carries t) (hfit : ∀ x ∈ t.subtrees, x.Fitting) (hr : r.Proper t)

include h hfit hr

theorem kind_variable {y x : Tree} {above : List Tree} (hp : t.Path (y :: above) x) {name : String}
    {type : DataType} {length : Nat} (hk : x.kind = .variable name type length) :
    r.kind f x.id x.kind = .variable (if y.id = r.scope then r.name name else
      name) type length := by
  rw [hk, kind]
  simp only [h.mem_variablesOf hfit hp hk hr.inside]

/-- What a tree declares is renamed in the renamed scope and nowhere else. -/
theorem declares_relabel {y x : Tree} {above : List Tree} (hp : t.Path (y :: above) x)
    (storage : Storage) :
    (x.relabel (r.kind f)).declares policy storage =
      r.on (y :: above) (x.declares policy storage) := by
  induction x generalizing y above with
  | node id kind span cs ih =>
    -- The children of a node that opens no scope declare into the scope around it.
    have hcs (hplain : kind.opensScope = false) :
        Tree.declaresAll policy storage (cs.map (Tree.relabel (r.kind f))) =
        r.on (y :: above) (Tree.declaresAll policy storage cs) := by
      rw [← r.on_plain (x := .node id kind span cs) hplain]
      exact declaresAll_relabel storage fun c hc => ih c hc (hp.child hc)
    rw [Tree.relabel_node]
    cases kind with
    | «variable» name type length =>
      have hk := kind_variable h hfit hr hp rfl
      rw [Tree.id_node, Tree.kind_node] at hk
      rw [hk, r.on_scope (h.opensScope_of_variable hfit hp rfl), Tree.declares, Tree.declares]
      split
      · rw [policy.symbol?_renamed, Option.toList_map]
      · rfl
    | function name returns parameters body =>
      obtain ⟨rfl, rfl⟩ := h.function_of_path hfit hp rfl
      rw [hr.on_root, Renaming.kind, Tree.declares, Tree.declares, map_type]
    | program | block => exact (r.on_nil _).symm
    | location name index =>
      obtain ⟨name', hk⟩ := r.kind_location f id name index
      rw [hk]
      exact hcs rfl
    | _ => exact hcs rfl

/-- The symbols of a scope. -/
theorem symbols_relabel {above : List Tree} {x : Tree} (hp : t.Path above x)
    (hx : x.kind.opensScope = true) (storage : Storage) :
    (x.relabel (r.kind f)).symbols policy storage =
      r.on (x :: above) (x.symbols policy storage) := by
  have hcs : Tree.declaresAll policy storage (x.children.map (Tree.relabel (r.kind f))) =
      r.on (x :: above) (Tree.declaresAll policy storage x.children) :=
    declaresAll_relabel storage fun c hc => declares_relabel h hfit hr (hp.child hc) storage
  rw [Tree.symbols, Tree.symbols, r.on_append, Tree.children_relabel, hcs, Tree.kind_relabel]
  refine congrArg (· ++ _) ?_
  cases hk : x.kind with
  | function name returns parameters body =>
    rw [kind, Kind.parameterSymbols, Kind.parameterSymbols, map_ofParameter hx]
  | location =>
    rw [hk] at hx
    cases hx
  | _ => exact (r.on_nil _).symm

/-- The problems with the declarations of a tree keep their codes and spans. -/
theorem scopeLog_relabel {y x : Tree} {above : List Tree} (hp : t.Path (y :: above) x)
    (storage : Storage) {before : List Symbol} (hbefore : Avoids before r.new) :
    ((x.relabel (r.kind f)).scopeLog policy storage (r.on (y :: above) before)).map
      Diagnostic.place = (x.scopeLog policy storage before).map Diagnostic.place := by
  induction x generalizing y above storage before with
  | node id kind span cs ih =>
    have hcs (storage : Storage) {before : List Symbol} (hbefore : Avoids before r.new) :
        (Tree.scopeLogAll policy storage (r.on (.node id kind span cs :: y :: above) before)
            (cs.map (Tree.relabel (r.kind f)))).map Diagnostic.place =
          (Tree.scopeLogAll policy storage before cs).map Diagnostic.place :=
      scopeLogAll_relabel storage (fun c hc => declares_relabel h hfit hr (hp.child hc) storage)
        (fun c hc => Tree.declares_avoids policy storage (hr.avoids (hp.child hc)))
        (fun c hc before hbefore => ih c hc (hp.child hc) storage hbefore) hbefore
    have hplain (hk : kind.opensScope = false) :=
      r.on_plain (x := .node id kind span cs) hk (y :: above)
    rw [Tree.relabel_node]
    cases kind with
    | «variable» name type length =>
      have hk := kind_variable h hfit hr hp rfl
      rw [Tree.id_node, Tree.kind_node] at hk
      rw [hk, r.on_scope (h.opensScope_of_variable hfit hp rfl), Tree.scopeLog, Tree.scopeLog]
      split
      · refine variableLog_renamed policy storage hbefore (fun hname => ?_) type length span
        exact hr.fresh _ hp.mem (hname ▸ List.mem_cons_self)
      · rfl
    | function name returns parameters body =>
      have hopens : (Tree.node id (.function name returns parameters body) span
          cs).kind.opensScope = true := rfl
      have havoids : Avoids (parameters.map Symbol.ofParameter) r.new :=
        Tree.parameters_avoid (hr.avoids hp)
      have hown := takenLogAll_on hopens (y :: above) havoids
      have hall := hcs .frame havoids
      have hparameters := map_ofParameter (r := r) hopens (y :: above) parameters
      rw [Tree.id_node] at hparameters
      obtain ⟨rfl, rfl⟩ := h.function_of_path hfit hp rfl
      rw [hr.on_root, Renaming.kind, Tree.scopeLog, Tree.scopeLog, map_type, hparameters]
      simp only [List.map_append, hown, hall]
    | program | block =>
      have hnil := hcs .frame (List.forall_mem_nil (fun s : Symbol => s.name ≠ r.new))
      rw [r.on_nil] at hnil
      exact hnil
    | location name index =>
      have hall := hcs storage hbefore
      obtain ⟨name', hk⟩ := r.kind_location f id name index
      rw [hplain rfl] at hall
      rw [hk]
      exact hall
    | _ =>
      have hall := hcs storage hbefore
      rw [hplain rfl] at hall
      exact hall

end Renaming

end DecafCheck
