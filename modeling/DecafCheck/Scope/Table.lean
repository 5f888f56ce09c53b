import DecafCheck.Scope.Symbol

namespace DecafCheck

abbrev TableId := Nat

/-- Why a table does not take or give a symbol. -/
inductive TableError
  | declared (name : String)
  | undeclared (name : String)
  | fault (f : Fault)
deriving DecidableEq, Repr

def TableError.message : TableError → String
  | declared name => "'" ++ name ++ "' is already declared in this scope"
  | undeclared name => "'" ++ name ++ "' is not declared"
  | fault f => f.message

/-- The symbols of one scope, in the order they came. -/
structure Table where
  symbols : List Symbol := []
  parent : Option TableId := none
deriving Repr

namespace Table

def find? (t : Table) (name : String) : Option Symbol :=
  t.symbols.find? fun s => s.name == name

/-- The first symbol of a name stays. -/
def insert (t : Table) (s : Symbol) : Except TableError Table :=
  match t.find? s.name with
  | some _ => .error (.declared s.name)
  | none => .ok { t with symbols := t.symbols ++ [s] }

/-- A symbol that is taken in changes what its own name means and nothing else. -/
theorem find?_insert {t t' : Table} {s : Symbol} (h : t.insert s = .ok t') (name : String) :
    t'.find? name = if name = s.name then some s else t.find? name := by
  unfold insert at h
  split at h
  · cases h
  · next hn =>
    cases h
    by_cases hs : name = s.name
    · subst hs
      unfold find? at hn
      simp [find?, List.find?_append, hn]
    · have hb : (s.name == name) = false := beq_false_of_ne (Ne.symm hs)
      simp [find?, List.find?_append, hb, hs]

def size (t : Table) : Nat :=
  t.symbols.length

/-- The symbols by ascending name. -/
def sorted (t : Table) : List Symbol :=
  t.symbols.mergeSort fun a b => decide (a.name ≤ b.name)

end Table

/-- The tables of scopes, each chained to the table of the scope around it. -/
structure Tables where
  tables : Array Table := #[]
deriving Repr

namespace Tables

def size (t : Tables) : Nat :=
  t.tables.size

/-- A new empty table inside `parent`. The parent need not be there yet. -/
def openScope (t : Tables) (parent : Option TableId) : Tables × TableId :=
  (⟨t.tables.push { parent }⟩, t.size)

def get (t : Tables) (id : TableId) : Except Fault Table :=
  match t.tables[id]? with
  | some table => .ok table
  | none => .error (.missing t.size id)

def insert (t : Tables) (id : TableId) (s : Symbol) : Except TableError Tables :=
  match t.tables[id]? with
  | some table => return ⟨t.tables.setIfInBounds id (← table.insert s)⟩
  | none => .error (.fault (.missing t.size id))

/-- The symbol of a name in a table or the ones around it, at most `steps` tables. -/
def lookupWithin (t : Tables) (name : String) : Nat → TableId → Except TableError Symbol
  | 0, _ => .error (.fault .circular)
  | steps + 1, id =>
    match t.tables[id]? with
    | none => .error (.fault (.missing t.size id))
    | some table =>
      match table.find? name, table.parent with
      | some s, _ => .ok s
      | none, some parent => t.lookupWithin name steps parent
      | none, none => .error (.undeclared name)

/-- The symbol of a name in a table or, failing that, in the tables around it. A chain that does not
run in a circle meets each table at most once. -/
def lookup (t : Tables) (id : TableId) (name : String) : Except TableError Symbol :=
  t.lookupWithin name (t.size + 1) id

/-- The outermost table around `id`, at most `steps` tables out. -/
def outermostWithin (t : Tables) : Nat → TableId → Except Fault TableId
  | 0, _ => .error .circular
  | steps + 1, id => do
    match (← t.get id).parent with
    | some parent => t.outermostWithin steps parent
    | none => return id

/-- The outermost table around `id`. -/
def outermost (t : Tables) (id : TableId) : Except Fault TableId :=
  t.outermostWithin (t.size + 1) id

end Tables

end DecafCheck
