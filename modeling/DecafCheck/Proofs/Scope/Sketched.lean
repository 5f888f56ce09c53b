import DecafCheck.Proofs.Scope.Attached
import DecafCheck.Proofs.Tree.Sketch

namespace DecafCheck

def Diagnostic.moved (φ : Span → Span) (d : Diagnostic) : Diagnostic :=
  { d with span := φ d.span }

def Symbol.moved (φ : Span → Span) (s : Symbol) : Symbol :=
  { s with span := φ s.span }

/-- A scope without its spans. -/
def bareScope (scope : List Symbol) : List Symbol :=
  scope.map (Symbol.moved .forget)

def Scopes.bare (scopes : Scopes) : Scopes :=
  scopes.map bareScope

section Scopes

variable {φ : Span → Span}

theorem bareScope_moved (scope : List Symbol) :
    bareScope (scope.map (Symbol.moved φ)) = bareScope scope := by
  rw [bareScope, List.map_map]
  rfl

theorem bareScope_append (scope more : List Symbol) :
    bareScope (scope ++ more) = bareScope scope ++ bareScope more :=
  List.map_append

theorem declared?_bareScope (scope : List Symbol) (name : String) :
    declared? (bareScope scope) name = (declared? scope name).map (Symbol.moved .forget) := by
  rw [declared?, bareScope, List.find?_map]
  rfl

namespace Scopes

theorem bare_cons (scope : List Symbol) (scopes : Scopes) :
    bare (scope :: scopes) = bareScope scope :: scopes.bare :=
  rfl

theorem bare_eq_nil {scopes : Scopes} : scopes.bare = [] ↔ scopes = [] :=
  List.map_eq_nil_iff

theorem find?_bare (scopes : Scopes) (name : String) :
    scopes.bare.find? name = (scopes.find? name).map (Symbol.moved .forget) := by
  induction scopes with
  | nil => rfl
  | cons scope scopes ih =>
    rw [bare_cons, find?_cons, find?_cons, declared?_bareScope, ih]
    cases declared? scope name <;> rfl

theorem globals_bare : ∀ scopes : Scopes, scopes.bare.globals = bareScope scopes.globals
  | [] => rfl
  | [_] => rfl
  | _ :: scope :: outer => globals_bare (scope :: outer)

end Scopes

end Scopes

section Taken

variable {φ : Span → Span} {before before' : List Symbol}

theorem moved_takenLog (h : bareScope before = bareScope before') (s : Symbol) :
    (takenLog before s).map (Diagnostic.moved φ) = takenLog before' (s.moved φ) := by
  have hdeclared : (declared? before s.name).isSome = (declared? before' s.name).isSome := by
    have hbare := congrArg (fun scope => (declared? scope s.name).isSome) h
    simpa only [declared?_bareScope, Option.isSome_map] using hbare
  unfold takenLog
  rw [hdeclared]
  show _ = if (declared? before' s.name).isSome then _ else _
  split <;> rfl

theorem moved_takenLogAll (h : bareScope before = bareScope before') (symbols : List Symbol) :
    (takenLogAll before symbols).map (Diagnostic.moved φ) =
      takenLogAll before' (symbols.map (Symbol.moved φ)) := by
  induction symbols generalizing before before' with
  | nil => rfl
  | cons s symbols ih =>
    have hnext : bareScope (before ++ [s]) = bareScope (before' ++ [s.moved φ]) := by
      rw [bareScope_append, bareScope_append, h]
      rfl
    rw [takenLogAll, List.map_append, moved_takenLog h, ih hnext]
    rfl

theorem Policy.moved_symbol? (policy : Policy) (storage : Storage) (name : String) (type : DataType)
    (length : Nat) (span : Span) :
    (policy.symbol? storage name type length span).map (Symbol.moved φ) =
      policy.symbol? storage name type length (φ span) := by
  unfold symbol?
  cases policy.objection? storage name type length <;> rfl

theorem moved_variableLog (policy : Policy) (storage : Storage)
    (h : bareScope before = bareScope before') (name : String) (type : DataType) (length : Nat)
    (span : Span) :
    (variableLog policy storage before name type length span).map (Diagnostic.moved φ) =
      variableLog policy storage before' name type length (φ span) := by
  unfold variableLog
  cases policy.objection? storage name type length with
  | some p => rfl
  | none => exact moved_takenLog h _

theorem moved_parameters (parameters : List Parameter) :
    (parameters.map Symbol.ofParameter).map (Symbol.moved φ) =
      (parameters.map (Parameter.moved φ)).map .ofParameter := by
  rw [List.map_map, List.map_map]
  rfl

end Taken

namespace Tree

variable (φ : Span → Span) (policy : Policy)

theorem declaresAll_sketch (storage : Storage) {ts : List Tree}
    (h : ∀ t ∈ ts, (t.declares policy storage).map (Symbol.moved φ) =
      (t.sketch φ).declares policy storage) :
    (declaresAll policy storage ts).map (Symbol.moved φ) =
      declaresAll policy storage (ts.map (sketch φ)) := by
  induction ts with
  | nil => rfl
  | cons t ts ih =>
    rw [declaresAll, List.map_append, h t List.mem_cons_self,
      ih fun u hu => h u (List.mem_cons_of_mem t hu)]
    rfl

theorem declares_sketch (storage : Storage) (t : Tree) :
    (t.declares policy storage).map (Symbol.moved φ) = (t.sketch φ).declares policy storage := by
  induction t with
  | node id kind span cs ih =>
    have hcs := declaresAll_sketch φ policy storage ih
    rw [sketch_node]
    cases kind with
    | «variable» name type length =>
      rw [declares, ← Option.toList_map, policy.moved_symbol?]
      rfl
    | function name returns parameters body =>
      simp only [declares, Kind.sketch, List.map_map]
      rfl
    | program | block => rfl
    | _ => exact hcs

theorem symbols_sketch (storage : Storage) (t : Tree) :
    (t.symbols policy storage).map (Symbol.moved φ) = (t.sketch φ).symbols policy storage := by
  have hcs := declaresAll_sketch φ policy storage fun c (_ : c ∈ t.children) =>
    c.declares_sketch φ policy storage
  rw [symbols, List.map_append, hcs, symbols, kind_sketch, children_sketch]
  cases t.kind with
  | function name returns parameters body => exact congrArg (· ++ _) (moved_parameters parameters)
  | _ => rfl

theorem scopeLogAll_sketch {ts : List Tree}
    (h : ∀ t ∈ ts, ∀ storage before before', bareScope before = bareScope before' →
      (t.scopeLog policy storage before).map (Diagnostic.moved φ) =
      (t.sketch φ).scopeLog policy storage before')
    (storage : Storage) {before before' : List Symbol}
    (hbefore : bareScope before = bareScope before') :
    (scopeLogAll policy storage before ts).map (Diagnostic.moved φ) =
      scopeLogAll policy storage before' (ts.map (sketch φ)) := by
  induction ts generalizing before before' with
  | nil => rfl
  | cons t ts ih =>
    have hnext : bareScope (before ++ t.declares policy storage) =
        bareScope (before' ++ (t.sketch φ).declares policy storage) := by
      rw [bareScope_append, bareScope_append, hbefore, ← declares_sketch, bareScope_moved]
    rw [scopeLogAll, List.map_append, h t List.mem_cons_self storage before before' hbefore,
      ih (fun u hu => h u (List.mem_cons_of_mem t hu)) hnext]
    rfl

theorem scopeLog_sketch (t : Tree) (storage : Storage) (before before' : List Symbol)
    (hbefore : bareScope before = bareScope before') :
    (t.scopeLog policy storage before).map (Diagnostic.moved φ) =
      (t.sketch φ).scopeLog policy storage before' := by
  induction t generalizing storage before before' with
  | node id kind span cs ih =>
    have hcs (storage : Storage) {before before' : List Symbol}
        (hbefore : bareScope before = bareScope before') :=
      scopeLogAll_sketch φ policy ih storage hbefore
    rw [sketch_node]
    cases kind with
    | «variable» name type length =>
      exact moved_variableLog policy storage hbefore name type length span
    | function name returns parameters body =>
      have hscope : bareScope (parameters.map Symbol.ofParameter) =
          bareScope ((parameters.map (Parameter.moved φ)).map .ofParameter) := by
        rw [← moved_parameters, bareScope_moved]
      rw [scopeLog, List.map_append, List.map_append, moved_takenLog hbefore, moved_takenLogAll rfl,
        hcs .frame hscope, moved_parameters]
      simp only [scopeLog, Kind.sketch, List.map_map]
      rfl
    | program | block => exact hcs .frame rfl
    | _ => exact hcs storage hbefore

end Tree

end DecafCheck
