import DecafCheck.Scope.Table
import Mathlib.Data.List.Induction

namespace DecafCheck

/-- The first symbol of a name. -/
def declared? (scope : List Symbol) (name : String) : Option Symbol :=
  scope.find? fun s => s.name == name

/-- The symbols that come first under their names. -/
def firsts (scope : List Symbol) : List Symbol :=
  scope.foldl (fun kept s => if (declared? kept s.name).isSome then kept else kept ++ [s]) []

theorem firsts_concat (scope : List Symbol) (s : Symbol) :
    firsts (scope ++ [s]) =
      if (declared? (firsts scope) s.name).isSome then firsts scope else firsts scope ++ [s] := by
  rw [firsts, List.foldl_append]
  rfl

theorem declared?_append (scope more : List Symbol) (name : String) :
    declared? (scope ++ more) name = (declared? scope name).or (declared? more name) := by
  simp [declared?, List.find?_append]

theorem name_of_declared? {scope : List Symbol} {name : String} {s : Symbol}
    (h : declared? scope name = some s) : s.name = name := by
  simpa using List.find?_some h

/-- Later symbols of a name never count. -/
theorem declared?_firsts (scope : List Symbol) (name : String) :
    declared? (firsts scope) name = declared? scope name := by
  induction scope using List.reverseRecOn with
  | nil => rfl
  | append_singleton scope s ih =>
    rw [firsts_concat, declared?_append, ← ih]
    by_cases hs : (declared? (firsts scope) s.name).isSome
    · rw [if_pos hs]
      by_cases hn : s.name = name
      · subst hn
        rw [Option.or_of_isSome hs]
      · simp [declared?, hn]
    · rw [if_neg hs, declared?_append]

/-- The scopes around a place, the innermost first. -/
abbrev Scopes := List (List Symbol)

namespace Scopes

/-- The symbol that a name means: that of the innermost scope which declares it. -/
def find? (scopes : Scopes) (name : String) : Option Symbol :=
  scopes.findSome? fun scope => declared? scope name

/-- The outermost scope. -/
def globals : Scopes → List Symbol
  | [] => []
  | [scope] => scope
  | _ :: scope :: outer => globals (scope :: outer)

theorem find?_cons (scope : List Symbol) (outer : Scopes) (name : String) :
    find? (scope :: outer) name = (declared? scope name).or (outer.find? name) := by
  rw [find?, List.findSome?_cons]
  cases declared? scope name <;> rfl

theorem globals_cons {outer : Scopes} (h : outer ≠ []) (scope : List Symbol) :
    globals (scope :: outer) = outer.globals := by
  cases outer with
  | nil => exact absurd rfl h
  | cons => rfl

end Scopes

namespace Tables

/-- The table `k` and the ones around it hold the symbols of the scopes. -/
inductive Chain (t : Tables) : Nat → Scopes → Prop
  | outermost {k : Nat} {scope : List Symbol} :
      t.tables[k]? = some ⟨firsts scope, none⟩ → Chain t k [scope]
  | inside {k j : Nat} {scope : List Symbol} {outer : Scopes} :
      t.tables[k]? = some ⟨firsts scope, some j⟩ → j < k → Chain t j outer →
      Chain t k (scope :: outer)

namespace Chain

variable {t : Tables} {k : Nat} {scopes : Scopes}

theorem length_le (h : t.Chain k scopes) : scopes.length ≤ k + 1 := by
  induction h with
  | outermost _ => simp
  | inside _ hj _ ih =>
    simp only [List.length_cons]
    omega

theorem lt_size (h : t.Chain k scopes) : k < t.size := by
  cases h with
  | outermost hk => exact (Array.getElem?_eq_some_iff.mp hk).1
  | inside hk _ _ => exact (Array.getElem?_eq_some_iff.mp hk).1

theorem lookupWithin_eq (h : t.Chain k scopes) (name : String) {steps : Nat}
    (hs : scopes.length ≤ steps) :
    t.lookupWithin name steps k =
      match scopes.find? name with
      | some s => .ok s
      | none => .error (.undeclared name) := by
  induction h generalizing steps with
  | @outermost k scope hk =>
    obtain ⟨steps, rfl⟩ : ∃ m, steps = m + 1 := ⟨steps - 1, by simp at hs; omega⟩
    have hf : Table.find? ⟨firsts scope, none⟩ name = declared? scope name :=
      declared?_firsts scope name
    simp only [lookupWithin, hk, hf, Scopes.find?, List.findSome?_cons, List.findSome?_nil]
    cases declared? scope name <;> rfl
  | @inside k j scope outer hk _ _ ih =>
    obtain ⟨steps, rfl⟩ : ∃ m, steps = m + 1 := ⟨steps - 1, by simp at hs; omega⟩
    have hf : Table.find? ⟨firsts scope, some j⟩ name = declared? scope name :=
      declared?_firsts scope name
    simp only [lookupWithin, hk, hf, Scopes.find?, List.findSome?_cons]
    cases declared? scope name with
    | some s => rfl
    | none => exact ih (by simpa using hs)

/-- Looking a name up in a table is looking it up in the scopes. -/
theorem lookup_eq (h : t.Chain k scopes) (name : String) :
    t.lookup k name =
      match scopes.find? name with
      | some s => .ok s
      | none => .error (.undeclared name) := by
  apply h.lookupWithin_eq name
  have h1 := h.length_le
  have h2 := h.lt_size
  omega

theorem outermostWithin_eq (h : t.Chain k scopes) (steps : Nat) (hs : scopes.length ≤ steps) :
    ∃ g, t.outermostWithin steps k = .ok g ∧ t.tables[g]? = some ⟨firsts scopes.globals, none⟩ := by
  induction h generalizing steps with
  | @outermost k scope hk =>
    obtain ⟨steps, rfl⟩ : ∃ m, steps = m + 1 := ⟨steps - 1, by simp at hs; omega⟩
    refine ⟨k, ?_, hk⟩
    simp [outermostWithin, get, hk, bind, Except.bind, pure, Except.pure]
  | @inside k j scope outer hk _ hc ih =>
    obtain ⟨steps, rfl⟩ : ∃ m, steps = m + 1 := ⟨steps - 1, by simp at hs; omega⟩
    obtain ⟨g, hg, hgl⟩ := ih steps (by simpa using hs)
    refine ⟨g, ?_, ?_⟩
    · simpa [outermostWithin, get, hk, bind, Except.bind] using hg
    · cases hc <;> exact hgl

/-- The table at the outer end holds the globals. -/
theorem outermost_eq (h : t.Chain k scopes) :
    ∃ parent, (t.outermost k >>= t.get) = .ok ⟨firsts scopes.globals, parent⟩ := by
  have h1 := h.length_le
  have h2 := h.lt_size
  obtain ⟨g, hg, hgl⟩ := h.outermostWithin_eq (t.size + 1) (by omega)
  refine ⟨none, ?_⟩
  rw [Tables.outermost, hg]
  simp [get, hgl, bind, Except.bind]

end Chain

end Tables

end DecafCheck
