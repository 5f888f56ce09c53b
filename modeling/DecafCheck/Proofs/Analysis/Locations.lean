import DecafCheck.Proofs.Analysis.Check
import DecafCheck.Proofs.Scope.Renaming

namespace DecafCheck

/-- If the symbol is a variable, it has a value type and at least one element. -/
def Symbol.Storable (s : Symbol) : Prop :=
  ∀ length storage, s.kind = .variable length storage → s.type ≠ .void ∧ 0 < length

theorem Policy.storable_of_symbol? {policy : Policy} {storage : Storage} {name : String}
    {type : DataType} {length : Nat} {span : Span} {s : Symbol}
    (h : policy.symbol? storage name type length span = some s) :
    s.Storable := by
  obtain ⟨ho, rfl⟩ := symbol?_eq_some_iff.mp h
  obtain ⟨hv, hl, -⟩ := (policy.objection?_eq_none_iff storage name type length).mp ho
  intro length' storage' hk
  cases hk
  exact ⟨hv, hl⟩

namespace Tree

variable {policy : Policy} {storage : Storage}

theorem storable_of_mem_declares {t : Tree} {s : Symbol} (hs : s ∈ t.declares policy storage) :
    s.Storable := by
  induction t with
  | node id kind span cs ih =>
    have hcs (hs : s ∈ declaresAll policy storage cs) : s.Storable := by
      rw [declaresAll_eq] at hs
      obtain ⟨c, hc, hs⟩ := List.mem_flatMap.mp hs
      exact ih c hc hs
    cases kind with
    | «variable» name type length => exact Policy.storable_of_symbol? (Option.mem_toList.mp hs)
    | function name returns parameters body =>
      obtain rfl := List.mem_singleton.mp hs
      exact fun length storage hk => nomatch hk
    | program | block => exact absurd hs List.not_mem_nil
    | _ => exact hcs hs

theorem storable_of_mem_parameterSymbols {kind : Kind} {s : Symbol}
    (hs : s ∈ kind.parameterSymbols) :
    s.Storable := by
  cases kind with
  | function name returns parameters body =>
    obtain ⟨parameter, -, rfl⟩ := List.mem_map.mp hs
    exact fun length storage hk => nomatch hk
  | _ => exact absurd hs List.not_mem_nil

theorem storable_of_mem_symbols {t : Tree} {s : Symbol} (hs : s ∈ t.symbols policy storage) :
    s.Storable := by
  rcases List.mem_append.mp hs with hs | hs
  · exact storable_of_mem_parameterSymbols hs
  · rw [declaresAll_eq] at hs
    obtain ⟨c, -, hs⟩ := List.mem_flatMap.mp hs
    exact storable_of_mem_declares hs

/-- Whatever a name means, it can be stored if it is a variable. -/
theorem storable_of_find? {above : List Tree} {name : String} {s : Symbol}
    (h : (around policy above).find? name = some s) : s.Storable := by
  induction above with
  | nil => cases h
  | cons x above ih =>
    cases hx : x.kind.opensScope with
    | false =>
      rw [around_plain hx] at h
      exact ih h
    | true =>
      rw [around_scope hx, Scopes.find?_cons, Option.or_eq_some_iff] at h
      rcases h with h | ⟨-, h⟩
      · exact storable_of_mem_symbols (List.mem_of_find?_eq_some h)
      · exact ih h

end Tree

/-- A function has no elements. -/
theorem Symbol.isFunction_of_length {s : Symbol} (h : s.length ≠ 0) : s.isFunction = false := by
  rcases s with ⟨name, _ | _ | _, type, span⟩
  · rfl
  · rfl
  · exact absurd rfl h

theorem Types.lookup_of_is {types : Types} {id : NodeId} {type : DataType}
    (h : (types.get id).is type = true) :
    types.lookup id = some (.known type) := by
  rw [Types.get] at h
  cases hid : types.lookup id with
  | none =>
    rw [hid] at h
    cases h
  | some t =>
    rw [hid, Option.getD_some] at h
    cases t with
    | unknown => cases h
    | known t => rw [eq_of_beq ((InferredType.agrees_known t type).symm.trans h)]

/-- Where an index is not objected to, it is an integer and what it is applied to has elements. -/
theorem Forest.of_indexProblems {f : Forest} {types : Types} {s : Symbol} {span : Span}
    {index : NodeId} (h : f.indexProblems types s span index = []) :
    types.lookup index = some (.known .int) ∧ s.isFunction = false := by
  unfold indexProblems at h
  split at h
  · cases h
  · next hi =>
    rw [Verdict.require] at h
    split at h
    · next hl =>
      rw [Bool.not_eq_true, Bool.not_eq_false'] at hi
      exact ⟨Types.lookup_of_is hi, Symbol.isFunction_of_length (by simpa using hl)⟩
    · cases h

theorem parse_of_check_ok {policy : Policy} {source : String} {a : Analysis}
    (h : check policy source = .ok a) :
    ∃ p, Program.parse source = .ok p := by
  cases hp : Program.parse source with
  | error e => cases (check_of_parse_error hp policy).symm.trans h
  | ok p => exact ⟨p, rfl⟩

/-- What a location of a text without problems stands for. -/
structure Analysis.StandsFor (a : Analysis) (id : NodeId) (name : String) (index : Option NodeId)
    (s : Symbol) :
    Prop where
  resolved : a.forest.resolve id name = some s
  typed : a.types.lookup id = some (.known s.type)
  indexed : ∀ i ∈ index, a.types.lookup i = some (.known .int) ∧ s.isFunction = false
  storable : s.Storable

/-- In a text without problems every location stands for a symbol that is in scope. Where it has an
index, the symbol is a variable or a parameter, and where the symbol is a variable, it has a value
type. -/
theorem locations_resolve {policy : Policy} {source : String} {a : Analysis}
    (h : check policy source = .ok a) (hok : a.isOk = true) {id : NodeId} {name : String}
    {index : Option NodeId} (hk : a.forest.kindOf? id = some (.location name index)) :
    ∃ s, a.StandsFor id name index s := by
  obtain ⟨p, hp⟩ := parse_of_check_ok h
  obtain ⟨types, hchecked, hcheck⟩ := check_of_parse_ok hp policy
  cases h.symm.trans hcheck
  obtain ⟨x, hx, rfl, hkx⟩ := hchecked.carries.of_kindOf? hk
  obtain ⟨above, hpath⟩ := Tree.exists_path hx
  have hlog : ((p.annotated policy).judge types x).log = [] := by
    have hall : p.scopeLog policy ++ p.typeLog policy = [] := List.isEmpty_iff.mp hok
    have htypes := (List.append_eq_nil_iff.mp hall).2
    rw [← hchecked.program, Forest.logs, List.flatMap_eq_nil_iff] at htypes
    exact htypes x hx
  have htype := hchecked.typed.fits x hx
  have hresolve := hchecked.resolve_eq hpath name
  rw [Tree.around_plain (by rw [hkx]; rfl)] at hresolve
  rw [hchecked.judge_location hpath hkx] at hlog htype
  cases hfind : (Tree.around policy above).find? name with
  | none =>
    rw [hfind] at hlog
    cases hlog
  | some s =>
    rw [hfind] at hlog htype hresolve
    refine ⟨s, hresolve, htype, fun i hi => ?_, Tree.storable_of_find? hfind⟩
    exact Forest.of_indexProblems (List.flatMap_eq_nil_iff.mp hlog i (Option.mem_toList.mpr hi))

/-- An element of an array, at an index that is the name of a function. -/
theorem locations_resolve_element :
    ∃ a, check {} "int a[2]; def int main()\x7ba[main] = 3; return a[0];\x7d" = .ok a ∧
      a.isOk = true ∧
      a.forest.kindOf? 2 = some (.location "a" (some 1)) ∧
      a.forest.kindOf? 1 = some (.location "main" none) ∧
      (∃ s, a.StandsFor 2 "a" (some 1) s) ∧ ∃ s, a.StandsFor 1 "main" none s := by
  have hfacts : (check {} "int a[2]; def int main()\x7ba[main] = 3; return a[0];\x7d").toOption.map
      (fun a => (a.isOk, a.forest.kindOf? 2, a.forest.kindOf? 1)) =
        some (true, some (.location "a" (some 1)), some (.location "main" none)) := by
        decide +kernel
  obtain ⟨a, ha, hfacts⟩ := exists_ok_of_map hfacts
  obtain ⟨hok, hkinds⟩ := Prod.mk.inj hfacts
  obtain ⟨htarget, hindex⟩ := Prod.mk.inj hkinds
  exact ⟨a, ha, hok, htarget, hindex, locations_resolve ha hok htarget,
    locations_resolve ha hok hindex⟩

/-- Every location stands for a symbol of some sort. -/
def Analysis.LocationsAre (a : Analysis) (sort : Symbol → Prop) : Prop :=
  ∀ id name index, a.forest.kindOf? id = some (.location name index) →
    ∃ s, a.forest.resolve id name = some s ∧ sort s

/-- Not every location of a text without problems is a cell: it may be a function, and what is no
function may have no value. -/
theorem locations_not_all_cells :
    ¬ (∀ policy source a, check policy source = .ok a → a.isOk = true →
      a.LocationsAre fun s => s.isFunction = false) ∧
    ¬ ∀ policy source a, check policy source = .ok a → a.isOk = true →
      a.LocationsAre fun s => s.isFunction = false → s.type ≠ .void := by
  have hkinds :
      (check {} "def void f(void p)\x7bf = p;\x7d def int main()\x7breturn 0;\x7d").toOption.map
      (fun a => (a.isOk, a.forest.kindOf? 0, a.forest.kindOf? 1)) =
        some (true, some (.location "f" none), some (.location "p" none)) := by decide +kernel
  have hsymbols :
      (check {} "def void f(void p)\x7bf = p;\x7d def int main()\x7breturn 0;\x7d").toOption.map
      (fun a => (a.forest.resolve 0 "f", a.forest.resolve 1 "p")) =
        some (some ⟨"f", .function [.void], .void, ⟨0, 26⟩⟩,
          some ⟨"p", .parameter, .void, ⟨11, 17⟩⟩) := by
    decide +kernel
  obtain ⟨a, ha, hkinds⟩ := exists_ok_of_map hkinds
  rw [ha] at hsymbols
  obtain ⟨hok, hkinds⟩ := Prod.mk.inj hkinds
  obtain ⟨htarget, hvalue⟩ := Prod.mk.inj hkinds
  obtain ⟨hf, hp⟩ := Prod.mk.inj (Option.some.inj hsymbols)
  constructor
  · intro hall
    obtain ⟨s, hs, hcell⟩ := hall _ _ a ha hok 0 "f" none htarget
    cases hf.symm.trans hs
    cases hcell
  · intro hall
    obtain ⟨s, hs, hvalued⟩ := hall _ _ a ha hok 1 "p" none hvalue
    cases hp.symm.trans hs
    exact hvalued rfl rfl

end DecafCheck
