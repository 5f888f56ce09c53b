import DecafCheck.Proofs.Scope.Chain
import DecafCheck.Proofs.Text.ByteOrder
import Mathlib.Data.List.Nodup

namespace DecafCheck

section Firsts

variable {scope : List Symbol}

theorem nodup_firsts (scope : List Symbol) : ((firsts scope).map Symbol.name).Nodup := by
  induction scope using List.reverseRecOn with
  | nil => exact List.nodup_nil
  | append_singleton scope s ih =>
    rw [firsts_concat]
    split
    · exact ih
    · next hs =>
      rw [List.map_append, List.map_singleton, List.nodup_append]
      refine ⟨ih, List.nodup_singleton _, ?_⟩
      rintro name hname _ hlast rfl
      obtain ⟨r, hr, hrs⟩ := List.mem_map.mp hname
      refine hs (List.find?_isSome.mpr ⟨r, hr, ?_⟩)
      rw [hrs, List.mem_singleton.mp hlast, beq_self_eq_true]

/-- Where no name comes twice, the first symbol of a name is the only one. -/
theorem declared?_of_mem (hn : (scope.map Symbol.name).Nodup) {s : Symbol} (hs : s ∈ scope) :
    declared? scope s.name = some s := by
  cases hfound : declared? scope s.name with
  | none => exact absurd hs fun h => by simpa using List.find?_eq_none.mp hfound s h
  | some r =>
    rw [List.inj_on_of_nodup_map hn (List.mem_of_find?_eq_some hfound) hs
      (name_of_declared? hfound)]

theorem mem_firsts {s : Symbol} : s ∈ firsts scope ↔ declared? scope s.name = some s := by
  rw [← declared?_firsts]
  exact ⟨declared?_of_mem (nodup_firsts scope), fun h => List.mem_of_find?_eq_some h⟩

theorem firsts_of_nodup (hn : (scope.map Symbol.name).Nodup) : firsts scope = scope := by
  induction scope using List.reverseRecOn with
  | nil => rfl
  | append_singleton scope s ih =>
    rw [List.map_append, List.map_singleton, List.nodup_append] at hn
    obtain ⟨hscope, -, hlast⟩ := hn
    have hnone : declared? scope s.name = none := by
      refine List.find?_eq_none.mpr fun r hr => ?_
      simpa using hlast r.name (List.mem_map_of_mem hr) s.name (List.mem_singleton_self _)
    rw [firsts_concat, ih hscope, hnone]
    rfl

end Firsts

namespace Symbol

/-- Symbols sorted by name. -/
def byName (values : List Symbol) : List Symbol :=
  values.mergeSort fun a b => decide (a.name ≤ b.name)

variable {values values' : List Symbol}

theorem pairwise_byName (values : List Symbol) :
    (byName values).Pairwise fun a b => a.name ≤ b.name := by
  refine (List.pairwise_mergeSort ?_ ?_ values).imp of_decide_eq_true
  · intro a b c hab hbc
    exact decide_eq_true (String.le_trans (of_decide_eq_true hab) (of_decide_eq_true hbc))
  · intro a b
    simpa using String.le_total a.name b.name

theorem byName_perm (values : List Symbol) : (byName values).Perm values :=
  List.mergeSort_perm _ _

/-- Without ties there is only one way to sort. -/
theorem byName_eq_of_perm (hn : (values.map name).Nodup) (h : values'.Perm values) :
    byName values' = byName values := by
  refine List.Perm.eq_of_pairwise ?_ (pairwise_byName values') (pairwise_byName values)
    ((byName_perm values').trans (h.trans (byName_perm values).symm))
  intro a b ha hb hab hba
  have ha := h.mem_iff.mp ((byName_perm values').mem_iff.mp ha)
  have hb := (byName_perm values).mem_iff.mp hb
  exact List.inj_on_of_nodup_map hn ha hb (String.le_antisymm hab hba)

/-- Strictly ascending by name, in the order of bytes. -/
def Ascending (symbols : List Symbol) : Prop :=
  symbols.Pairwise fun a b => utf8 a.name < utf8 b.name

theorem ascending_byName (hn : (values.map name).Nodup) : Ascending (byName values) := by
  have hnames : ((byName values).map name).Nodup := ((byName_perm values).map name).nodup_iff.mpr hn
  refine List.Pairwise.imp₂ (fun a b hab hne => ?_) (pairwise_byName values)
    (List.pairwise_map.mp hnames)
  exact utf8_lt_iff.mpr (String.not_le.mp fun hba => hne (String.le_antisymm hab hba))

end Symbol

namespace Table

/-- A table to which a symbol has been offered. One that is refused changes nothing. -/
def offer (t : Table) (s : Symbol) : Table :=
  match t.insert s with
  | .ok t' => t'
  | .error _ => t

/-- A new table to which symbols have been offered one after the other. -/
def ofOffered (parent : Option TableId) (offered : List Symbol) : Table :=
  offered.foldl offer ⟨[], parent⟩

theorem offer_eq (kept : List Symbol) (parent : Option TableId) (s : Symbol) :
    offer ⟨kept, parent⟩ s = ⟨if (declared? kept s.name).isSome then kept else kept ++ [s],
      parent⟩ := by
  have hfind : find? ⟨kept, parent⟩ s.name = declared? kept s.name := rfl
  unfold offer insert
  rw [hfind]
  cases declared? kept s.name <;> rfl

theorem ofOffered_eq (parent : Option TableId) (offered : List Symbol) :
    ofOffered parent offered = ⟨firsts offered, parent⟩ := by
  induction offered using List.reverseRecOn with
  | nil => rfl
  | append_singleton offered s ih =>
    have hlast : ofOffered parent (offered ++ [s]) = offer (ofOffered parent offered) s := by
      rw [ofOffered, List.foldl_append]
      rfl
    rw [hlast, ih, offer_eq, firsts_concat]

theorem sorted_eq (t : Table) : t.sorted = Symbol.byName t.symbols := rfl

end Table

end DecafCheck
