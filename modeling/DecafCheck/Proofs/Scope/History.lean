import DecafCheck.Proofs.Scope.Build

namespace DecafCheck

namespace Tables

inductive Call
  | openScope (parent : Option TableId)
  | insert (id : TableId) (s : Symbol)

namespace Call

/-- The table around each table, as the calls gave it. -/
def parents (calls : List Call) : List (Option TableId) :=
  calls.filterMap fun
    | openScope parent => some parent
    | insert _ _ => none

/-- The symbols that were offered to a table, one after the other. -/
def offered (calls : List Call) (k : Nat) : List Symbol :=
  calls.filterMap fun
    | openScope _ => none
    | insert id s => if id = k then some s else none

end Call

/-- A call that fails leaves the tables as they are. -/
def perform (t : Tables) : Call → Tables
  | .openScope parent => (t.openScope parent).1
  | .insert id s =>
    match t.insert id s with
    | .ok t' => t'
    | .error _ => t

/-- The call names only tables that are there. -/
def Call.Permitted (t : Tables) : Call → Prop
  | .openScope parent => ∀ p ∈ parent, p < t.size
  | .insert id _ => id < t.size

instance Call.decidablePermitted (t : Tables) : (c : Call) → Decidable (c.Permitted t)
  | .openScope none => .isTrue fun _ hp => absurd hp (Option.not_mem_none _)
  | .openScope (some p) =>
    decidable_of_iff (p < t.size) ⟨fun h _ hp => Option.mem_some.mp hp ▸ h, fun h => h p rfl⟩
  | .insert id _ => inferInstanceAs (Decidable (id < t.size))

/-- Permitted calls, one after the other. -/
inductive Run : Tables → List Call → Tables → Prop
  | done {t : Tables} : Run t [] t
  | call {t t' : Tables} {c : Call} {calls : List Call} : c.Permitted t →
      Run (t.perform c) calls t' → Run t (c :: calls) t'

/-- The symbol of a name in one table alone. -/
def find? (t : Tables) (k : Nat) (name : String) : Option Symbol :=
  t.tables[k]?.bind fun table => table.find? name

def parentOf? (t : Tables) (k : Nat) : Option TableId :=
  t.tables[k]?.bind Table.parent

/-- From table `u` on, parent by parent, one comes to table `k`. -/
inductive Outwards (t : Tables) : Nat → Nat → Prop
  | here {k : Nat} : Outwards t k k
  | further {u p k : Nat} : t.parentOf? u = some p → Outwards t p k → Outwards t u k

/-- From table `u` on, parent by parent, one comes to table `k`, and no table before it holds the
name. -/
inductive Reaches (t : Tables) (name : String) : Nat → Nat → Prop
  | here {k : Nat} : Reaches t name k k
  | further {u p k : Nat} : t.find? u name = none → t.parentOf? u = some p → Reaches t name p k →
      Reaches t name u k

/-- What the calls have made of the tables, and what the next call does to them. -/
structure Accounted (calls : List Call) (t : Tables) : Prop where
  parents : ∀ k < t.size, t.parentOf? k = (Call.parents calls)[k]?.join ∧
    ∀ p, t.parentOf? k = some p → p < k
  outermost : ∀ u < t.size, ∃ r, t.outermost u = .ok r ∧ ∀ k, t.Outwards u k ∧
      t.parentOf? k = none ↔ k = r
  symbols : ∀ k < t.size, ∀ name, t.find? k name = declared? (Call.offered calls k) name
  found : ∀ u < t.size, ∀ name s, t.lookup u name = .ok s ↔ ∃ k, t.Reaches name u k ∧
      t.find? k name = some s
  unknown : ∀ u < t.size, ∀ name, t.lookup u name = .error (.undeclared name) ↔
    ∀ k, t.Outwards u k → t.find? k name = none
  refused : ∀ k < t.size, ∀ s, t.insert k s = .error (.declared s.name) ↔ (t.find? k s.name).isSome
  unchanged : ∀ k s, t.insert k s = .error (.declared s.name) → t.perform (.insert k s) = t
  taken : ∀ k < t.size, ∀ s, t.find? k s.name = none → ∃ t', t.insert k s = .ok t' ∧
      t.perform (.insert k s) = t' ∧
    ∀ u < t.size, (t.Reaches s.name u k → t'.lookup u s.name = .ok s) ∧
      ∀ name, ¬ (name = s.name ∧ t.Reaches s.name u k) → t'.lookup u name = t.lookup u name

namespace Call

variable (calls : List Call)

theorem parents_openScope (parent : Option TableId) :
    parents (calls ++ [.openScope parent]) = parents calls ++ [parent] := by
  simp [parents]

theorem parents_insert (id : TableId) (s : Symbol) :
    parents (calls ++ [.insert id s]) = parents calls := by
  simp [parents]

theorem offered_openScope (parent : Option TableId) (k : Nat) :
    offered (calls ++ [.openScope parent]) k = offered calls k := by
  simp [offered]

theorem offered_insert (id : TableId) (s : Symbol) (k : Nat) :
    offered (calls ++ [.insert id s]) k = offered calls k ++ if id = k then [s] else [] := by
  unfold offered
  rw [List.filterMap_append]
  by_cases h : id = k <;> simp [h]

end Call

/-- One table of a chain after the other. -/
theorem lookupWithin_succ {t : Tables} {u : Nat} (hu : u < t.size) (name : String) (steps : Nat) :
    t.lookupWithin name (steps + 1) u =
      match t.find? u name, t.parentOf? u with
      | some s, _ => .ok s
      | none, some p => t.lookupWithin name steps p
      | none, none => .error (.undeclared name) := by
  have htable : t.tables[u]? = some t.tables[u] := Array.getElem?_eq_getElem hu
  rw [lookupWithin, find?, parentOf?, htable]
  rfl

/-- The tables are determined by the calls. -/
structure Made (calls : List Call) (t : Tables) : Prop where
  size : t.size = (Call.parents calls).length
  table : ∀ k < t.size, t.tables[k]? = some ⟨firsts (Call.offered calls k),
      (Call.parents calls)[k]?.join⟩
  inside : ∀ k p : Nat, (Call.parents calls)[k]?.join = some p → p < k
  beyond : ∀ k, t.size ≤ k → Call.offered calls k = []

namespace Made

variable {calls : List Call} {t : Tables} (h : t.Made calls)

include h

theorem openScope {parent : Option TableId} (hp : ∀ p ∈ parent, p < t.size) :
    (t.perform (.openScope parent)).Made (calls ++ [.openScope parent]) := by
  have hperform : t.perform (.openScope parent) = t.append [⟨[], parent⟩] := by
    rw [perform, openScope_eq]
  rw [hperform]
  constructor
  case size => simp [Call.parents_openScope, h.size]
  case table =>
    intro k hk
    rw [Call.parents_openScope, Call.offered_openScope]
    rcases Nat.lt_or_eq_of_le (Nat.le_of_lt_succ (by simpa using hk)) with hlt | rfl
    · rw [getElem?_append hlt, h.table k hlt, List.getElem?_append_left (h.size ▸ hlt)]
    · rw [h.beyond _ (Nat.le_refl _), h.size, List.getElem?_concat_length, ← h.size]
      simp [append, Tables.size, firsts]
  case inside =>
    intro k p hkp
    rw [Call.parents_openScope] at hkp
    rcases Nat.lt_trichotomy k (Call.parents calls).length with hlt | rfl | hgt
    · rw [List.getElem?_append_left hlt] at hkp
      exact h.inside k p hkp
    · rw [List.getElem?_concat_length] at hkp
      exact h.size ▸ hp p hkp
    · rw [List.getElem?_eq_none (by simp; omega)] at hkp
      cases hkp
  case beyond =>
    intro k hk
    rw [Call.offered_openScope]
    exact h.beyond k (by simp at hk; omega)

/-- A symbol that is offered joins those that came first under their names, if it is one of them. -/
theorem perform_insert {k : Nat} (hk : k < t.size) (s : Symbol) :
    t.perform (.insert k s) = t.put k (firsts (Call.offered calls k ++ [s])) := by
  rw [perform, insert_eq (h.table k hk), firsts_concat, declared?_firsts]
  by_cases hd : (declared? (Call.offered calls k) s.name).isSome
  · rw [if_pos hd, if_pos hd, put_self (h.table k hk)]
  · rw [if_neg hd, if_neg hd]

theorem insert {k : Nat} (hk : k < t.size) (s : Symbol) :
    (t.perform (.insert k s)).Made (calls ++ [.insert k s]) := by
  rw [h.perform_insert hk]
  constructor
  case size => rw [size_put, Call.parents_insert, h.size]
  case table =>
    intro j hj
    rw [size_put] at hj
    rw [Call.parents_insert, Call.offered_insert]
    by_cases hkj : k = j
    · subst hkj
      rw [if_pos rfl, getElem?_put (h.table k hk)]
    · rw [if_neg hkj, List.append_nil, ← h.table j hj]
      simp [put, Array.getElem?_modify, hkj]
  case inside =>
    intro j p hjp
    rw [Call.parents_insert] at hjp
    exact h.inside j p hjp
  case beyond =>
    intro j hj
    rw [size_put] at hj
    have hkj : k ≠ j := by omega
    rw [Call.offered_insert, h.beyond j hj, if_neg hkj]
    rfl

theorem find?_eq {k : Nat} (hk : k < t.size) (name : String) :
    t.find? k name = declared? (Call.offered calls k) name := by
  rw [find?, h.table k hk]
  exact declared?_firsts _ name

theorem parentOf?_eq {k : Nat} (hk : k < t.size) :
    t.parentOf? k = (Call.parents calls)[k]?.join := by
  rw [parentOf?, h.table k hk]
  rfl

theorem lt_of_parentOf? {k p : Nat} (hk : k < t.size) (hp : t.parentOf? k = some p) : p < k :=
  h.inside k p (h.parentOf?_eq hk ▸ hp)

end Made

theorem Made.call {calls : List Call} {t : Tables} (h : t.Made calls) {c : Call}
    (hc : c.Permitted t) :
    (t.perform c).Made (calls ++ [c]) := by
  cases c with
  | openScope parent => exact h.openScope hc
  | insert id s => exact h.insert hc s

theorem Made.run {before calls : List Call} {t t' : Tables} (h : t.Made before)
    (hrun : Run t calls t') :
    t'.Made (before ++ calls) := by
  induction hrun generalizing before with
  | done => rwa [List.append_nil]
  | call hc _ ih =>
    have hrest := ih (h.call hc)
    rwa [List.append_assoc] at hrest

theorem made_start : Made [] {} where
  size := rfl
  table k hk := absurd hk (Nat.not_lt_zero k)
  inside k p hp := by cases hp
  beyond _ _ := rfl

namespace Made

variable {calls : List Call} {t : Tables} (h : t.Made calls)

include h

theorem le_of_outwards {u k : Nat} (hu : u < t.size) (hk : t.Outwards u k) : k ≤ u := by
  induction hk with
  | here => exact Nat.le_refl _
  | @further u p k hp _ ih =>
    have hlt := h.lt_of_parentOf? hu hp
    have hle := ih (by omega)
    omega

omit h in
theorem outwards_of_reaches {name : String} {u k : Nat} (hk : t.Reaches name u k) :
    t.Outwards u k := by
  induction hk with
  | here => exact .here
  | further _ hp _ ih => exact .further hp ih

section Ways

variable {u p k : Nat} {name : String} {s : Symbol}

omit h

theorem outwards_iff_of_root (hp : t.parentOf? u = none) : t.Outwards u k ↔ k = u := by
  constructor
  · intro hk
    cases hk with
    | here => rfl
    | further hp' _ => cases hp.symm.trans hp'
  · rintro rfl
    exact .here

theorem outwards_iff_of_parent (hp : t.parentOf? u = some p) :
    t.Outwards u k ↔ k = u ∨ t.Outwards p k := by
  constructor
  · intro hk
    cases hk with
    | here => exact .inl rfl
    | further hp' hk =>
      obtain rfl := Option.some.inj (hp.symm.trans hp')
      exact .inr hk
  · rintro (rfl | hk)
    · exact .here
    · exact .further hp hk

/-- A name that a table holds is not looked for further out. -/
theorem found_iff_of_held {held : Symbol} (hd : t.find? u name = some held) :
    (∃ k, t.Reaches name u k ∧ t.find? k name = some s) ↔ held = s := by
  constructor
  · rintro ⟨k, hk, hs⟩
    cases hk with
    | here => exact Option.some.inj (hd.symm.trans hs)
    | further hn _ _ => cases hd.symm.trans hn
  · rintro rfl
    exact ⟨u, .here, hd⟩

theorem not_found_of_root (hd : t.find? u name = none) (hp : t.parentOf? u = none) :
    ¬ ∃ k, t.Reaches name u k ∧ t.find? k name = some s := by
  rintro ⟨k, hk, hs⟩
  cases hk with
  | here => cases hd.symm.trans hs
  | further _ hp' _ => cases hp.symm.trans hp'

theorem found_iff_of_parent (hd : t.find? u name = none) (hp : t.parentOf? u = some p) :
    (∃ k, t.Reaches name u k ∧ t.find? k name = some s) ↔
      ∃ k, t.Reaches name p k ∧ t.find? k name = some s := by
  constructor
  · rintro ⟨k, hk, hs⟩
    cases hk with
    | here => cases hd.symm.trans hs
    | further _ hp' hk =>
      obtain rfl := Option.some.inj (hp.symm.trans hp')
      exact ⟨k, hk, hs⟩
  · rintro ⟨k, hk, hs⟩
    exact ⟨k, .further hd hp hk, hs⟩

end Ways

/-- The way outwards ends at one table without a parent. -/
theorem exists_outermost {u : Nat} (hu : u < t.size) :
    ∃ r, ∀ k, t.Outwards u k ∧ t.parentOf? k = none ↔ k = r := by
  -- A table is opened after its parent, so the number of the table goes down on the way.
  induction u using Nat.strongRecOn with
  | ind u ih =>
    cases hp : t.parentOf? u with
    | none =>
      refine ⟨u, fun k => ?_⟩
      rw [outwards_iff_of_root hp]
      exact and_iff_left_of_imp fun hk => hk ▸ hp
    | some p =>
      have hlt := h.lt_of_parentOf? hu hp
      obtain ⟨r, hr⟩ := ih p hlt (Nat.lt_trans hlt hu)
      refine ⟨r, fun k => ?_⟩
      rw [outwards_iff_of_parent hp, ← hr]
      refine and_congr_left fun hnone => or_iff_right ?_
      rintro rfl
      cases hp.symm.trans hnone

theorem outermostWithin_eq {u r : Nat} (hu : u < t.size) (hr : t.Outwards u r)
    (hnone : t.parentOf? r = none) {steps : Nat} (hs : u < steps) :
    t.outermostWithin steps u = .ok r := by
  induction hr generalizing steps with
  | @here k =>
    obtain ⟨steps, rfl⟩ : ∃ m, steps = m + 1 := ⟨steps - 1, by omega⟩
    rw [h.parentOf?_eq hu] at hnone
    simp [outermostWithin, get, h.table k hu, hnone, bind, Except.bind, pure, Except.pure]
  | @further u p k hp _ ih =>
    obtain ⟨steps, rfl⟩ : ∃ m, steps = m + 1 := ⟨steps - 1, by omega⟩
    have hlt := h.lt_of_parentOf? hu hp
    have hsteps : p < steps := by omega
    have hrest := ih (Nat.lt_trans hlt hu) hnone hsteps
    rw [h.parentOf?_eq hu] at hp
    simpa [outermostWithin, get, h.table u hu, hp, bind, Except.bind] using hrest

/-- The scopes from a table on are those of the tables that the way outwards meets. -/
theorem chain {u : Nat} (hu : u < t.size) :
    ∃ scopes : Scopes, t.Chain u scopes ∧ ∀ name,
      (∀ s, scopes.find? name = some s ↔ ∃ k, t.Reaches name u k ∧ t.find? k name = some s) ∧
        (scopes.find? name = none ↔ ∀ k, t.Outwards u k → t.find? k name = none) := by
  induction u using Nat.strongRecOn with
  | ind u ih =>
    have htable := h.table u hu
    rw [← h.parentOf?_eq hu] at htable
    cases hp : t.parentOf? u with
    | none =>
      rw [hp] at htable
      refine ⟨[Call.offered calls u], .outermost htable, fun name => ?_⟩
      rw [Scopes.find?_cons, ← h.find?_eq hu]
      simp only [outwards_iff_of_root hp, forall_eq]
      cases hd : t.find? u name with
      | none => simp [Scopes.find?, not_found_of_root hd hp]
      | some held => simp [found_iff_of_held hd]
    | some p =>
      rw [hp] at htable
      have hlt := h.lt_of_parentOf? hu hp
      obtain ⟨outer, hchain, houter⟩ := ih p hlt (Nat.lt_trans hlt hu)
      refine ⟨Call.offered calls u :: outer, .inside htable hlt hchain, fun name => ?_⟩
      rw [Scopes.find?_cons, ← h.find?_eq hu]
      simp only [outwards_iff_of_parent hp, forall_eq_or_imp]
      cases hd : t.find? u name with
      | none => simpa only [Option.none_or, found_iff_of_parent hd hp, true_and] using houter name
      | some held => simp [found_iff_of_held hd]

theorem lookup_eq_ok_iff {u : Nat} (hu : u < t.size) (name : String) (s : Symbol) :
    t.lookup u name = .ok s ↔ ∃ k, t.Reaches name u k ∧ t.find? k name = some s := by
  obtain ⟨scopes, hchain, hscopes⟩ := h.chain hu
  rw [← (hscopes name).1, hchain.lookup_eq]
  cases scopes.find? name <;> simp

theorem lookup_eq_undeclared_iff {u : Nat} (hu : u < t.size) (name : String) :
    t.lookup u name = .error (.undeclared name) ↔ ∀ k, t.Outwards u k → t.find? k name = none := by
  obtain ⟨scopes, hchain, hscopes⟩ := h.chain hu
  rw [← (hscopes name).2, hchain.lookup_eq]
  cases scopes.find? name <;> simp

/-- An insertion that succeeds changes what one name means in one table alone. -/
theorem find?_perform {k : Nat} (hk : k < t.size) {s : Symbol}
    (hs : t.find? k s.name = none) (j : Nat) (name : String) :
    (t.perform (.insert k s)).find? j name = if k = j ∧ name = s.name then some s else
      t.find? j name := by
  rw [h.find?_eq hk] at hs
  rw [h.perform_insert hk, find?, find?, put, Array.getElem?_modify]
  by_cases hkj : k = j
  · subst hkj
    have hnew : Table.find? ⟨firsts (Call.offered calls k ++ [s]),
        (Call.parents calls)[k]?.join⟩ name = declared? (Call.offered calls k ++ [s]) name :=
        declared?_firsts _ name
    have hold : Table.find? ⟨firsts (Call.offered calls k), (Call.parents calls)[k]?.join⟩ name =
        declared? (Call.offered calls k) name := declared?_firsts _ name
    simp only [↓reduceIte, h.table k hk, Option.map_some, Option.bind_some, hnew, hold,
      declared?_append, true_and]
    by_cases hn : name = s.name
    · subst hn
      rw [hs, Option.none_or, if_pos rfl]
      simp [declared?]
    · simp [hn, declared?, Ne.symm hn]
  · simp [hkj]

theorem parentOf?_perform {k : Nat} (hk : k < t.size) (s : Symbol) (j : Nat) :
    (t.perform (.insert k s)).parentOf? j = t.parentOf? j := by
  rw [h.perform_insert hk, parentOf?, parentOf?, put, Array.getElem?_modify]
  split <;> cases t.tables[j]? <;> rfl

/-- The table that took a symbol is still reached from where it was. -/
theorem reaches_perform {k : Nat} (hk : k < t.size) {s : Symbol}
    (hs : t.find? k s.name = none) {u : Nat} (hu : u < t.size) (hr : t.Reaches s.name u k) :
    (t.perform (.insert k s)).Reaches s.name u k := by
  induction hr with
  | here => exact .here
  | @further u p k hn hp hr ih =>
    have hlt := h.lt_of_parentOf? hu hp
    have hle := h.le_of_outwards (Nat.lt_trans hlt hu) (outwards_of_reaches hr)
    refine .further ?_ ?_ (ih hk hs (Nat.lt_trans hlt hu))
    · rw [h.find?_perform hk hs, if_neg (by omega), hn]
    · rw [h.parentOf?_perform hk, hp]

/-- What does not come to the new symbol is looked up as before. -/
theorem lookupWithin_perform {k : Nat} (hk : k < t.size) {s : Symbol} (hs : t.find? k s.name = none)
    {name : String} {u : Nat} (hu : u < t.size) (hr : ¬ (name = s.name ∧ t.Reaches s.name u k))
    (steps : Nat) :
    (t.perform (.insert k s)).lookupWithin name steps u = t.lookupWithin name steps u := by
  have hsize : (t.perform (.insert k s)).size = t.size := by rw [h.perform_insert hk, size_put]
  induction steps generalizing u with
  | zero => rfl
  | succ steps ih =>
    have hfind : (t.perform (.insert k s)).find? u name = t.find? u name := by
      rw [h.find?_perform hk hs, if_neg]
      rintro ⟨rfl, hn⟩
      exact hr ⟨hn, .here⟩
    rw [lookupWithin_succ (hsize ▸ hu), lookupWithin_succ hu, hfind, h.parentOf?_perform hk]
    cases hn : t.find? u name with
    | some s' => rfl
    | none =>
      cases hp : t.parentOf? u with
      | none => rfl
      | some p =>
        refine ih (Nat.lt_trans (h.lt_of_parentOf? hu hp) hu) ?_
        rintro ⟨rfl, hreach⟩
        exact hr ⟨rfl, .further hn hp hreach⟩

end Made

/-- Whatever scopes are opened and whatever symbols are inserted, the tables are what the calls made
them. -/
theorem run_accounted {calls : List Call} {t : Tables} (h : Run {} calls t) :
    t.Accounted calls := by
  have hmade : t.Made calls := made_start.run h
  constructor
  case parents =>
    intro k hk
    exact ⟨hmade.parentOf?_eq hk, fun p => hmade.lt_of_parentOf? hk⟩
  case outermost =>
    intro u hu
    obtain ⟨r, hr⟩ := hmade.exists_outermost hu
    obtain ⟨hout, hnone⟩ := (hr r).mpr rfl
    exact ⟨r, hmade.outermostWithin_eq hu hout hnone (Nat.lt_succ_of_lt hu), hr⟩
  case symbols => exact fun k hk name => hmade.find?_eq hk name
  case found => exact fun u hu name s => hmade.lookup_eq_ok_iff hu name s
  case unknown => exact fun u hu name => hmade.lookup_eq_undeclared_iff hu name
  case refused =>
    intro k hk s
    rw [insert_eq (hmade.table k hk), hmade.find?_eq hk]
    split <;> simp_all
  case unchanged =>
    intro k s he
    rw [perform, he]
  case taken =>
    intro k hk s hs
    have hok : t.insert k s = .ok (t.perform (.insert k s)) := by
      rw [hmade.perform_insert hk, insert_eq (hmade.table k hk), ← hmade.find?_eq hk, hs]
      rfl
    have hsize : (t.perform (.insert k s)).size = t.size := by
      rw [hmade.perform_insert hk, size_put]
    refine ⟨_, hok, rfl, fun u hu => ⟨fun hr => ?_, fun name hr => ?_⟩⟩
    · rw [(hmade.insert hk s).lookup_eq_ok_iff (hsize ▸ hu)]
      refine ⟨k, hmade.reaches_perform hk hs hu hr, ?_⟩
      rw [hmade.find?_perform hk hs, if_pos ⟨rfl, rfl⟩]
    · rw [lookup, lookup, hsize]
      exact hmade.lookupWithin_perform hk hs hu hr _

/-- A name that is inserted further in, then outside, and then further in once more. -/
theorem run_accounted_shadowing :
    ∃ t, Run {} [.openScope none, .openScope (some 0), .insert 1 ⟨"x", .parameter, .bool, ⟨4, 10⟩⟩,
        .insert 0 ⟨"x", .variable 3 .global, .int, ⟨20, 29⟩⟩,
        .insert 1 ⟨"x", .parameter, .int, ⟨12, 17⟩⟩] t ∧
      t.Accounted [.openScope none, .openScope (some 0),
        .insert 1 ⟨"x", .parameter, .bool, ⟨4, 10⟩⟩,
        .insert 0 ⟨"x", .variable 3 .global, .int, ⟨20, 29⟩⟩,
        .insert 1 ⟨"x", .parameter, .int, ⟨12, 17⟩⟩] ∧
      t.lookup 1 "x" = .ok ⟨"x", .parameter, .bool, ⟨4, 10⟩⟩ ∧ t.outermost 1 = .ok 0 ∧
      t.insert 0 ⟨"x", .function [], .int, ⟨30, 50⟩⟩ = .error (.declared "x") := by
  have hrun : Run {} [.openScope none, .openScope (some 0),
      .insert 1 ⟨"x", .parameter, .bool, ⟨4, 10⟩⟩,
      .insert 0 ⟨"x", .variable 3 .global, .int, ⟨20, 29⟩⟩,
      .insert 1 ⟨"x", .parameter, .int, ⟨12, 17⟩⟩] _ :=
    .call (by decide) (.call (by decide)
      (.call (by decide) (.call (by decide) (.call (by decide) .done))))
  have haccounted := run_accounted hrun
  exact ⟨_, hrun, haccounted, by decide, by decide,
    (haccounted.refused 0 (by decide) _).mpr (by decide)⟩

end Tables

end DecafCheck
