import DecafCheck.Proofs.Analysis.Layout
import DecafCheck.Proofs.Grammar.Declarations
import DecafCheck.Proofs.Typing.Lookup
import DecafCheck.Proofs.Typing.WellFormed

namespace DecafCheck

def Declaration.name : Declaration → String
  | .variable v => v.name
  | .function g => g.name

/-- Among symbols with distinct names, lookups do not depend on their order. -/
theorem declared?_perm {scope scope' : List Symbol} (h : scope.Perm scope')
    (hnames : (scope.map Symbol.name).Nodup) (name : String) :
    declared? scope name = declared? scope' name := by
  have hnames' : (scope'.map Symbol.name).Nodup := (h.map Symbol.name).nodup_iff.mp hnames
  apply Option.ext
  intro s
  rw [declared?_eq_some_iff hnames, declared?_eq_some_iff hnames', h.mem_iff]

/-- What is wrong with a variable by itself. -/
def Variable.objectionLog (policy : Policy) (storage : Storage) (v : Variable) : List Diagnostic :=
  (policy.objection? storage v.name v.type v.length).toList.map fun p => p.on v.span

section Distinct

variable {policy : Policy} {storage : Storage} {before : List Symbol}

theorem Variable.name_of_symbol? {v : Variable} {s : Symbol}
    (hs : v.symbol? policy storage = some s) : s.name = v.name := by
  obtain ⟨-, rfl⟩ := Policy.symbol?_eq_some_iff.mp hs
  rfl

theorem Variable.symbol_names_sublist (vs : List Variable) :
    ((vs.filterMap (symbol? policy storage)).map Symbol.name).Sublist (vs.map name) := by
  induction vs with
  | nil => exact .slnil
  | cons v vs ih =>
    rw [List.filterMap_cons]
    cases hs : v.symbol? policy storage with
    | none => exact ih.cons v.name
    | some s =>
      dsimp only
      rw [List.map_cons, name_of_symbol? hs]
      exact ih.cons_cons v.name

theorem takenLog_eq_nil {s : Symbol} (h : s.name ∉ before.map Symbol.name) :
    takenLog before s = [] :=
  takenLog_eq_nil_iff.mpr (declared?_eq_none_iff.mpr h)

/-- Without a name that is taken, variables are judged one by one. -/
theorem Variable.scopeLogAll_of_nodup {vs : List Variable}
    (h : (before.map Symbol.name ++ vs.map name).Nodup) :
    scopeLogAll policy storage before vs = vs.flatMap (objectionLog policy storage) := by
  induction vs generalizing before with
  | nil => rfl
  | cons v vs ih =>
    have hv : v.name ∉ before.map Symbol.name :=
      fun hmem => (List.nodup_append.mp h).2.2 v.name hmem v.name List.mem_cons_self rfl
    have hone : variableLog policy storage before v.name v.type v.length v.span =
        v.objectionLog policy storage := by
      unfold variableLog objectionLog
      cases policy.objection? storage v.name v.type v.length with
      | some p => rfl
      | none => exact takenLog_eq_nil hv
    -- a variable that is objected to leaves its name free, which can only be of help
    have hrest : ((before ++ (v.symbol? policy storage).toList).map Symbol.name ++
        vs.map name).Nodup := by
      rw [List.map_append, List.append_assoc]
      refine h.sublist (.append_left ?_ _)
      cases hs : v.symbol? policy storage with
      | none => exact List.sublist_cons_self _ _
      | some s =>
        rw [Option.toList_some, List.map_singleton, name_of_symbol? hs]
        exact .refl _
    rw [scopeLogAll, hone, ih hrest, List.flatMap_cons]

theorem Function.scopeLogAll_of_nodup {gs : List Function}
    (h : (before.map Symbol.name ++ gs.map name).Nodup) :
    scopeLogAll policy before gs = gs.flatMap (scopeLog policy) := by
  induction gs generalizing before with
  | nil => rfl
  | cons g gs ih =>
    have hg : g.symbol.name ∉ before.map Symbol.name :=
      fun hmem => (List.nodup_append.mp h).2.2 g.name hmem g.name List.mem_cons_self rfl
    have hrest : ((before ++ [g.symbol]).map Symbol.name ++ gs.map name).Nodup := by
      rw [List.map_append, List.append_assoc]
      exact h
    rw [scopeLogAll, takenLog_eq_nil hg, ih hrest, List.flatMap_cons, List.nil_append]

end Distinct

namespace Program

variable {p q : Program}

/-- The names of a program's variables and functions are those of its declarations. -/
theorem names_perm (p : Program) :
    (p.vars.map Variable.name ++ p.functions.map Function.name).Perm
      (p.declarations.map Declaration.name) := by
  unfold vars functions
  induction p.declarations with
  | nil => exact .nil
  | cons d ds ih =>
    cases d with
    | «variable» v => exact ih.cons v.name
    | function g => exact List.perm_middle.trans (ih.cons g.name)

/-- The names that count are names of declarations. -/
theorem scope_names_sublist (policy : Policy) (p : Program) :
    ((p.scope policy).map Symbol.name).Sublist
      (p.vars.map Variable.name ++ p.functions.map Function.name) := by
  have hfunctions : (p.functions.map Function.symbol).map Symbol.name =
      p.functions.map Function.name := by
    rw [List.map_map]
    rfl
  rw [scope, List.map_append, hfunctions]
  exact (Variable.symbol_names_sublist p.vars).append_right _

/-- Declarations with distinct names are judged one by one. -/
theorem scopeLog_of_nodup (policy : Policy) (h : (p.declarations.map Declaration.name).Nodup) :
    p.scopeLog policy =
      p.vars.flatMap (Variable.objectionLog policy .global) ++
        p.functions.flatMap (Function.scopeLog policy) := by
  have hnames := p.names_perm.nodup_iff.mpr h
  have hvars : (([] : List Symbol).map Symbol.name ++ p.vars.map Variable.name).Nodup :=
    hnames.sublist (List.sublist_append_left _ _)
  have hfunctions : ((p.vars.filterMap (Variable.symbol? policy .global)).map Symbol.name
      ++ p.functions.map Function.name).Nodup :=
    hnames.sublist ((Variable.symbol_names_sublist p.vars).append_right _)
  rw [scopeLog, Variable.scopeLogAll_of_nodup hvars, Function.scopeLogAll_of_nodup hfunctions]

variable (h : p.declarations.Perm q.declarations)

include h

theorem vars_perm : p.vars.Perm q.vars :=
  h.filterMap _

theorem functions_perm : p.functions.Perm q.functions :=
  h.filterMap _

theorem scope_perm (policy : Policy) : (p.scope policy).Perm (q.scope policy) :=
  ((vars_perm h).filterMap _).append ((functions_perm h).map _)

variable (hnames : (p.declarations.map Declaration.name).Nodup)

include hnames

theorem scopes_agree (policy : Policy) : Scopes.Agree [p.scope policy] [q.scope policy] := by
  have hscope := (p.names_perm.nodup_iff.mpr hnames).sublist (p.scope_names_sublist policy)
  exact Scopes.agree_singleton (declared?_perm (scope_perm h policy) hscope)

theorem typeLog_perm (policy : Policy) (hspan : p.span = q.span) :
    (p.typeLog policy).Perm (q.typeLog policy) := by
  have hfunctions := functions_perm h
  have hmains := hfunctions.filterMap Function.main?
  have hlog : Function.log policy [p.scope policy] = Function.log policy [q.scope policy] :=
    funext (Function.log_agree (scopes_agree h hnames policy) policy)
  rw [typeLog, typeLog, hlog, hspan, hmains.isEmpty_eq]
  exact (hfunctions.flatMap_right _).append (hmains.flatten.append_right _)

theorem scopeLog_perm (policy : Policy) : (p.scopeLog policy).Perm (q.scopeLog policy) := by
  rw [scopeLog_of_nodup policy hnames, scopeLog_of_nodup policy ((h.map _).nodup_iff.mp hnames)]
  exact ((vars_perm h).flatMap_right _).append ((functions_perm h).flatMap_right _)

/-- What is reported about a program is reported in some order about every other order of its
declarations. -/
theorem log_perm (policy : Policy) (hspan : p.span = q.span) : (p.log policy).Perm (q.log policy) :=
  (scopeLog_perm h hnames policy).append (typeLog_perm h hnames policy hspan)

end Program

theorem Program.names_bare (p : Program) :
    p.bare.declarations.map Declaration.name = p.declarations.map Declaration.name := by
  rw [bare, List.map_map]
  refine List.map_congr_left fun d _ => ?_
  cases d <;> rfl

/-- Two texts have the same top-level declarations, token for token, in whatever order, and no two
of them have the same name. Then the same is reported about both, in whatever order, and one is
accepted just when the other is. -/
theorem check_order_free {source source' : String} {p q : Program}
    (hp : Program.parse source = .ok p) (hq : Program.parse source' = .ok q)
    (hperm : (p.declarations.map fun d => (Scan.ofString source).tokensIn d.span).Perm
      (q.declarations.map fun d => (Scan.ofString source').tokensIn d.span))
    (hnames : (p.declarations.map Declaration.name).Nodup) (policy : Policy) :
    ∃ a b, check policy source = .ok a ∧ check policy source' = .ok b ∧
      (a.log.map Diagnostic.content).Perm (b.log.map Diagnostic.content) ∧
      (a.isOk = true ↔ b.isOk = true) := by
  have hlog : ((p.log policy).map Diagnostic.content).Perm
      ((q.log policy).map Diagnostic.content) := by
    have hbare := Program.log_perm (Program.bare_perm hp hq hperm)
      (p.names_bare ▸ hnames) policy rfl
    rw [Program.log_bare, Program.log_bare] at hbare
    rw [← Diagnostic.content_moved .forget (p.log policy),
      ← Diagnostic.content_moved .forget (q.log policy)]
    exact hbare.map _
  refine ⟨_, _, Program.check_eq hp policy, Program.check_eq hq policy, hlog, ?_⟩
  -- a text is accepted just if nothing is reported, and that is so in any order
  have hempty := hlog.isEmpty_eq
  rw [List.isEmpty_map, List.isEmpty_map] at hempty
  rw [Analysis.isOk, Analysis.isOk, hempty]

/-- A function before and behind the variable that it uses, along with an array of no elements. -/
theorem check_order_free_forward :
    ∃ p, Program.parse "def int main()\x7breturn x;\x7d int x; bool y[0];" = .ok p ∧
    ∃ q, Program.parse "bool y[0]; int x; def int main()\x7breturn x;\x7d" = .ok q ∧
      (p.declarations.map Declaration.name).Nodup ∧
      ∃ a b, check {} "def int main()\x7breturn x;\x7d int x; bool y[0];" = .ok a ∧
        check {} "bool y[0]; int x; def int main()\x7breturn x;\x7d" = .ok b ∧
        (a.log.map Diagnostic.content).Perm (b.log.map Diagnostic.content) ∧
        (a.isOk = true ↔ b.isOk = true) := by
  have hsame : ((Program.parse "def int main()\x7breturn x;\x7d int x; bool y[0];").toOption.bind
      fun p =>
      (Program.parse "bool y[0]; int x; def int main()\x7breturn x;\x7d").toOption.map fun q =>
        decide ((p.declarations.map fun d =>
            (Scan.ofString "def int main()\x7breturn x;\x7d int x; bool y[0];").tokensIn
              d.span).Perm
          (q.declarations.map fun d =>
            (Scan.ofString "bool y[0]; int x; def int main()\x7breturn x;\x7d").tokensIn d.span) ∧
          (p.declarations.map Declaration.name).Nodup)) = some true := by decide +kernel
  apply exists_ok_of_isSome (by decide +kernel)
  intro p hp
  apply exists_ok_of_isSome (by decide +kernel)
  intro q hq
  rw [hp, hq] at hsame
  obtain ⟨hperm, hnames⟩ := of_decide_eq_true (Option.some.inj hsame)
  exact ⟨hnames, check_order_free hp hq hperm hnames {}⟩

end DecafCheck
