import DecafCheck.Proofs.Analysis.Spans

namespace DecafCheck

namespace Span

instance (s t : Span) : Decidable (s.Inside t) :=
  inferInstanceAs (Decidable (_ ∧ _))

/-- What is inside of a span is not inside of a disjoint one. -/
theorem not_inside {s t u : Span} (h : s.Before t ∨ t.Before s) (hu : u.Inside s)
    (hpos : u.start < u.stop) :
    ¬u.Inside t := by
  unfold Before Inside at *
  omega

end Span

/-- The problems reported inside a span. -/
def Log.within (log : Log) (span : Span) : Log :=
  log.filter fun d => d.span.Inside span

theorem Log.within_append (log more : Log) (span : Span) :
    within (log ++ more) span = log.within span ++ more.within span :=
  List.filter_append log more

theorem At.within_eq {places : List Span} {log : Log} {span : Span} (h : At places log)
    (hplaces : ∀ s ∈ places, s.Inside span) : log.within span = log :=
  List.filter_eq_self.mpr fun d hd => decide_eq_true (hplaces d.span (h d hd))

theorem At.within_eq_nil {places : List Span} {log : Log} {span : Span} (h : At places log)
    (hplaces : ∀ s ∈ places, ¬s.Inside span) : log.within span = [] :=
  List.filter_eq_nil_iff.mpr fun d hd hinside => hplaces d.span (h d hd) (of_decide_eq_true hinside)

/-- Trees around one of them. -/
theorem Tree.Each.split {α : Type} {tree : Nat → α → Tree} {as : List α} {ts : List Tree}
    (h : Each tree as ts) {i : Nat} {a : α} (ha : as[i]? = some a) :
    ∃ us n vs, ts = us ++ tree n a :: vs ∧ us.length = i ∧ Each tree (as.take i) us ∧
      Each tree (as.drop (i + 1)) vs := by
  induction h generalizing i with
  | nil => cases ha
  | @cons b t as ts hb hrest ih =>
    cases i with
    | zero =>
      obtain ⟨n, rfl⟩ := hb
      obtain rfl : b = a := Option.some.inj ha
      exact ⟨[], n, ts, rfl, rfl, .nil, hrest⟩
    | succ i =>
      obtain ⟨us, n, vs, rfl, rfl, hus, hvs⟩ := ih ha
      exact ⟨t :: us, n, vs, rfl, rfl, .cons hb hus, hvs⟩

theorem Variable.logs_at (policy : Policy) {vs : List Variable} {ts : List Tree}
    (h : Tree.Each tree vs ts) (before : List Symbol) :
    At (ts.flatMap Tree.places) (scopeLogAll policy .global before vs) := by
  have hspans : ts.map Tree.span = vs.map Variable.span := h.map_eq fun v _ m _ => rfl
  refine (scopeLogAll_at policy .global before vs).mono fun s hs => ?_
  rw [← hspans] at hs
  obtain ⟨t, ht, rfl⟩ := List.mem_map.mp hs
  exact List.mem_flatMap.mpr ⟨t, ht, t.span_mem_places⟩

namespace Function

variable (policy : Policy)

theorem scopeLogAll_append (before : List Symbol) (gs hs : List Function) :
    scopeLogAll policy before (gs ++ hs) =
      scopeLogAll policy before gs ++ scopeLogAll policy (before ++ gs.map symbol) hs := by
  induction gs generalizing before with
  | nil => simp [scopeLogAll]
  | cons g gs ih => simp [scopeLogAll, ih]

theorem main?_at_places {g : Function} {log : List Diagnostic} (h : g.main? = some log) (n : Nat) :
    At (g.tree n).places log := by
  refine (g.main?_at h).mono fun s hs => ?_
  rw [List.mem_singleton.mp hs]
  exact Tree.span_mem_places (g.tree n)

theorem takenLog_at_places (before : List Symbol) (g : Function) (n : Nat) :
    At (g.tree n).places (takenLog before g.symbol) := by
  refine (takenLog_at before g.symbol).mono fun s hs => ?_
  rw [List.mem_singleton.mp hs]
  exact Tree.span_mem_places (g.tree n)

/-- The problems of functions are reported at places of their trees. -/
theorem logs_at {gs : List Function} {ts : List Tree} (h : Tree.Each tree gs ts)
    (before : List Symbol) (scopes : Scopes) :
    At (ts.flatMap Tree.places) (scopeLogAll policy before gs) ∧
      At (ts.flatMap Tree.places) (gs.flatMap (log policy scopes)) ∧
      At (ts.flatMap Tree.places) (gs.filterMap main?).flatten := by
  induction h generalizing before with
  | nil => exact ⟨at_nil, at_nil, at_nil⟩
  | @cons g t gs ts hg _ ih =>
    obtain ⟨n, rfl⟩ := hg
    obtain ⟨hscope, hlog, hmain⟩ := ih (before ++ [g.symbol])
    have hleft : (g.tree n).places ⊆ (g.tree n :: ts).flatMap Tree.places :=
      List.subset_append_left _ _
    have hright : ts.flatMap Tree.places ⊆ (g.tree n :: ts).flatMap Tree.places :=
      List.subset_append_right _ _
    refine ⟨?_, ((g.log_at policy n scopes).mono hleft).append (hlog.mono hright), ?_⟩
    · exact ((takenLog_at_places before g n).mono hleft).append
        (((g.scopeLog_at policy n).mono hleft).append (hscope.mono hright))
    · cases hm : g.main? with
      | none =>
        rw [List.filterMap_cons_none hm]
        exact hmain.mono hright
      | some log =>
        rw [List.filterMap_cons_some hm]
        exact ((main?_at_places hm n).mono hleft).append (hmain.mono hright)

/-- The problems of a function behind the declarations of `before`. -/
def ownLog (before : List Symbol) (scopes : Scopes) (g : Function) : List Diagnostic :=
  (takenLog before g.symbol ++ g.scopeLog policy) ++ (g.log policy scopes ++ g.main?.getD [])

theorem ownLog_at (before : List Symbol) (scopes : Scopes) (g : Function) (n : Nat) :
    At (g.tree n).places (g.ownLog policy before scopes) := by
  refine ((takenLog_at_places before g n).append (g.scopeLog_at policy n)).append
    ((g.log_at policy n scopes).append ?_)
  cases hm : g.main? with
  | none => exact at_nil
  | some log => exact main?_at_places hm n

end Function

namespace Program

/-- What is declared before a function of a program. -/
def scopeBefore (policy : Policy) (p : Program) (i : Nat) : List Symbol :=
  p.vars.filterMap (Variable.symbol? policy .global) ++ (p.functions.take i).map Function.symbol

/-- The problems of one function among those of a program. -/
theorem log_split (policy : Policy) {p : Program} {i : Nat} {g : Function}
    (hg : p.functions[i]? = some g) :
    p.log policy =
      (Variable.scopeLogAll policy .global [] p.vars
        ++ (Function.scopeLogAll policy (p.vars.filterMap (Variable.symbol? policy .global))
          (p.functions.take i)
          ++ (takenLog (p.scopeBefore policy i) g.symbol
            ++ (g.scopeLog policy
              ++ Function.scopeLogAll policy (p.scopeBefore policy i ++ [g.symbol])
                (p.functions.drop (i + 1))))))
      ++ (((p.functions.take i).flatMap (Function.log policy [p.scope policy])
          ++ (g.log policy [p.scope policy]
            ++ (p.functions.drop (i + 1)).flatMap (Function.log policy [p.scope policy])))
        ++ ((((p.functions.take i).filterMap Function.main?).flatten
            ++ (g.main?.getD [] ++ ((p.functions.drop (i + 1)).filterMap Function.main?).flatten))
          ++ Verdict.require (!(p.functions.filterMap Function.main?).isEmpty)
            .missingMain p.span)) := by
  have hsplit : p.functions = p.functions.take i ++ g :: p.functions.drop (i + 1) := by
    obtain ⟨hi, rfl⟩ := List.getElem?_eq_some_iff.mp hg
    rw [List.getElem_cons_drop, List.take_append_drop]
  have hscope (before : List Symbol) : Function.scopeLogAll policy before p.functions =
      Function.scopeLogAll policy before (p.functions.take i)
        ++ Function.scopeLogAll policy (before ++ (p.functions.take i).map Function.symbol)
          (g :: p.functions.drop (i + 1)) := by
    rw [← Function.scopeLogAll_append, ← hsplit]
  have hlog : p.functions.flatMap (Function.log policy [p.scope policy]) =
      (p.functions.take i).flatMap (Function.log policy [p.scope policy])
        ++ (g :: p.functions.drop (i + 1)).flatMap (Function.log policy [p.scope policy]) := by
    rw [← List.flatMap_append, ← hsplit]
  have hmain : (p.functions.filterMap Function.main?).flatten =
      ((p.functions.take i).filterMap Function.main?).flatten
        ++ (g.main?.getD [] ++ ((p.functions.drop (i + 1)).filterMap Function.main?).flatten) := by
    have hhead : ((g :: p.functions.drop (i + 1)).filterMap Function.main?).flatten =
        g.main?.getD [] ++ ((p.functions.drop (i + 1)).filterMap Function.main?).flatten := by
      rw [List.filterMap_cons]
      cases g.main? <;> rfl
    rw [← hhead, ← List.flatten_append, ← List.filterMap_append, ← hsplit]
  rw [log, scopeLog, typeLog, hmain, hlog, hscope, List.flatMap_cons]
  rfl

/-- The trees of the other declarations. -/
theorem others_of_split {p : Program} {us vs : List Tree} {t : Tree}
    (htrees : Declaration.functionTrees 0 p.declarations = us ++ t :: vs) :
    t ∈ p.tree.children ∧ ∀ c ∈ Declaration.variableTrees 0 p.declarations ++ us ++ vs,
      c ∈ p.tree.children ∧ c.id ≠ t.id := by
  have hchildren :
      p.tree.children = Declaration.variableTrees 0 p.declarations ++ us ++ t :: vs := by
    rw [List.append_assoc, ← htrees]
    rfl
  have hids : (p.tree.children.map Tree.id).Nodup :=
    ((Declaration.trees_perm 0 p.declarations).map Tree.id).nodup_iff.mpr
      (p.ascending_row.imp Nat.ne_of_lt)
  rw [hchildren, List.map_append, List.map_cons, List.nodup_middle, ← List.map_append,
    List.nodup_cons] at hids
  rw [hchildren]
  refine ⟨List.mem_append_right _ List.mem_cons_self, fun c hc => ⟨?_, fun hid => ?_⟩⟩
  · rcases List.mem_append.mp hc with hc | hc
    · exact List.mem_append_left _ hc
    · exact List.mem_append_right _ (List.mem_cons_of_mem t hc)
  · exact hids.1 (hid ▸ List.mem_map_of_mem hc)

end Program

namespace Program.Placed

variable {length : Nat} {ls : List Lexeme} {p : Program} (h : p.Placed length ls)

include h

theorem outside {ts : List Tree} {d : Tree} (hts : ∀ c ∈ ts, c ∈ p.tree.children ∧ c.id ≠ d.id)
    (hd : d ∈ p.tree.children) : ∀ s ∈ ts.flatMap Tree.places, ¬s.Inside d.span := by
  intro s hs
  obtain ⟨c, hc, hs⟩ := List.mem_flatMap.mp hs
  obtain ⟨hchild, hne⟩ := hts c hc
  obtain ⟨hinside, hpos⟩ := Tree.inside_of_place h.ordered (h.spread_declaration hchild) hs
  refine Span.not_inside ?_ hinside hpos
  rcases Nat.lt_or_gt_of_ne hne with hlt | hlt
  · exact .inl (h.before_of_lt hchild hd hlt)
  · exact .inr (h.before_of_lt hd hchild hlt)

/-- A function that is not alone does not reach over the whole program. -/
theorem program_outside {c d : Tree} (hc : c ∈ p.tree.children) (hd : d ∈ p.tree.children)
    (hne : c.id ≠ d.id) :
    ¬p.span.Inside d.span := by
  intro hinside
  have hc' : ∀ e ∈ [c], e ∈ p.tree.children ∧ e.id ≠ d.id := List.forall_mem_singleton.mpr ⟨hc, hne⟩
  have hout := h.outside hc' hd c.span
  rw [List.flatMap_singleton] at hout
  exact hout c.span_mem_places ((h.child_inside hc).trans hinside)

/-- What is reported inside the span of a function, if there are others. -/
theorem within_function (policy : Policy) {i : Nat} {g : Function} (hg : p.functions[i]? = some g)
    (hmany : 1 < p.functions.length) :
    Log.within (p.log policy) g.span =
      g.ownLog policy (p.scopeBefore policy i) [p.scope policy] := by
  obtain ⟨us, n, vs, htrees, -, hus, hvs⟩ := p.each_functions.split hg
  obtain ⟨hchild, hothers⟩ := others_of_split htrees
  have hout {ts : List Tree} {log : Log} (hat : At (ts.flatMap Tree.places) log)
      (hts : ts ⊆ Declaration.variableTrees 0 p.declarations ++ us ++ vs) :
      log.within g.span = [] :=
    hat.within_eq_nil (h.outside (fun c hc => hothers c (hts hc)) hchild)
  have hleft : us ⊆ Declaration.variableTrees 0 p.declarations ++ us ++ vs := by simp
  have hright : vs ⊆ Declaration.variableTrees 0 p.declarations ++ us ++ vs := by simp
  have hmissing : Log.within
      (Verdict.require (!(p.functions.filterMap Function.main?).isEmpty) .missingMain p.span)
      g.span = [] := by
    have hother : us ++ vs ≠ [] := by
      intro hnil
      have hall := p.each_functions.length_eq
      rw [htrees, List.length_append, List.length_cons] at hall
      have hnone := congrArg List.length hnil
      rw [List.length_append, List.length_nil] at hnone
      omega
    obtain ⟨c, hc⟩ := List.exists_mem_of_ne_nil _ hother
    obtain ⟨hcchild, hid⟩ := hothers c
      ((List.mem_append.mp hc).elim (fun hc => hleft hc) fun hc => hright hc)
    refine At.within_eq_nil (at_require (List.mem_singleton_self p.span))
      (List.forall_mem_singleton.mpr ?_)
    exact h.program_outside hcchild hchild hid
  obtain ⟨hscope, hlog, hmain⟩ :=
    Function.logs_at policy hus (p.vars.filterMap (Variable.symbol? policy .global))
    [p.scope policy]
  obtain ⟨hscope', hlog', hmain'⟩ :=
    Function.logs_at policy hvs (p.scopeBefore policy i ++ [g.symbol]) [p.scope policy]
  have hown := (g.ownLog_at policy (p.scopeBefore policy i) [p.scope policy] n).within_eq
    fun s hs =>
    (Tree.inside_of_place h.ordered (h.spread_declaration hchild) hs).1
  rw [log_split policy hg]
  simp only [Log.within_append, hout (Variable.logs_at policy p.each_vars []) (by simp),
    hout hscope hleft, hout hscope' hright, hout hlog hleft, hout hlog' hright, hout hmain hleft,
    hout hmain' hright, hmissing, List.nil_append, List.append_nil]
  simp only [Function.ownLog, Log.within_append] at hown
  exact hown

end Program.Placed

end DecafCheck
