import DecafCheck.Proofs.Analysis.Check
import DecafCheck.Proofs.Tree.Spread

namespace DecafCheck

namespace Tree

/-- The spans of the nodes of a tree and of their parameters. -/
def places (t : Tree) : List Span :=
  t.subtrees.flatMap fun x => x.span :: x.kind.parameterSymbols.map Symbol.span

theorem span_mem_places (t : Tree) : t.span ∈ t.places :=
  List.mem_flatMap.mpr ⟨t, t.self_mem_subtrees, List.mem_cons_self⟩

theorem parameter_mem_places {t : Tree} {s : Symbol} (hs : s ∈ t.kind.parameterSymbols) :
    s.span ∈ t.places :=
  List.mem_flatMap.mpr ⟨t, t.self_mem_subtrees, List.mem_cons_of_mem _ (List.mem_map_of_mem hs)⟩

theorem places_of_child {t c : Tree} (hc : c ∈ t.children) : c.places ⊆ t.places := by
  intro s hs
  obtain ⟨x, hx, hs⟩ := List.mem_flatMap.mp hs
  exact List.mem_flatMap.mpr ⟨x, mem_subtrees_of_child hc hx, hs⟩

theorem places_of_second {t b c : Tree} {cs : List Tree} (h : t.children = b :: c :: cs) :
    c.places ⊆ t.places :=
  places_of_child (h ▸ List.mem_cons_of_mem b List.mem_cons_self)

theorem places_of_third {t b c d : Tree} {cs : List Tree} (h : t.children = b :: c :: d :: cs) :
    d.places ⊆ t.places :=
  places_of_child (h ▸ List.mem_cons_of_mem b (List.mem_cons_of_mem c List.mem_cons_self))

theorem exists_mem_row {α : Type} {tree : Nat → α → Tree} {x : α} {xs : List α}
    (hx : x ∈ xs) (n : Nat) :
    ∃ m, tree m x ∈ row tree n xs := by
  induction xs generalizing n with
  | nil => exact absurd hx List.not_mem_nil
  | cons y ys ih =>
    rcases List.mem_cons.mp hx with rfl | hx
    · exact ⟨n, List.mem_cons_self⟩
    · obtain ⟨m, hm⟩ := ih hx _
      exact ⟨m, List.mem_cons_of_mem _ hm⟩

/-- The places in a tree that is spread over lexemes are inside its span. -/
theorem inside_of_place {ls : List Lexeme} (h : Lexeme.Ordered ls) {t : Tree}
    (ht : ∀ x ∈ t.subtrees, x.Spread ls) {s : Span} (hs : s ∈ t.places) : s.Inside t.span ∧
      s.start < s.stop := by
  obtain ⟨x, hx, hs⟩ := List.mem_flatMap.mp hs
  have hinside := inside_of_subtree h ht hx
  rcases List.mem_cons.mp hs with rfl | hs
  · exact ⟨hinside, (ht x hx).nonempty h⟩
  · obtain ⟨hpart, hpos, -⟩ := (ht x hx).part h (List.mem_append_left _ hs)
    exact ⟨hpart.trans hinside, hpos⟩

end Tree

/-- All problems are reported at some of the places. -/
def At (places : List Span) (log : List Diagnostic) : Prop :=
  ∀ d ∈ log, d.span ∈ places

section At

variable {places more : List Span} {log log' : List Diagnostic}

theorem at_nil : At places [] :=
  List.forall_mem_nil _

theorem at_one {p : Problem} {span : Span} (h : span ∈ places) : At places [p.on span] :=
  List.forall_mem_singleton.mpr h

theorem At.append (h : At places log) (h' : At places log') : At places (log ++ log') :=
  List.forall_mem_append.mpr ⟨h, h'⟩

theorem At.mono (h : At places log) (hsub : places ⊆ more) : At more log :=
  fun d hd => hsub (h d hd)

theorem at_flatMap {α : Type} {xs : List α} {f : α → List Diagnostic}
    (h : ∀ x ∈ xs, At places (f x)) :
    At places (xs.flatMap f) := by
  intro d hd
  obtain ⟨x, hx, hd⟩ := List.mem_flatMap.mp hd
  exact h x hx d hd

theorem at_require {condition : Bool} {p : Problem} {span : Span} (h : span ∈ places) :
    At places (Verdict.require condition p span) := by
  unfold Verdict.require
  split
  · exact at_nil
  · exact at_one h

end At

theorem takenLog_at (before : List Symbol) (s : Symbol) : At [s.span] (takenLog before s) := by
  unfold takenLog
  split
  · exact at_one (List.mem_singleton_self _)
  · exact at_nil

theorem takenLogAll_at (before symbols : List Symbol) :
    At (symbols.map Symbol.span) (takenLogAll before symbols) := by
  induction symbols generalizing before with
  | nil => exact at_nil
  | cons s rest ih =>
    refine At.append ((takenLog_at before s).mono ?_) ((ih _).mono (List.subset_cons_self _ _))
    simp

theorem variableLog_at (policy : Policy) (storage : Storage) (before : List Symbol) (name : String)
    (type : DataType) (length : Nat) (span : Span) :
    At [span] (variableLog policy storage before name type length span) := by
  unfold variableLog
  split
  · exact at_one (List.mem_singleton_self _)
  · exact takenLog_at before _

theorem Variable.scopeLogAll_at (policy : Policy) (storage : Storage) (before : List Symbol)
    (vs : List Variable) :
    At (vs.map Variable.span) (scopeLogAll policy storage before vs) := by
  induction vs generalizing before with
  | nil => exact at_nil
  | cons v vs ih =>
    refine At.append ((variableLog_at policy storage before v.name v.type v.length v.span).mono ?_)
      ((ih _).mono (List.subset_cons_self _ _))
    simp

namespace Expr

variable {places : List Span}

theorem argumentLog_at {name : String} {position : Nat} {arguments : List (InferredType × Span)}
    {parameters : List DataType} (h : ∀ a ∈ arguments, a.2 ∈ places) :
    At places (argumentLog name position arguments parameters) := by
  induction arguments generalizing position parameters with
  | nil => exact at_nil
  | cons a as ih =>
    obtain ⟨ha, has⟩ := List.forall_mem_cons.mp h
    cases parameters with
    | nil => exact at_nil
    | cons p ps => exact (at_require ha).append (ih has)

theorem callLog_at {scopes : Scopes} {name : String} {arguments : List Expr} {span : Span}
    (hspan : span ∈ places) (h : ∀ a ∈ arguments, a.span ∈ places) :
    At places (callLog scopes name arguments span) := by
  unfold callLog
  split
  · exact at_one hspan
  · split
    · refine (at_require hspan).append (argumentLog_at ?_)
      intro a ha
      obtain ⟨e, he, rfl⟩ := List.mem_map.mp ha
      exact h e he
    · exact at_one hspan

theorem locationLog_at {scopes : Scopes} {name : String} {index : Option Expr} {span : Span}
    (hspan : span ∈ places) (h : ∀ i ∈ index, i.span ∈ places) :
    At places (locationLog scopes name index span) := by
  unfold locationLog
  split
  · exact at_one hspan
  · refine at_flatMap fun a ha => ?_
    obtain ⟨i, hi, rfl⟩ := List.mem_map.mp ha
    unfold indexLog
    split
    · exact at_one (h i (Option.mem_toList.mp hi))
    · exact at_require hspan

theorem span_mem_places {e : Expr} {n : Nat} {t : Tree} (hc : e.tree n ∈ t.children) :
    e.span ∈ t.places := by
  rw [← e.span_tree n]
  exact Tree.places_of_child hc (Tree.span_mem_places _)

theorem log_at (scopes : Scopes) (e : Expr) (n : Nat) : At (e.tree n).places (e.log scopes) := by
  induction e generalizing n with
  | literal value span => exact at_nil
  | location name index span ih =>
    have hrow {i : Expr} (hi : i ∈ index) :
        ∃ m, i.tree m ∈ ((location name index span).tree n).children := by
      rw [tree_location]
      exact Tree.exists_mem_row (Option.mem_toList.mpr hi) n
    rw [log_location]
    refine At.append (at_flatMap fun i hi => ?_) (locationLog_at ?_ fun i hi => ?_)
    · obtain ⟨m, hm⟩ := hrow (Option.mem_toList.mp hi)
      exact (ih i (Option.mem_toList.mp hi) m).mono (Tree.places_of_child hm)
    · rw [tree_location]
      exact Tree.span_mem_places _
    · obtain ⟨m, hm⟩ := hrow hi
      exact span_mem_places hm
  | call name arguments span ih =>
    have hrow {a : Expr} (ha : a ∈ arguments) :
        ∃ m, a.tree m ∈ ((call name arguments span).tree n).children := by
      rw [tree_call]
      exact Tree.exists_mem_row ha n
    rw [log, logAll_eq]
    refine At.append (at_flatMap fun a ha => ?_) (callLog_at ?_ fun a ha => ?_)
    · obtain ⟨m, hm⟩ := hrow ha
      exact (ih a ha m).mono (Tree.places_of_child hm)
    · exact Tree.span_mem_places ((call name arguments span).tree n)
    · obtain ⟨m, hm⟩ := hrow ha
      exact span_mem_places hm
  | unary op operand span ih =>
    exact At.append ((ih n).mono (Tree.places_of_child List.mem_cons_self))
      (at_require (Tree.span_mem_places _))
  | binary op left right span ihl ihr =>
    refine ((ihl n).mono (Tree.places_of_child List.mem_cons_self)).append
      (((ihr _).mono (Tree.places_of_second rfl)).append ?_)
    unfold Verdict.ofBinary
    split
    · exact at_nil
    · exact at_one (Tree.span_mem_places _)

end Expr

theorem Block.child_of_statement {b : Block} {s : Stmt} (hs : s ∈ b.statements) (n : Nat) :
    ∃ m, s.tree m ∈ (b.tree n).children := by
  obtain ⟨vars, statements, span⟩ := b
  obtain ⟨m, hm⟩ := Tree.exists_mem_row hs (Tree.after n (Tree.row Variable.tree n vars))
  rw [Block.tree_mk]
  exact ⟨m, List.mem_append_right _ hm⟩

theorem Block.child_of_variable {b : Block} {v : Variable} (hv : v ∈ b.vars) (n : Nat) :
    ∃ m, v.tree m ∈ (b.tree n).children := by
  obtain ⟨vars, statements, span⟩ := b
  obtain ⟨m, hm⟩ := Tree.exists_mem_row hv n
  rw [Block.tree_mk]
  exact ⟨m, List.mem_append_left _ hm⟩

/-- What is wrong with one of the statements of a block is reported in the block. -/
theorem Block.at_statements {b : Block} {f : Stmt → List Diagnostic} {n : Nat}
    (h : ∀ s ∈ b.statements, ∀ m, At (s.tree m).places (f s)) :
    At (b.tree n).places (b.statements.flatMap f) := by
  refine at_flatMap fun s hs => ?_
  obtain ⟨m, hm⟩ := b.child_of_statement hs n
  exact (h s hs m).mono (Tree.places_of_child hm)

theorem Stmt.log_at_and (policy : Policy) :
    (∀ (s : Stmt) (scopes : Scopes) (inLoop : Bool) (n : Nat),
      At (s.tree n).places (s.log policy scopes inLoop)) ∧
    ∀ (b : Block) (scopes : Scopes) (inLoop : Bool) (n : Nat), At (b.tree n).places
      (b.log policy scopes inLoop) := by
  apply Stmt.induct
  case assign =>
    intro name index target value span scopes inLoop n
    exact (((Expr.location name index target).log_at scopes n).mono
      (Tree.places_of_child List.mem_cons_self)).append
      (((value.log_at scopes _).mono (Tree.places_of_second rfl)).append
        (at_require (Tree.span_mem_places _)))
  case call =>
    intro name arguments span scopes inLoop n
    have hrow {a : Expr} (ha : a ∈ arguments) :
        ∃ m, a.tree m ∈ ((Stmt.call name arguments span).tree n).children :=
      Tree.exists_mem_row ha n
    rw [Stmt.log, Expr.logAll_eq]
    refine At.append (at_flatMap fun a ha => ?_) (Expr.callLog_at ?_ fun a ha => ?_)
    · obtain ⟨m, hm⟩ := hrow ha
      exact (a.log_at scopes m).mono (Tree.places_of_child hm)
    · exact Tree.span_mem_places ((Stmt.call name arguments span).tree n)
    · obtain ⟨m, hm⟩ := hrow ha
      exact Expr.span_mem_places hm
  case branch =>
    intro condition yes no span hyes hno scopes inLoop n
    have hcondition : condition.tree n ∈ ((Stmt.branch condition yes no span).tree n).children := by
      cases no <;> exact List.mem_cons_self
    have hlog := (condition.log_at scopes n).mono (Tree.places_of_child hcondition)
    have htest : At ((Stmt.branch condition yes no span).tree n).places
        (condition.testLog scopes .condition) :=
      at_require (Expr.span_mem_places hcondition)
    cases no with
    | none =>
      exact hlog.append (((hyes scopes false _).mono (Tree.places_of_second rfl)).append htest)
    | some no =>
      exact hlog.append (((hyes scopes false _).mono (Tree.places_of_second rfl)).append
        (((hno no rfl scopes false _).mono (Tree.places_of_third rfl)).append htest))
  case loop =>
    intro guard body span hbody scopes inLoop n
    have hguard : guard.tree n ∈ ((Stmt.loop guard body span).tree n).children := List.mem_cons_self
    exact ((guard.log_at scopes n).mono (Tree.places_of_child hguard)).append
      (((hbody scopes true _).mono (Tree.places_of_second rfl)).append
        (at_require (Expr.span_mem_places hguard)))
  case ret =>
    intro value span scopes inLoop n
    refine at_flatMap fun e he => ?_
    have hrow : ∃ m, e.tree m ∈ ((Stmt.ret value span).tree n).children := Tree.exists_mem_row he n
    obtain ⟨m, hm⟩ := hrow
    exact (e.log_at scopes m).mono (Tree.places_of_child hm)
  case jump =>
    intro j span scopes inLoop n
    exact at_require (Tree.span_mem_places _)
  case mk =>
    intro vars statements span ih scopes inLoop n
    rw [Block.log_eq]
    exact Block.at_statements fun s hs m => ih s hs _ _ m

theorem Block.at_variables (policy : Policy) (b : Block) (n : Nat) :
    At (b.tree n).places (Variable.scopeLogAll policy .frame [] b.vars) := by
  refine (Variable.scopeLogAll_at policy .frame [] b.vars).mono fun s hs => ?_
  obtain ⟨v, hv, rfl⟩ := List.mem_map.mp hs
  obtain ⟨m, hm⟩ := b.child_of_variable hv n
  exact Tree.places_of_child hm (Tree.span_mem_places _)

theorem Stmt.scopeLog_at_and (policy : Policy) :
    (∀ (s : Stmt) (n : Nat), At (s.tree n).places (s.scopeLog policy)) ∧
    ∀ (b : Block) (n : Nat), At (b.tree n).places (b.scopeLog policy) := by
  apply Stmt.induct
  case assign => exact fun name index target value span n => at_nil
  case call => exact fun name arguments span n => at_nil
  case branch =>
    intro condition yes no span hyes hno n
    cases no with
    | none => exact (hyes _).mono (Tree.places_of_second rfl)
    | some no =>
      exact ((hyes _).mono (Tree.places_of_second rfl)).append
        ((hno no rfl _).mono (Tree.places_of_third rfl))
  case loop =>
    intro guard body span hbody n
    exact (hbody _).mono (Tree.places_of_second rfl)
  case ret => exact fun value span n => at_nil
  case jump => exact fun j span n => at_nil
  case mk =>
    intro vars statements span ih n
    rw [Block.scopeLog_eq]
    exact (Block.at_variables policy _ n).append (Block.at_statements ih)

namespace Function

variable (policy : Policy) (g : Function) (n : Nat)

theorem body_mem_children : g.body.tree n ∈ (g.tree n).children :=
  List.mem_singleton_self _

theorem scopeLog_at : At (g.tree n).places (g.scopeLog policy) := by
  refine At.append ((takenLogAll_at [] g.scope).mono fun s hs => ?_)
    (((Stmt.scopeLog_at_and policy).2 g.body n).mono (Tree.places_of_child (g.body_mem_children n)))
  obtain ⟨p, hp, rfl⟩ := List.mem_map.mp hs
  exact Tree.parameter_mem_places (t := g.tree n) hp

theorem returnLog_at {places : List Span} {name : String} {returns : DataType}
    {value : Option InferredType} {span : Span} (h : span ∈ places) :
    At places (returnLog name returns value span) := by
  unfold returnLog
  split
  · exact at_one h
  · exact at_nil
  · exact at_require h

theorem returnsLog_at {places : List Span} {name : String} {returns : DataType}
    {returned : List (Option InferredType × Span)} (h : ∀ r ∈ returned, r.2 ∈ places) :
    At places (returnsLog name returns returned) := by
  cases returned with
  | nil => exact at_nil
  | cons r rest =>
    obtain ⟨hr, hrest⟩ := List.forall_mem_cons.mp h
    refine At.append (returnLog_at hr) (at_flatMap fun q hq => ?_)
    exact List.forall_mem_cons.mpr ⟨hrest q hq, returnLog_at (hrest q hq)⟩

theorem returned_at (scopes : Scopes) :
    ∀ r ∈ g.returned policy scopes, r.2 ∈ (g.tree n).places := by
  intro r hr
  obtain ⟨s, hs, hr⟩ := List.mem_filterMap.mp hr
  obtain ⟨m, hm⟩ := g.body.child_of_statement hs n
  have hspan : r.2 = (s.tree m).span := by
    cases s <;> cases hr
    rfl
  rw [hspan]
  exact Tree.places_of_child (g.body_mem_children n)
    (Tree.places_of_child hm (Tree.span_mem_places _))

theorem log_at (scopes : Scopes) : At (g.tree n).places (g.log policy scopes) := by
  have hbody := ((Stmt.log_at_and policy).2 g.body (g.scope :: scopes) false n).mono
    (Tree.places_of_child (g.body_mem_children n))
  exact hbody.append ((at_require (Tree.span_mem_places _)).append
    (returnsLog_at (g.returned_at policy n scopes)))

theorem main?_at {log : List Diagnostic} (h : g.main? = some log) : At [g.span] log := by
  unfold main? at h
  split at h
  · cases h
    exact (at_require (List.mem_singleton_self _)).append (at_require (List.mem_singleton_self _))
  · cases h

end Function

namespace Program

variable (policy : Policy) (p : Program)

theorem child_of_declaration {d : Declaration} (hd : d ∈ p.declarations) :
    ∃ m, d.tree m ∈ p.tree.children := by
  have hrow : ∃ m, d.tree m ∈ Tree.row Declaration.tree 0 p.declarations := Tree.exists_mem_row hd 0
  obtain ⟨m, hm⟩ := hrow
  exact ⟨m, (Declaration.trees_perm 0 p.declarations).mem_iff.mpr hm⟩

theorem places_of_variable {v : Variable} (hv : v ∈ p.vars) : v.span ∈ p.tree.places := by
  obtain ⟨m, hm⟩ := p.child_of_declaration (p.mem_vars.mp hv)
  exact Tree.places_of_child hm (Tree.span_mem_places _)

theorem places_of_function {g : Function} (hg : g ∈ p.functions) :
    ∃ m, (g.tree m).places ⊆ p.tree.places ∧ [g.span] ⊆ p.tree.places := by
  obtain ⟨m, hm⟩ := p.child_of_declaration (p.mem_functions.mp hg)
  have hsub := Tree.places_of_child hm
  have hspan : g.span ∈ (g.tree m).places := Tree.span_mem_places (g.tree m)
  exact ⟨m, hsub, by simpa using hsub hspan⟩

theorem scopeLogAll_at (before : List Symbol) {gs : List Function} (h : ∀ g ∈ gs, g ∈ p.functions) :
    At p.tree.places (Function.scopeLogAll policy before gs) := by
  induction gs generalizing before with
  | nil => exact at_nil
  | cons g gs ih =>
    obtain ⟨hg, hgs⟩ := List.forall_mem_cons.mp h
    obtain ⟨m, hm, hspan⟩ := p.places_of_function hg
    exact ((takenLog_at before g.symbol).mono hspan).append
      (((g.scopeLog_at policy m).mono hm).append (ih _ hgs))

/-- Every problem with a program is reported at a node of its tree or at a parameter. -/
theorem log_at : At p.tree.places (p.log policy) := by
  have hvariables : At p.tree.places (Variable.scopeLogAll policy .global [] p.vars) := by
    refine (Variable.scopeLogAll_at policy .global [] p.vars).mono fun s hs => ?_
    obtain ⟨v, hv, rfl⟩ := List.mem_map.mp hs
    exact p.places_of_variable hv
  have hfunctions :
      At p.tree.places (p.functions.flatMap (Function.log policy [p.scope policy])) := by
    refine at_flatMap fun g hg => ?_
    obtain ⟨m, hm, -⟩ := p.places_of_function hg
    exact (g.log_at policy m _).mono hm
  have hmain : At p.tree.places (p.functions.filterMap Function.main?).flatten := by
    rw [← List.flatMap_id]
    refine at_flatMap fun log hlog => ?_
    obtain ⟨g, hg, hlog⟩ := List.mem_filterMap.mp hlog
    obtain ⟨m, -, hspan⟩ := p.places_of_function hg
    exact (g.main?_at hlog).mono hspan
  exact (hvariables.append (p.scopeLogAll_at policy _ fun g hg => hg)).append
    (hfunctions.append (hmain.append (at_require (Tree.span_mem_places _))))

end Program

end DecafCheck
