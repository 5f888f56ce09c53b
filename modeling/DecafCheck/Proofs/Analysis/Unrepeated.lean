import DecafCheck.Proofs.Analysis.Matching

namespace DecafCheck

section Wording

theorem head?_ofList (c : Char) (cs : List Char) :
    (String.ofList (c :: cs)).toList.head? = some c := by
  rw [String.toList_ofList]
  rfl

theorem head?_ofList_or (c : Char) (cs : List Char) (other : Option Char) :
    (String.ofList (c :: cs)).toList.head?.or other = some c := by
  rw [head?_ofList]
  rfl

namespace Problem

/-- The character that the wording of a problem starts with. -/
def initial : Problem → Char
  | .functionConflict _ => 'f'
  | .voidVariable _ => 'v'
  | .emptyArray _ => 'a'
  | .localArray _ => 'a'
  | .undeclaredFunction _ => 'c'
  | .assignment _ _ => 'c'
  | .test .condition _ => 'i'
  | .test .guard _ => 'w'
  | .operandsDiffer _ _ _ => 'o'
  | .operandsNotInt _ _ => 'o'
  | .operand _ _ => 'c'
  | .index _ => 'a'
  | .arity _ _ _ => 'f'
  | .argument _ _ _ _ => 'a'
  | .returnType _ _ _ => 'f'
  | .missingMain => 'p'
  | .multipleReturns _ => 'f'
  | .voidReturn _ => 'v'
  | _ => '\x27'

theorem head?_message (q : Problem) : q.message.toList.head? = some q.initial := by
  cases q
  case missingMain => exact head?_ofList 'p' _
  case mainParameters => exact head?_ofList '\x27' _
  case test place found =>
    unfold message
    cases place <;> simp only [Test.name, String.toList_append, List.head?_append,
      Option.or_assoc] <;>
      exact head?_ofList_or _ _ _
  case operand op found =>
    cases op <;> unfold message <;> simp only [String.toList_append, List.head?_append] <;>
      exact head?_ofList_or _ _ _
  all_goals
    unfold message
    simp only [quoted, String.toList_append, List.head?_append, Option.or_assoc]
    exact head?_ofList_or _ _ _

variable {q q' : Problem}

theorem initial_eq (hmessage : q.message = q'.message) : q.initial = q'.initial := by
  have hhead := q.head?_message
  rw [hmessage, q'.head?_message] at hhead
  exact (Option.some.inj hhead).symm

/-- Reports on parts of a node can be told by their code and first letter. -/
theorem site_eq_part_iff :
    q.site = .part ↔ q.code = .typeMismatch ∧ q.initial ∈ ['a', 'i', 'w'] := by
  cases q
  case test place found => cases place <;> simp [site, code, initial]
  all_goals simp [site, code, initial]

theorem site_eq_function_iff : q.site = .function ↔ q.code = .malformedMain := by
  cases q <;> simp [site, code]

/-- Reports that agree in code and wording are at the same place of a node, or one is on a return
and the other on the node itself. -/
theorem site_eq_or (hcode : q.code = q'.code) (hmessage : q.message = q'.message) :
    q.site = q'.site ∨ q.site = .own ∧ q'.site = .ret ∨ q.site = .ret ∧ q'.site = .own := by
  have hpart : q.site = .part ↔ q'.site = .part := by
    rw [site_eq_part_iff, site_eq_part_iff, hcode, initial_eq hmessage]
  have hfunction : q.site = .function ↔ q'.site = .function := by
    rw [site_eq_function_iff, site_eq_function_iff, hcode]
  cases hs : q.site with
  | part => exact .inl (hpart.mp hs).symm
  | function => exact .inl (hfunction.mp hs).symm
  | own =>
    cases hs' : q'.site with
    | own => exact .inl rfl
    | ret => exact .inr (.inl ⟨rfl, rfl⟩)
    | part => cases hs.symm.trans (hpart.mpr hs')
    | function => cases hs.symm.trans (hfunction.mpr hs')
  | ret =>
    cases hs' : q'.site with
    | own => exact .inr (.inr ⟨rfl, rfl⟩)
    | ret => exact .inl rfl
    | part => cases hs.symm.trans (hpart.mpr hs')
    | function => cases hs.symm.trans (hfunction.mpr hs')

theorem eq_functionConflict {k : Kind} (hf : k.finds q = true)
    (hq : q.code = .duplicateDeclaration ∨ q.code = .invalidDeclaration) :
    ∃ name, q = .functionConflict name := by
  cases q
  case functionConflict name => exact ⟨name, rfl⟩
  case declaredTwice => cases k <;> cases hf
  case voidVariable => cases k <;> cases hf
  case emptyArray => cases k <;> cases hf
  case localArray => cases k <;> cases hf
  all_goals rcases hq with hq | hq <;> cases hq

/-- A declaration and a node are never reported in the same words. -/
theorem on_ne_of_isOfDeclaration {k : Kind} (hq : q.isOfDeclaration = true)
    (hq' : k.finds q' = true) (s s' : Span) :
    q.on s ≠ q'.on s' := by
  intro heq
  have hcode : q.code = q'.code := congrArg Diagnostic.code heq
  have hinitial : q.initial = q'.initial := initial_eq (congrArg Diagnostic.message heq)
  obtain ⟨name, rfl⟩ := eq_functionConflict hq' (hcode ▸ code_of_isOfDeclaration hq)
  cases q
  case declaredTwice =>
    have hletter : '\x27' = 'f' := hinitial
    exact absurd hletter (by decide)
  case functionConflict => cases hq
  all_goals cases hcode

end Problem

end Wording

section Nodup

variable {log log' : List Diagnostic} {places places' : List Span}

theorem nodup_require (condition : Bool) (p : Problem) (span : Span) :
    (Verdict.require condition p span).Nodup := by
  unfold Verdict.require
  split
  · exact List.nodup_nil
  · exact List.nodup_singleton _

theorem nodup_append_of_at (h : log.Nodup) (h' : log'.Nodup) (hat : At places log)
    (hat' : At places' log') (hdisjoint : places.Disjoint places') : (log ++ log').Nodup :=
  h.append h' fun d hd hd' => hdisjoint (hat d hd) (hat' d hd')

/-- What is reported at different places is different. -/
theorem nodup_flatMap_of_at {α : Type} {xs : List α} {place : α → Span} {f : α → List Diagnostic}
    (hxs : (xs.map place).Nodup) (hf : ∀ x ∈ xs, (f x).Nodup ∧ At [place x] (f x)) :
    (xs.flatMap f).Nodup := by
  refine List.nodup_flatMap.mpr ⟨fun x hx => (hf x hx).1, ?_⟩
  refine List.Pairwise.imp_of_mem (fun {x y} hx hy hne d hdx hdy => ?_) (List.pairwise_map.mp hxs)
  have hx' := List.mem_singleton.mp ((hf x hx).2 d hdx)
  have hy' := List.mem_singleton.mp ((hf y hy).2 d hdy)
  exact hne (hx'.symm.trans hy')

end Nodup

section Verdict

variable {parts : List (InferredType × Span)} {span : Span}

theorem Expr.nodup_argumentLog (h : (parts.map Prod.snd).Nodup) (name : String) (position : Nat)
    (parameters : List DataType) : (argumentLog name position parts parameters).Nodup := by
  induction parts generalizing position parameters with
  | nil => exact List.nodup_nil
  | cons a as ih =>
    obtain ⟨ha, has⟩ := List.nodup_cons.mp h
    cases parameters with
    | nil => exact List.nodup_nil
    | cons p ps =>
      refine nodup_append_of_at (nodup_require _ _ _) (ih has _ _)
        (at_require (List.mem_singleton_self a.2))
        (argumentLog_at fun b hb => List.mem_map_of_mem hb) ?_
      exact List.singleton_disjoint.mpr ha

theorem Verdict.nodup_ofCall (h : (parts.map Prod.snd).Nodup) (hspan : span ∉ parts.map Prod.snd)
    (scopes : Scopes) (name : String) : (ofCall scopes name parts span).log.Nodup := by
  unfold ofCall
  split
  · exact List.nodup_singleton _
  · split
    · refine nodup_append_of_at (nodup_require _ _ _) (Expr.nodup_argumentLog h _ _ _)
        (at_require (List.mem_singleton_self span))
        (Expr.argumentLog_at fun b hb => List.mem_map_of_mem hb) ?_
      exact List.singleton_disjoint.mpr hspan
    · exact List.nodup_singleton _

theorem Function.nodup_returnLog (name : String) (returns : DataType) (value : Option InferredType)
    (span : Span) :
    (returnLog name returns value span).Nodup := by
  unfold returnLog
  split
  · exact List.nodup_singleton _
  · exact List.nodup_nil
  · exact nodup_require _ _ _

theorem Function.nodup_returnsLog {returned : List (Option InferredType × Span)}
    (h : (returned.map Prod.snd).Nodup) (name : String) (returns : DataType) :
    (returnsLog name returns returned).Nodup := by
  cases returned with
  | nil => exact List.nodup_nil
  | cons r rest =>
    obtain ⟨hr, hrest⟩ := List.nodup_cons.mp h
    have hlater (q : Option InferredType × Span) :
        ((Problem.multipleReturns name).on q.2 :: returnLog name returns q.1 q.2).Nodup := by
      refine List.nodup_cons.mpr ⟨fun hmem => ?_, nodup_returnLog _ _ _ _⟩
      obtain ⟨p, s, heq, hp⟩ :=
        returnLog_findings (Q := fun p _ => p.code ≠ .multipleReturns) nofun (fun _ => nofun) _ hmem
      exact hp (congrArg Diagnostic.code heq).symm
    have hat (q : Option InferredType × Span) :
        At [q.2] ((Problem.multipleReturns name).on q.2 :: returnLog name returns q.1 q.2) :=
      List.forall_mem_cons.mpr ⟨List.mem_singleton_self _, returnLog_at (List.mem_singleton_self _)⟩
    refine nodup_append_of_at (nodup_returnLog _ _ _ _)
      (nodup_flatMap_of_at hrest fun q _ => ⟨hlater q, hat q⟩)
      (returnLog_at (List.mem_singleton_self r.2)) (at_flatMap fun q hq => (hat q).mono ?_)
      (List.singleton_disjoint.mpr hr)
    exact List.cons_subset.mpr ⟨List.mem_map_of_mem hq, List.nil_subset _⟩

theorem Function.nodup_require_append_returnsLog {returned : List (Option InferredType × Span)}
    (h : (returned.map Prod.snd).Nodup) (condition : Bool) (name : String) (returns : DataType) :
    (Verdict.require condition (.functionConflict name) span ++
      returnsLog name returns returned).Nodup := by
  refine (nodup_require _ _ _).append (nodup_returnsLog h name returns) fun d hd hd' => ?_
  obtain ⟨p, s, rfl, rfl⟩ :=
    findings_require (Q := fun p _ => p = .functionConflict name) rfl d hd
  obtain ⟨p, s', heq, hp⟩ := returnsLog_findings (Q := fun p _ => p.site = .ret)
    (fun p hp _ _ => hp) _ hd'
  -- No problem with a return has the code of a conflict.
  have hcode : Code.duplicateDeclaration = p.code := congrArg Diagnostic.code heq
  cases p <;> cases hp <;> cases hcode

theorem Verdict.nodup_ofLocation (scopes : Scopes) (name : String) (h : parts.length ≤ 1) :
    (ofLocation scopes name parts span).log.Nodup := by
  unfold ofLocation
  split
  · exact List.nodup_singleton _
  · next s _ =>
    have hindex (a : InferredType × Span) : (Expr.indexLog s span a).Nodup := by
      unfold Expr.indexLog
      split
      · exact List.nodup_singleton _
      · exact nodup_require _ _ _
    rcases Nat.le_one_iff_eq_zero_or_eq_one.mp h with h | h
    · obtain rfl := List.length_eq_zero_iff.mp h
      exact List.nodup_nil
    · obtain ⟨a, rfl⟩ := List.length_eq_one_iff.mp h
      rw [List.flatMap_singleton]
      exact hindex a

/-- A verdict reports nothing twice, if the parts of the node and its returns are at different
places. -/
theorem Kind.nodup_verdict (scopes : Scopes) (inBody : Bool)
    {returned : List (Option InferredType × Span)} {k : Kind} (hparts : (parts.map Prod.snd).Nodup)
    (hspan : span ∉ parts.map Prod.snd) (hlength : parts.length = k.children.length)
    (hreturned : (returned.map Prod.snd).Nodup) :
    (k.verdict scopes inBody parts returned span).log.Nodup := by
  have htest (place : Test) : (parts.head?.toList.flatMap (Verdict.test place)).Nodup := by
    cases parts with
    | nil => exact List.nodup_nil
    | cons a as => simpa [Verdict.test] using nodup_require _ _ _
  cases k with
  | function name returns parameters body =>
    exact Function.nodup_require_append_returnsLog hreturned _ name returns
  | assignment target value =>
    rcases parts with _ | ⟨a, _ | ⟨b, _ | _⟩⟩
    case cons.cons.nil => exact nodup_require _ _ _
    all_goals exact List.nodup_nil
  | conditional condition yes no => exact htest .condition
  | whileLoop guard body => exact htest .guard
  | jump j => exact nodup_require _ _ _
  | callStatement name arguments => exact Verdict.nodup_ofCall hparts hspan scopes name
  | call name arguments => exact Verdict.nodup_ofCall hparts hspan scopes name
  | binary op left right =>
    rcases parts with _ | ⟨a, _ | ⟨b, _ | _⟩⟩
    case cons.cons.nil =>
      rw [verdict, Verdict.ofOperands, Verdict.ofBinary]
      split
      · exact List.nodup_nil
      · exact List.nodup_singleton _
    all_goals exact List.nodup_nil
  | unary op operand =>
    rcases parts with _ | ⟨a, _ | _⟩
    case cons.nil => exact nodup_require _ _ _
    all_goals exact List.nodup_nil
  | location name index =>
    have hle : (location name index).children.length ≤ 1 := by cases index <;> simp [children]
    exact Verdict.nodup_ofLocation scopes name (hlength.trans_le hle)
  | _ => exact List.nodup_nil

end Verdict

theorem Tree.nodup_children {t : Tree} (distinct : t.ids.Nodup) {x : Tree} (hx : x ∈ t.subtrees) :
    x.children.Nodup :=
  .of_map _ ((List.nodup_flatMap.mp (List.nodup_cons.mp (listed_nodup distinct)).2).1 x hx)

theorem Tree.returned_sublist (types : Types) (x : Tree) :
    ((x.returned types).map Prod.snd).Sublist
      ((x.children.flatMap Tree.children).map Tree.span) := by
  have hblock (zs : List Tree) : ((zs.filterMap (return? types)).map Prod.snd).Sublist
      (zs.map Tree.span) := by
    induction zs with
    | nil => exact List.Sublist.slnil
    | cons z zs ih =>
      cases hr : z.return? types with
      | none =>
        rw [List.filterMap_cons_none hr]
        exact ih.cons _
      | some r =>
        rw [List.filterMap_cons_some hr, List.map_cons, List.map_cons, (return?_eq_some hr).2]
        exact ih.cons_cons _
  rw [returned, List.map_flatMap, List.map_flatMap]
  induction x.children with
  | nil => exact List.Sublist.slnil
  | cons b bs ih => exact (hblock b.children).append ih

namespace Program.Placed

variable {length : Nat} {ls : List Lexeme} {p : Program} (h : p.Placed length ls)

include h

theorem nodup_spans {zs : List Tree} (hzs : zs.Nodup)
    (hmem : ∀ z ∈ zs, z ∈ p.tree.subtrees ∧ z ≠ p.tree) :
    (zs.map Tree.span).Nodup :=
  hzs.map_on fun x hx y hy heq => h.eq_of_span_eq (hmem x hx).1 (hmem y hy).1 (hmem x hx).2
    (hmem y hy).2 heq

end Program.Placed

namespace Forest

section Program

variable {policy : Policy} {f : Forest} {p : Program} {types : Types} {length : Nat}
  {ls : List Lexeme} (c : f.Checked policy p.tree types) (placed : p.Placed length ls)

include c

omit c in
theorem eq_tree_of_program {x : Tree} (hx : x ∈ p.tree.subtrees)
    (hk : ∃ vars functions, x.kind = .program vars functions) : x = p.tree := by
  obtain ⟨vars, functions, hk⟩ := hk
  by_contra hne
  exact Program.kind_ne_program hx hne vars functions hk

omit c in
theorem eq_missingMain {q : Problem} (hq : p.tree.kind.finds q = true) (hs : q.site = .own) :
    q = .missingMain := by
  cases q <;> cases hs
  case missingMain => rfl
  all_goals cases hq

variable {x y z : Tree} {q q' : Problem} (hx : x ∈ p.tree.subtrees) (hy : y ∈ p.tree.subtrees)
  (hq : x.kind.finds q = true) (hcode : q.code = q'.code)

omit c in
include placed hx hy hq hcode in
/-- Reports of one code at the nodes they are about are about one node. -/
theorem eq_of_own (hs : q.site = .own) (hq' : y.kind.finds q' = true) (hs' : q'.site = .own)
    (hspan : x.span = y.span) :
    x = y := by
  by_cases hxp : x = p.tree
  · subst hxp
    obtain rfl := eq_missingMain hq hs
    exact (eq_tree_of_program hy (Kind.eq_program_of_finds hq' (.inl hcode.symm))).symm
  by_cases hyp : y = p.tree
  · subst hyp
    obtain rfl := eq_missingMain hq' hs'
    exact absurd (eq_tree_of_program hx (Kind.eq_program_of_finds hq (.inl hcode))) hxp
  exact placed.eq_of_span_eq hx hy hxp hyp hspan

include placed hx hy hq hcode in
/-- No node with a report at itself is a return of a function. -/
theorem Checked.own_ne_return (hs : q.site = .own) (hs' : q'.site = .ret) (hz : y.Shows .ret z)
    (hspan : x.span = z.span) : False := by
  obtain ⟨b, hb, hzb, value, hk⟩ := hz
  obtain ⟨hz, hzp⟩ := c.child_below (c.child_below hy hb).1 hzb
  by_cases hxp : x = p.tree
  · subst hxp
    obtain rfl := eq_missingMain hq hs
    cases q' <;> cases hs' <;> cases hcode
  · obtain rfl := placed.eq_of_span_eq hx hz hxp hzp hspan
    rw [hk] at hq
    cases q <;> cases hq

include placed hx hy in
/-- The verdicts on two nodes share no report. -/
theorem Checked.disjoint_judge (hne : x ≠ y) :
    (f.judge types x).log.Disjoint (f.judge types y).log := by
  intro d hd hd'
  obtain ⟨q, s, rfl, hq, z, hz, hzs⟩ := c.judge_sites hx d hd
  obtain ⟨q', s', heq, hq', w, hw, hws⟩ := c.judge_sites hy _ hd'
  have hcode : q.code = q'.code := congrArg Diagnostic.code heq
  have hmessage : q.message = q'.message := congrArg Diagnostic.message heq
  have hspan : z.span = w.span := hzs.trans ((congrArg Diagnostic.span heq).trans hws.symm)
  have hsame {b b' : Tree} (hb : b ∈ p.tree.subtrees) (hb' : b' ∈ p.tree.subtrees)
      (hz : z ∈ b.children) (hw : w ∈ b'.children) : b = b' := by
    obtain ⟨hzm, hzp⟩ := c.child_below hb hz
    obtain ⟨hwm, hwp⟩ := c.child_below hb' hw
    obtain rfl := placed.eq_of_span_eq hzm hwm hzp hwp hspan
    exact Tree.parent_unique c.carries.distinct hb hb' hz hw rfl
  rcases Problem.site_eq_or hcode hmessage with hsite | ⟨hs, hs'⟩ | ⟨hs, hs'⟩
  · rw [← hsite] at hw
    apply hne
    cases hs : q.site <;> rw [hs] at hz hw
    case own =>
      obtain rfl : z = x := hz
      obtain rfl : w = y := hw
      exact eq_of_own placed hx hy hq hcode hs hq' (hsite ▸ hs) hspan
    case part => exact hsame hx hy hz hw
    case ret =>
      obtain ⟨b, hb, hzb, -⟩ := hz
      obtain ⟨b', hb', hwb, -⟩ := hw
      obtain rfl := hsame (c.child_below hx hb).1 (c.child_below hy hb').1 hzb hwb
      exact Tree.parent_unique c.carries.distinct hx hy hb hb' rfl
    case function => exact hsame hx hy hz hw
  · rw [hs'] at hw
    rw [hs] at hz
    obtain rfl : z = x := hz
    exact c.own_ne_return placed hx hy hq hcode hs hs' hw hspan
  · rw [hs] at hz
    rw [hs'] at hw
    obtain rfl : w = y := hw
    exact c.own_ne_return placed hy hx hq' hcode.symm hs' hs hz hspan.symm

omit c in
theorem nodup_checkMain (returns : DataType) (parameters : List Parameter) (span : Span) :
    (checkMain returns parameters span).Nodup := by
  refine (nodup_require _ _ _).append (nodup_require _ _ _) fun d hd hd' => ?_
  obtain ⟨_, _, rfl, rfl⟩ := findings_require (Q := fun p _ => p = .mainReturns returns) rfl d hd
  obtain ⟨_, _, heq, rfl⟩ := findings_require (Q := fun p _ => p = .mainParameters) rfl _ hd'
  have hmessage : (Problem.mainReturns returns).message = Problem.mainParameters.message :=
    congrArg Diagnostic.message heq
  cases returns <;> revert hmessage <;> decide

omit c in
theorem main?_nodup_at {id : NodeId} {log : List Diagnostic} (hlog : f.main? id = some log) :
    log.Nodup ∧ At [f.spanOf id] log := by
  unfold main? at hlog
  split at hlog
  · next name returns parameters body span _ _ hn =>
    have hspan : span ∈ [f.spanOf id] := by simp [spanOf, hn]
    split at hlog
    · cases hlog
      exact ⟨nodup_checkMain returns parameters span, (at_require hspan).append (at_require hspan)⟩
    · cases hlog
  · cases hlog

omit c in
theorem nodup_checkProgram {functions : List NodeId} (h : (functions.map f.spanOf).Nodup)
    (span : Span) :
    (f.checkProgram functions span).log.Nodup := by
  have hmains : (functions.filterMap f.main?).flatten.Nodup := by
    refine List.nodup_flatten.mpr ⟨fun log hlog => ?_, List.pairwise_filterMap.mpr ?_⟩
    · obtain ⟨id, -, hlog⟩ := List.mem_filterMap.mp hlog
      exact (main?_nodup_at hlog).1
    · refine (List.pairwise_map.mp h).imp fun {a b} hne log hlog log' hlog' d hd hd' => hne ?_
      have ha := List.mem_singleton.mp ((main?_nodup_at hlog).2 d hd)
      have hb := List.mem_singleton.mp ((main?_nodup_at hlog').2 d hd')
      exact ha.symm.trans hb
  unfold checkProgram
  -- If there is a main function, it is not reported as missing.
  cases hm : functions.filterMap f.main? with
  | nil => exact nodup_require false .missingMain span
  | cons log logs =>
    rw [hm] at hmains
    exact hmains.append List.nodup_nil (List.disjoint_nil_right _)

include placed hx in
theorem Checked.nodup_judge : (f.judge types x).log.Nodup := by
  have hchildren : (x.children.map Tree.span).Nodup :=
    placed.nodup_spans (Tree.nodup_children c.carries.distinct hx) fun z hz => c.child_below hx hz
  by_cases hxp : x = p.tree
  · subst hxp
    rw [judge_program]
    apply nodup_checkProgram
    have hspans : ((Declaration.functionTrees 0 p.declarations).map Tree.id).map f.spanOf =
        (Declaration.functionTrees 0 p.declarations).map Tree.span := by
      rw [List.map_map]
      exact List.map_congr_left fun z hz =>
        c.carries.span z (c.child_below hx (List.mem_append_right _ hz)).1
    rw [hspans]
    exact hchildren.sublist ((List.sublist_append_right _ _).map Tree.span)
  · obtain ⟨above, -, hjudge⟩ := c.judge_eq_verdict hx hxp
    rw [hjudge]
    have hparts : (x.children.map (Tree.seen types)).map Prod.snd = x.children.map Tree.span :=
      List.map_map
    apply Kind.nodup_verdict
    · rwa [hparts]
    · rw [hparts]
      intro hmem
      obtain ⟨z, hz, hspan⟩ := List.mem_map.mp hmem
      obtain ⟨hzm, hzp⟩ := c.child_below hx hz
      obtain rfl := placed.eq_of_span_eq hzm hx hzp hxp hspan
      exact absurd (Tree.length_subtrees_child hz) (Nat.lt_irrefl _)
    · rw [List.length_map, c.carries.listed x hx, List.length_map]
    · refine (placed.nodup_spans (List.nodup_flatMap.mpr ⟨fun b hb => ?_, ?_⟩)
        fun z hz => ?_).sublist (x.returned_sublist types)
      · exact Tree.nodup_children c.carries.distinct (c.child_below hx hb).1
      · refine (Tree.nodup_children c.carries.distinct hx).pairwise_of_forall_ne
          fun b hb b' hb' hne z hz hz' => hne ?_
        exact Tree.parent_unique c.carries.distinct (c.child_below hx hb).1
          (c.child_below hx hb').1 hz hz' rfl
      · obtain ⟨b, hb, hz⟩ := List.mem_flatMap.mp hz
        exact c.child_below (c.child_below hx hb).1 hz

include placed in
theorem Checked.nodup_typeLog : (p.typeLog policy).Nodup := by
  rw [← c.program, logs]
  have hsubtrees : p.tree.subtrees.Nodup := .of_map _ c.carries.distinct
  exact List.nodup_flatMap.mpr ⟨fun x hx => c.nodup_judge placed hx,
    hsubtrees.pairwise_of_forall_ne fun x hx y hy hne => c.disjoint_judge placed hx hy hne⟩

end Program

end Forest

namespace Tree

variable {policy : Policy}

theorem takenLog_sublist (before : List Symbol) (s : Symbol) :
    ((takenLog before s).map Diagnostic.span).Sublist [s.span] := by
  unfold takenLog
  split
  · exact List.Sublist.refl _
  · exact List.nil_sublist _

theorem takenLogAll_sublist (before symbols : List Symbol) :
    ((takenLogAll before symbols).map Diagnostic.span).Sublist (symbols.map Symbol.span) := by
  induction symbols generalizing before with
  | nil => exact List.Sublist.slnil
  | cons s rest ih =>
    rw [takenLogAll, List.map_append]
    exact (takenLog_sublist before s).append (ih _)

theorem variableLog_sublist (storage : Storage) (before : List Symbol) (name : String)
    (type : DataType) (length : Nat) (span : Span) :
    ((variableLog policy storage before name type length span).map Diagnostic.span).Sublist
      [span] := by
  unfold variableLog
  split
  · exact List.Sublist.refl _
  · exact takenLog_sublist before _

theorem places_eq (t : Tree) : t.places =
    t.children.flatMap places ++ t.span :: t.kind.parameterSymbols.map Symbol.span := by
  rw [places, subtrees_eq t, List.flatMap_append, List.flatMap_singleton, List.flatMap_assoc]
  rfl

theorem scopeLogAll_subperm {ts : List Tree} (h : ∀ t ∈ ts, ∀ storage before,
      ((t.scopeLog policy storage before).map Diagnostic.span).Subperm t.places) (storage : Storage)
    (before : List Symbol) :
    ((scopeLogAll policy storage before ts).map Diagnostic.span).Subperm (ts.flatMap places) := by
  induction ts generalizing before with
  | nil => exact List.Subperm.refl _
  | cons t ts ih =>
    rw [scopeLogAll, List.map_append, List.flatMap_cons]
    exact (h t List.mem_cons_self storage before).append
      (ih (fun u hu => h u (List.mem_cons_of_mem t hu)) _)

/-- Every place in a tree has at most one report on a declaration. -/
theorem scopeLog_subperm (policy : Policy) (t : Tree) (storage : Storage) (before : List Symbol) :
    ((t.scopeLog policy storage before).map Diagnostic.span).Subperm t.places := by
  induction t generalizing storage before with
  | node id kind span cs ih =>
    have hall := scopeLogAll_subperm ih
    have hbelow : (cs.flatMap places).Subperm (node id kind span cs).places := by
      rw [places_eq]
      exact (List.sublist_append_left _ _).subperm
    cases kind with
    | «variable» name type length =>
      refine (variableLog_sublist storage before name type length span).subperm.trans
        (List.Sublist.subperm ?_)
      exact List.singleton_sublist.mpr (span_mem_places _)
    | function name returns parameters body =>
      rw [places_eq, scopeLog, List.map_append, List.map_append]
      refine ((takenLog_sublist before _).subperm.append
        ((takenLogAll_sublist [] _).subperm.append (hall .frame _))).trans (List.Perm.subperm ?_)
      rw [← List.append_assoc]
      exact List.perm_append_comm
    | program vars functions => exact (hall .frame []).trans hbelow
    | block vars statements => exact (hall .frame []).trans hbelow
    | _ => exact (hall storage before).trans hbelow

section Spread

variable {ls : List Lexeme} (h : Lexeme.Ordered ls)

include h

/-- Trees that stand one before the other share no place. -/
theorem disjoint_places {c d : Tree} (hc : ∀ x ∈ c.subtrees, x.Spread ls)
    (hd : ∀ x ∈ d.subtrees, x.Spread ls) (hb : c.span.Before d.span) :
    c.places.Disjoint d.places := by
  intro s hs hs'
  obtain ⟨hsc, hpos⟩ := inside_of_place h hc hs
  obtain ⟨hsd, -⟩ := inside_of_place h hd hs'
  exact (hb.inside hsc hsd).ne hpos rfl

/-- In a tree that is spread over lexemes, nodes and parameters have different places. -/
theorem nodup_places {t : Tree} (ht : ∀ x ∈ t.subtrees, x.Spread ls) : t.places.Nodup := by
  induction t with
  | node id kind span cs ih =>
    have hroot := ht _ (self_mem_subtrees _)
    have hchild {c : Tree} (hc : c ∈ cs) : ∀ x ∈ c.subtrees, x.Spread ls :=
      fun x hx => ht x (mem_subtrees_of_child hc hx)
    obtain ⟨hparameters, hchildren, hbefore⟩ := List.pairwise_append.mp (hroot.pairwise h)
    rw [places_eq]
    refine List.Nodup.append (List.nodup_flatMap.mpr ⟨fun c hc => ih c hc (hchild hc), ?_⟩)
      (List.nodup_cons.mpr ⟨?_, ?_⟩) ?_
    · refine List.Pairwise.imp_of_mem (fun hc hd hb => ?_) (List.pairwise_map.mp hchildren)
      exact disjoint_places h (hchild hc) (hchild hd) hb
    · intro hmem
      exact (hroot.part h (List.mem_append_left _ hmem)).2.2 rfl
    · refine List.Pairwise.imp_of_mem (fun {s u} hs _ hb => ?_) hparameters
      exact hb.ne (hroot.part h (List.mem_append_left _ hs)).2.1
    · intro s hs hs'
      obtain ⟨c, hc, hs⟩ := List.mem_flatMap.mp hs
      obtain ⟨hinside, hpos⟩ := inside_of_place h (hchild hc) hs
      rcases List.mem_cons.mp hs' with rfl | hs'
      · obtain ⟨hc', hne⟩ := hroot.child h hc
        exact hne (hc'.antisymm hinside)
      · have hb := hbefore s hs' c.span (List.mem_map_of_mem hc)
        exact (hb.inside (Span.Inside.refl s) hinside).ne hpos rfl

end Spread

end Tree

/-- The declarations of a program have different places. -/
theorem Program.Placed.nodup_declared {length : Nat} {ls : List Lexeme} {p : Program}
    (h : p.Placed length ls) :
    (p.tree.children.flatMap Tree.places).Nodup := by
  refine List.nodup_flatMap.mpr ⟨fun c hc => Tree.nodup_places h.ordered (h.spread_declaration hc),
    ?_⟩
  have hnodup : p.tree.children.Nodup :=
    Tree.nodup_children p.grown_carries.distinct p.tree.self_mem_subtrees
  refine hnodup.pairwise_of_forall_ne fun c hc d hd hne => ?_
  have hspread {c : Tree} (hc : c ∈ p.tree.children) := h.spread_declaration hc
  rcases Nat.lt_trichotomy c.id d.id with hlt | heq | hlt
  · exact Tree.disjoint_places h.ordered (hspread hc) (hspread hd) (h.before_of_lt hc hd hlt)
  · have hmem {c : Tree} (hc : c ∈ p.tree.children) := Tree.child_mem_subtrees hc
    exact absurd (Tree.eq_of_id_eq p.grown_carries.distinct (hmem hc) (hmem hd) heq) hne
  · exact fun s hs hs' =>
      Tree.disjoint_places h.ordered (hspread hd) (hspread hc) (h.before_of_lt hd hc hlt) hs' hs

theorem Program.Placed.nodup_scopeLog {length : Nat} {ls : List Lexeme} {p : Program}
    (h : p.Placed length ls) (policy : Policy) : (p.scopeLog policy).Nodup := by
  obtain ⟨spans, hperm, hsub⟩ :=
    Tree.scopeLogAll_subperm (fun t (_ : t ∈ p.tree.children) => t.scopeLog_subperm policy) .global
      []
  rw [p.scopeLog_tree] at hperm
  exact .of_map _ (hperm.nodup_iff.mp (h.nodup_declared.sublist hsub))

/-- No two reports about a text are the same: they differ in code, wording or place. -/
theorem reports_distinct {source : String} {f : Forest} (hf : Forest.parse source = .ok f)
    (policy : Policy) :
    ∃ a, check policy source = .ok a ∧ a.log.Nodup := by
  obtain ⟨p, hp, rfl⟩ := Forest.parse_eq_ok_iff.mp hf
  obtain ⟨types, c, hcheck⟩ := check_of_parse_ok hp policy
  obtain ⟨ls, -, placed⟩ := Program.placed_of_parse hp
  refine ⟨_, hcheck, (placed.nodup_scopeLog policy).append (c.nodup_typeLog placed)
    fun d hd hd' => ?_⟩
  obtain ⟨q, s, rfl, hq⟩ := p.scopeLog_findings policy d hd
  rw [← c.program] at hd'
  obtain ⟨x, hx, hd'⟩ := List.mem_flatMap.mp hd'
  obtain ⟨q', s', heq, hq'⟩ := c.judge_findings hx _ hd'
  exact Problem.on_ne_of_isOfDeclaration hq hq' s s' heq

/-- Two equal mistakes, both reported again with the call, a return with two mistakes, and a program
that has the place of its only function. -/
theorem reports_distinct_twice :
    ∃ f, Forest.parse "def bool f(int a, bool a)\x7breturn f(g, g); return;\x7d" = .ok f ∧
      ∃ a, check {} "def bool f(int a, bool a)\x7breturn f(g, g); return;\x7d" = .ok a ∧
        a.log.Nodup ∧
        Log.codes a.log = [.duplicateDeclaration, .unresolvedSymbol, .unresolvedSymbol,
          .typeMismatch, .typeMismatch, .multipleReturns, .typeMismatch, .missingMain] := by
  have hcodes : ((check {} "def bool f(int a, bool a)\x7breturn f(g, g); return;\x7d").toOption.map
      fun a => Log.codes a.log) = some [.duplicateDeclaration, .unresolvedSymbol, .unresolvedSymbol,
      .typeMismatch,
        .typeMismatch, .multipleReturns, .typeMismatch, .missingMain] := by decide +kernel
  apply exists_ok_of_isSome (by decide +kernel)
  intro f hf
  obtain ⟨a, ha, hnodup⟩ := reports_distinct hf {}
  rw [ha] at hcodes
  exact ⟨a, ha, hnodup, Option.some.inj hcodes⟩

end DecafCheck
