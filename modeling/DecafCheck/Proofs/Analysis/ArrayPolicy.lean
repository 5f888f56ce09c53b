import DecafCheck.Proofs.Analysis.Check
import DecafCheck.Proofs.Scope.Renaming

namespace DecafCheck

/-- Without a local array there is nothing for the policy to object to. -/
theorem Policy.objection?_congr (p q : Policy) {storage : Storage} {type : DataType} {length : Nat}
    (h : storage = .frame → type ≠ .void → length ≤ 1) (name : String) :
    p.objection? storage name type length = q.objection? storage name type length := by
  have hnone (r : Policy) : type ≠ .void →
      ¬ (r.globalArraysOnly = true ∧ storage = .frame ∧ 1 < length) :=
    fun hv hr => absurd (h hr.2.1 hv) (Nat.not_le.mpr hr.2.2)
  unfold objection?
  split
  · rfl
  · next hv => rw [if_neg (hnone p hv), if_neg (hnone q hv)]

namespace Tree

/-- Both policies make the same of a tree. -/
structure Indifferent (p q : Policy) (storage : Storage) (t : Tree) : Prop where
  declares : t.declares p storage = t.declares q storage
  scopes : ∀ base outer, t.scopes p base outer = t.scopes q base outer
  log : ∀ before, t.scopeLog p storage before = t.scopeLog q storage before

section Indifferent

variable {p q : Policy} {storage : Storage} {ts : List Tree}

theorem declaresAll_congr (h : ∀ t ∈ ts, t.Indifferent p q storage) :
    declaresAll p storage ts = declaresAll q storage ts := by
  rw [declaresAll_eq, declaresAll_eq]
  exact List.flatMap_congr fun t ht => (h t ht).declares

theorem scopesAll_congr (h : ∀ t ∈ ts, t.Indifferent p q storage) (base outer : Nat) :
    scopesAll p base outer ts = scopesAll q base outer ts := by
  induction ts generalizing base with
  | nil => rfl
  | cons t ts ih =>
    rw [scopesAll, scopesAll, (h t List.mem_cons_self).scopes,
      ih fun u hu => h u (List.mem_cons_of_mem t hu)]

theorem scopeLogAll_congr (h : ∀ t ∈ ts, t.Indifferent p q storage) (before : List Symbol) :
    scopeLogAll p storage before ts = scopeLogAll q storage before ts := by
  induction ts generalizing before with
  | nil => rfl
  | cons t ts ih =>
    have ht := h t List.mem_cons_self
    rw [scopeLogAll, scopeLogAll, ht.log, ht.declares,
      ih fun u hu => h u (List.mem_cons_of_mem t hu)]

theorem indifferent_variable {id : NodeId} {name : String} {type : DataType}
    {length : Nat} {span : Span} (h : storage = .frame → type ≠ .void → length ≤ 1) :
    (node id (.variable name type length) span []).Indifferent p q storage := by
  have ho := p.objection?_congr q h name
  refine ⟨?_, fun _ _ => rfl, fun before => ?_⟩
  · rw [declares, declares, Policy.symbol?, Policy.symbol?, ho]
  · rw [scopeLog, scopeLog, variableLog, variableLog, ho]

/-- A variable inside a tree has a single element, unless it has no value type. -/
def Scalar (t : Tree) : Prop :=
  ∀ x ∈ t.subtrees, ∀ name type length, x.kind = .variable name type length →
    type ≠ .void → length ≤ 1

theorem Scalar.child {t c : Tree} (h : t.Scalar) (hc : c ∈ t.children) : c.Scalar :=
  fun x hx => h x (mem_subtrees_of_child hc hx)

theorem Scalar.indifferent {t : Tree} (h : t.Scalar) (listed : t.Listed) (p q : Policy)
    (storage : Storage) :
    t.Indifferent p q storage := by
  induction t generalizing storage with
  | node id kind span cs ih =>
    have hcs (storage : Storage) : ∀ c ∈ cs, c.Indifferent p q storage :=
      fun c hc => ih c hc (h.child hc) (listed.child hc) storage
    have hdeclares := declaresAll_congr (hcs storage)
    have hlog := scopeLogAll_congr (hcs storage)
    have hscopes (base outer : Nat) : (node id kind span cs).scopes p base outer =
        (node id kind span cs).scopes q base outer := by
      rw [scopes, scopes]
      simp only [symbols, children_node, declaresAll_congr (hcs .frame),
        scopesAll_congr (hcs .frame)]
    rcases kind with _ | _ | _ | ⟨name, type, length⟩ | _ | _ | _ | _ | _ | _ | _ | _ | _ | _ | _
    case program => exact ⟨rfl, hscopes, fun _ => scopeLogAll_congr (hcs .frame) []⟩
    case block => exact ⟨rfl, hscopes, fun _ => scopeLogAll_congr (hcs .frame) []⟩
    case function name returns parameters body =>
      refine ⟨rfl, hscopes, fun before => ?_⟩
      rw [scopeLog, scopeLog, scopeLogAll_congr (hcs .frame)]
    case «variable» =>
      obtain rfl : cs = [] := List.map_eq_nil_iff.mp (listed _ (self_mem_subtrees _)).symm
      exact indifferent_variable fun _ => h _ (self_mem_subtrees _) name type length rfl
    all_goals exact ⟨hdeclares, hscopes, hlog⟩

end Indifferent

section Reported

variable {policy : Policy} {d : Diagnostic}

theorem mem_scopeLogAll {storage : Storage} {ts : List Tree} {t : Tree} (ht : t ∈ ts)
    (hd : ∀ before, d ∈ t.scopeLog policy storage before) (before : List Symbol) :
    d ∈ scopeLogAll policy storage before ts := by
  induction ts generalizing before with
  | nil => exact absurd ht List.not_mem_nil
  | cons u us ih =>
    rw [scopeLogAll]
    rcases List.mem_cons.mp ht with rfl | ht
    · exact List.mem_append_left _ (hd before)
    · exact List.mem_append_right _ (ih ht _)

/-- A variable that is objected to is reported, wherever it is inside a tree of a function. -/
theorem mem_scopeLog {t x : Tree} (listed : t.Listed) (hx : x ∈ t.subtrees) {name : String}
    {type : DataType} {length : Nat} (hk : x.kind = .variable name type length) {problem : Problem}
    (ho : policy.objection? .frame name type length = some problem) (before : List Symbol) :
    problem.on x.span ∈ t.scopeLog policy .frame before := by
  induction t generalizing before with
  | node id kind span cs ih =>
    rw [subtrees_node, List.mem_append, List.mem_flatMap, List.mem_singleton] at hx
    rcases hx with ⟨c, hc, hx⟩ | rfl
    · have hall := mem_scopeLogAll hc (ih c hc (listed.child hc) hx)
      rcases kind with _ | _ | _ | ⟨name, type, length⟩ | _ | _ | _ | _ | _ | _ | _ | _ | _ | _ | _
      case function => exact List.mem_append_right _ (List.mem_append_right _ (hall _))
      case «variable» =>
        obtain rfl : cs = [] := List.map_eq_nil_iff.mp (listed _ (self_mem_subtrees _)).symm
        exact absurd hc List.not_mem_nil
      all_goals exact hall _
    · obtain rfl : kind = .variable name type length := hk
      rw [scopeLog, variableLog, ho]
      exact List.mem_singleton_self _

end Reported

end Tree

/-- A variable that a block declares, of a value type and with more than one element. -/
def Forest.LocalArray (f : Forest) (v : NodeId) : Prop :=
  ∃ block vars statements name type length, f.kindOf? block = some (.block vars statements) ∧
    v ∈ vars ∧ f.kindOf? v = some (.variable name type length) ∧ type ≠ .void ∧ 1 < length

namespace Program

variable {p : Program}

/-- Where no block declares an array, there is none in a function. -/
theorem scalar_function (h : ∀ v, ¬ p.grown.LocalArray v) {g : Function} {m : Nat}
    (hg : Function.tree m g ∈ p.tree.children) : (Function.tree m g).Scalar := by
  intro x hx name type length hk hv
  have hcarries := p.grown_carries
  obtain ⟨above, hpath⟩ := Tree.exists_path hx
  cases hpath with
  | root => cases hk
  | @child above y _ hy hx =>
    have hpath := Tree.Path.append (Tree.Path.root.child hg) hy
    obtain ⟨vars, hvars, ⟨functions, hky⟩ | ⟨statements, hky⟩⟩ :=
      hcarries.variable_of_path (fun x => fitting_of_mem) (hpath.child hx) hk
    · obtain ⟨z, rest, hrest⟩ :=
        List.exists_cons_of_ne_nil (List.append_ne_nil_of_right_ne_nil above
        (List.cons_ne_nil p.tree []))
      rw [hrest] at hpath
      exact absurd hky (hcarries.kind_ne_program (fun x => fitting_of_mem) hpath vars functions)
    · have hkx := hcarries.kind x (hpath.child hx).mem
      have hkb := hcarries.kind y hpath.mem
      rw [hk] at hkx
      rw [hky] at hkb
      exact Nat.le_of_not_lt fun hl => h x.id ⟨y.id, vars, statements, name, type, length, hkb,
        hvars, hkx, hv, hl⟩

theorem indifferent_children (h : ∀ v, ¬ p.grown.LocalArray v) (a b : Policy) :
    ∀ c ∈ p.tree.children, c.Indifferent a b .global := by
  intro c hc
  rcases mem_children hc with ⟨v, m, rfl⟩ | ⟨g, m, rfl⟩
  · exact Tree.indifferent_variable fun hs => nomatch hs
  · have hlisted := p.grown_carries.listed.child hc
    exact (scalar_function h hc).indifferent hlisted a b .global

theorem buildScopes_congr (h : ∀ v, ¬ p.grown.LocalArray v) (a b : Policy) :
    p.grown.buildScopes a = p.grown.buildScopes b := by
  have hcs := indifferent_children h a b
  have htables : p.tree.tables a = p.tree.tables b := by
    rw [Tree.tables, Tree.tables, Tree.symbols, Tree.symbols]
    rw [Tree.declaresAll_congr hcs, Tree.scopesAll_congr hcs]
  have hlog := Tree.scopeLogAll_congr hcs []
  rw [scopeLog_tree, scopeLog_tree] at hlog
  rw [buildScopes_eq, buildScopes_eq, annotated, annotated, htables, hlog]

/-- Under the policy, an array that a block declares is reported. -/
theorem localArray_reported {v : NodeId} (h : p.grown.LocalArray v) :
    ∃ d ∈ p.scopeLog { globalArraysOnly := true }, d.code = .invalidDeclaration ∧
      d.span = p.grown.spanOf v := by
  obtain ⟨block, vars, statements, name, type, length, hblock, hmem, hkv, hv, hl⟩ := h
  have hcarries := p.grown_carries
  obtain ⟨y, hy, rfl, hky⟩ := hcarries.of_kindOf? hblock
  have hlisted : v ∈ y.children.map Tree.id := by
    rw [← hcarries.listed y hy, hky]
    exact List.mem_append_left statements hmem
  obtain ⟨x, hx, rfl⟩ := List.mem_map.mp hlisted
  have hxmem := Tree.subtrees_trans hy (Tree.child_mem_subtrees hx)
  have hkx : x.kind = .variable name type length :=
    Option.some.inj ((hcarries.kind x hxmem).symm.trans hkv)
  refine ⟨(Problem.localArray name).on x.span, ?_, rfl, (hcarries.span x hxmem).symm⟩
  have ho : Policy.objection? { globalArraysOnly := true } .frame name type length =
    some (.localArray name) := by
    have hne : length ≠ 0 := Nat.ne_of_gt (Nat.lt_of_succ_lt hl)
    simp only [Policy.objection?, if_neg hv, if_neg hne, hl, and_self, if_true]
  rw [Tree.subtrees_eq, List.mem_append, List.mem_flatMap, List.mem_singleton] at hy
  rcases hy with ⟨c, hc, hy⟩ | rfl
  · rw [← scopeLog_tree]
    refine Tree.mem_scopeLogAll hc (fun before => ?_) []
    rcases mem_children hc with ⟨w, m, rfl⟩ | ⟨g, m, rfl⟩
    · obtain rfl : y = Variable.tree m w := by simpa [Variable.tree, Tree.above] using hy
      cases hky
    · have hlisted := hcarries.listed.child hc
      exact Tree.mem_scopeLog hlisted
        (Tree.subtrees_trans hy (Tree.child_mem_subtrees hx)) hkx ho before
  · cases hky

end Program

/-- The policy on arrays only restricts. Without arrays in blocks a text is checked alike with it
and without it; an array in a block is reported under the policy. So what is accepted under the
policy is accepted without it, and means the same. -/
theorem array_policy_restricts {source : String} {f : Forest} (hf : Forest.parse source = .ok f) :
    ∃ strict lenient, check { globalArraysOnly := true } source = .ok strict ∧
      check {} source = .ok lenient ∧
      ((∀ v, ¬ f.LocalArray v) → strict = lenient) ∧
      (∀ v, f.LocalArray v → ∃ d ∈ strict.log, d.code = .invalidDeclaration ∧ d.span = f.spanOf v) ∧
      (strict.isOk = true → strict = lenient) := by
  obtain ⟨p, hp, rfl⟩ := Forest.parse_eq_ok_iff.mp hf
  obtain ⟨strictTypes, -, hstrict⟩ := check_of_parse_ok hp { globalArraysOnly := true }
  obtain ⟨lenientTypes, -, hlenient⟩ := check_of_parse_ok hp {}
  refine ⟨_, _, hstrict, hlenient, ?_⟩
  have hsame (h : ∀ v, ¬ p.grown.LocalArray v) :
      check { globalArraysOnly := true } source = check {} source := by
    simp only [check, hf, bind, Except.bind, Forest.analyze,
      Program.buildScopes_congr h { globalArraysOnly := true } {}]
  have hreported (v : NodeId) (hv : p.grown.LocalArray v) :
      ∃ d ∈ p.log { globalArraysOnly := true }, d.code = .invalidDeclaration ∧
      d.span = p.grown.spanOf v := by
    obtain ⟨d, hd, hcode, hspan⟩ := Program.localArray_reported hv
    exact ⟨d, List.mem_append_left _ hd, hcode, hspan⟩
  have hequal (h : ∀ v, ¬ p.grown.LocalArray v) :=
    Except.ok.inj (hstrict.symm.trans ((hsame h).trans hlenient))
  refine ⟨hequal, hreported, fun hok => hequal fun v hv => ?_⟩
  obtain ⟨d, hd, -⟩ := hreported v hv
  exact absurd (List.isEmpty_iff.mp hok) (List.ne_nil_of_mem hd)

/-- Without the policy the inner `a` is found, and with it the outer one. -/
theorem array_policy_restricts_hidden :
    ∃ f, Forest.parse "bool a; def int main()\x7bint a[2]; return a[0];\x7d" = .ok f ∧
      f.LocalArray 1 ∧
      ∃ strict lenient,
        check { globalArraysOnly := true } "bool a; def int main()\x7bint a[2]; return a[0];\x7d" =
          .ok strict ∧
        check {} "bool a; def int main()\x7bint a[2]; return a[0];\x7d" = .ok lenient ∧
        lenient.isOk = true ∧
        ∃ d ∈ strict.log, d.code = .invalidDeclaration ∧ d.span = f.spanOf 1 := by
  have hkinds : (Forest.parse "bool a; def int main()\x7bint a[2]; return a[0];\x7d").toOption.map
      (fun f => (f.kindOf? 5, f.kindOf? 1)) =
      some (some (.block [1] [4]), some (.variable "a" .int 2)) := by
    decide +kernel
  have hok : (check {} "bool a; def int main()\x7bint a[2]; return a[0];\x7d").toOption.map
      Analysis.isOk = some true := by decide +kernel
  obtain ⟨f, hf, hkinds⟩ := exists_ok_of_map hkinds
  obtain ⟨hblock, hvariable⟩ := Prod.mk.inj hkinds
  have hlocal : f.LocalArray 1 :=
    ⟨5, [1], [4], "a", .int, 2, hblock, List.mem_singleton_self 1, hvariable, by decide, by decide⟩
  obtain ⟨strict, lenient, hstrict, hlenient, -, hreported, -⟩ := array_policy_restricts hf
  rw [hlenient] at hok
  exact ⟨f, hf, hlocal, strict, lenient, hstrict, hlenient, Option.some.inj hok, hreported 1 hlocal⟩

end DecafCheck
