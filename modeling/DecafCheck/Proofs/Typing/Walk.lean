import DecafCheck.Proofs.Tree.Forest
import DecafCheck.Typing.Check

namespace DecafCheck

namespace Forest

/-- The nodes whose types count in a verdict. -/
def judged (f : Forest) : Kind → List NodeId
  | .function _ _ _ body =>
    match f.kindOf? body with
    | some (.block _ statements) => (statements.filterMap f.return?).flatMap fun r => r.1.toList
    | _ => []
  | kind => kind.children

theorem argumentProblems_congr (f : Forest) {types types' : Types} (name : String)
    {arguments : List NodeId} (h : ∀ id ∈ arguments, types.get id = types'.get id) (position : Nat)
    (parameters : List DataType) :
    f.argumentProblems types name position arguments parameters =
      f.argumentProblems types' name position arguments parameters := by
  induction arguments generalizing position parameters with
  | nil => cases parameters <;> rfl
  | cons a as ih =>
    cases parameters with
    | nil => rfl
    | cons p ps =>
      simp only [argumentProblems, h a List.mem_cons_self,
        ih fun id hid => h id (List.mem_cons_of_mem a hid)]

theorem checkCall_congr (f : Forest) {types types' : Types} {arguments : List NodeId}
    (h : ∀ id ∈ arguments, types.get id = types'.get id) (id : NodeId) (kind : Kind) (span : Span)
    (name : String) :
    f.checkCall types id kind span name arguments =
      f.checkCall types' id kind span name arguments := by
  simp only [checkCall, f.argumentProblems_congr name h]

theorem checkReturn_congr {types types' : Types} {value : Option NodeId}
    (h : ∀ id ∈ value, types.get id = types'.get id) (name : String) (returns : DataType)
    (span : Span) :
    checkReturn types name returns value span = checkReturn types' name returns value span := by
  cases value with
  | none => rfl
  | some id =>
    have hid := h id rfl
    cases returns <;> simp [checkReturn, hid]

theorem checkReturns_congr {types types' : Types} {returned : List (Option NodeId × Span)}
    (h : ∀ r ∈ returned, ∀ id ∈ r.1, types.get id = types'.get id) (name : String)
    (returns : DataType) :
    checkReturns types name returns returned = checkReturns types' name returns returned := by
  cases returned with
  | nil => rfl
  | cons r rest =>
    have hr := checkReturn_congr (h r List.mem_cons_self) name returns r.2
    have hrest := List.flatMap_congr fun q (hq : q ∈ rest) =>
      congrArg (List.cons ((Problem.multipleReturns name).on q.2))
        (checkReturn_congr (h q (List.mem_cons_of_mem r hq)) name returns q.2)
    rw [checkReturns, checkReturns, hr, hrest]

/-- A verdict depends on the types of the nodes that count in it. -/
theorem verdict_congr (f : Forest) {types types' : Types} {kind : Kind}
    (h : ∀ id ∈ f.judged kind, types.get id = types'.get id) (id : NodeId) (span : Span) :
    f.verdict types id span kind = f.verdict types' id span kind := by
  cases kind with
  | function name returns parameters body =>
    simp only [verdict, checkFunction]
    cases hb : f.kindOf? body with
    | none => rfl
    | some k =>
      cases k
      case block vars statements =>
        simp only [judged, hb, List.mem_flatMap] at h
        have hr : ∀ r ∈ statements.filterMap f.return?, ∀ id ∈ r.1, types.get id = types'.get id :=
          fun r hr id hid => h id ⟨r, hr, Option.mem_toList.mpr hid⟩
        simp only [checkReturns_congr hr]
      all_goals rfl
  | assignment target value =>
    have ht := h target (by simp [judged, Kind.children])
    have hv := h value (by simp [judged, Kind.children])
    simp only [verdict, checkAssignment, ht, hv]
  | conditional condition yes no =>
    have hc := h condition (by simp [judged, Kind.children])
    simp only [verdict, checkTest, hc]
  | whileLoop guard body =>
    have hg := h guard (by simp [judged, Kind.children])
    simp only [verdict, checkTest, hg]
  | callStatement name arguments =>
    have ha : ∀ id ∈ arguments, types.get id = types'.get id := h
    simp only [verdict, f.checkCall_congr ha]
  | call name arguments => exact f.checkCall_congr h id _ span name
  | binary op left right =>
    have hl := h left (by simp [judged, Kind.children])
    have hr := h right (by simp [judged, Kind.children])
    simp only [verdict, hl, hr]
  | unary op operand =>
    have ho := h operand (by simp [judged, Kind.children])
    simp only [verdict, ho]
  | location name index =>
    have hi (s : Symbol) : index.toList.flatMap (f.indexProblems types s span) =
        index.toList.flatMap (f.indexProblems types' s span) := by
      apply List.flatMap_congr
      intro i hi
      simp only [indexProblems, h i hi]
    simp only [verdict, checkLocation, hi]
  | _ => rfl

/-- The nodes that count in a verdict are further down. -/
theorem Carries.judged_below {f : Forest} {t : Tree} (h : f.Carries t) {x : Tree}
    (hx : x ∈ t.subtrees) {id : NodeId} (hid : id ∈ f.judged x.kind) :
    ∃ c ∈ x.children, id ∈ c.ids := by
  have hchild : ∀ {y : Tree}, y ∈ t.subtrees → ∀ {j : NodeId}, j ∈ y.kind.children →
      ∃ c ∈ y.children, c.id = j ∧ c ∈ t.subtrees := by
    intro y hy j hj
    rw [h.listed y hy] at hj
    obtain ⟨c, hc, rfl⟩ := List.mem_map.mp hj
    exact ⟨c, hc, rfl, Tree.subtrees_trans hy (Tree.child_mem_subtrees hc)⟩
  have hplain : id ∈ x.kind.children → ∃ c ∈ x.children, id ∈ c.ids := by
    intro hj
    obtain ⟨c, hc, rfl, -⟩ := hchild hx hj
    exact ⟨c, hc, Tree.id_mem_ids c.self_mem_subtrees⟩
  cases hk : x.kind
  case function name returns parameters body =>
    rw [hk] at hid
    obtain ⟨b, hb, rfl, hbt⟩ := hchild hx (by rw [hk]; exact List.mem_singleton_self body)
    simp only [judged, h.kind b hbt] at hid
    split at hid
    · next vars statements hbk =>
      obtain ⟨⟨value, span⟩, hr, hv⟩ := List.mem_flatMap.mp hid
      obtain ⟨s, hs, hret⟩ := List.mem_filterMap.mp hr
      obtain ⟨c, hc, rfl, hct⟩ := hchild hbt (by
        rw [Option.some.inj hbk]
        exact List.mem_append_right vars hs)
      obtain ⟨n, hn, hnk, -⟩ := h.node hct
      have hck : c.kind = .ret value := by
        rw [return?, hn] at hret
        split at hret
        · next hsome =>
          cases hret
          rw [← hnk, Option.some.inj hsome]
        · cases hret
      obtain ⟨d, hd, rfl, -⟩ := hchild hct (by rw [hck]; exact hv)
      refine ⟨b, hb, Tree.id_mem_ids ?_⟩
      exact Tree.subtrees_trans (Tree.child_mem_subtrees hc) (Tree.child_mem_subtrees hd)
    · exact absurd hid List.not_mem_nil
  all_goals
    rw [hk] at hid
    exact hplain (by rw [hk]; exact hid)

/-- The verdict on the root of a tree. -/
def judge (f : Forest) (types : Types) (x : Tree) : Verdict :=
  f.verdict types x.id x.span x.kind

end Forest

namespace Typing

/-- What a walk through trees adds: `types` for their nodes and `log`. In view of any types that
give these nodes the same, they are what the verdicts on the nodes come to. -/
structure Adds (f : Forest) (ts : List Tree) (types : Types) (log : List Diagnostic) : Prop where
  inside : ∀ id ∉ ts.flatMap Tree.ids, types.lookup id = none
  log_eq : ∀ final : Types, (∀ id ∈ ts.flatMap Tree.ids, final.lookup id = types.lookup id) →
    log = (ts.flatMap Tree.subtrees).flatMap fun x => (f.judge final x).log
  types_eq : ∀ final : Types, (∀ id ∈ ts.flatMap Tree.ids, final.lookup id = types.lookup id) →
    ∀ x ∈ ts.flatMap Tree.subtrees, types.lookup x.id = (f.judge final x).type

theorem adds_nil (f : Forest) : Adds f [] [] [] :=
  ⟨fun _ _ => rfl, fun _ _ => rfl, fun _ _ _ hx => absurd hx List.not_mem_nil⟩

theorem Adds.cons {f : Forest} {t : Tree} {ts : List Tree} {a b : Types} {l m : List Diagnostic}
    (ht : Adds f [t] a l) (hts : Adds f ts b m) (hd : t.ids.Disjoint (ts.flatMap Tree.ids)) :
    Adds f (t :: ts) (b ++ a) (l ++ m) := by
  have hids : [t].flatMap Tree.ids = t.ids := by simp
  have hleft : ∀ id ∈ t.ids, (b ++ a).lookup id = a.lookup id := by
    intro id hid
    rw [List.lookup_append, hts.inside id (hd hid), Option.none_or]
  have hright : ∀ id ∈ ts.flatMap Tree.ids, (b ++ a).lookup id = b.lookup id := by
    intro id hid
    have hn : id ∉ [t].flatMap Tree.ids := hids ▸ fun h => hd h hid
    rw [List.lookup_append, ht.inside id hn, Option.or_none]
  have hfirst : ∀ {final : Types},
      (∀ id ∈ (t :: ts).flatMap Tree.ids, final.lookup id = (b ++ a).lookup id) →
      ∀ id ∈ [t].flatMap Tree.ids, final.lookup id = a.lookup id := by
    intro final hf id hid
    rw [hids] at hid
    exact (hf id (List.mem_append_left _ hid)).trans (hleft id hid)
  have hrest : ∀ {final : Types},
      (∀ id ∈ (t :: ts).flatMap Tree.ids, final.lookup id = (b ++ a).lookup id) →
      ∀ id ∈ ts.flatMap Tree.ids, final.lookup id = b.lookup id :=
    fun hf id hid => (hf id (List.mem_append_right _ hid)).trans (hright id hid)
  refine ⟨?_, ?_, ?_⟩
  · intro id hid
    rw [List.flatMap_cons, List.mem_append, not_or] at hid
    rw [List.lookup_append, hts.inside id hid.2, ht.inside id (by simpa using hid.1),
      Option.none_or]
  · intro final hf
    rw [ht.log_eq final (hfirst hf), hts.log_eq final (hrest hf)]
    simp
  · intro final hf x hx
    rw [List.flatMap_cons, List.mem_append] at hx
    rcases hx with hx | hx
    · rw [hleft x.id (Tree.id_mem_ids hx)]
      exact ht.types_eq final (hfirst hf) x (by simpa using hx)
    · have hid : x.id ∈ ts.flatMap Tree.ids := by
        obtain ⟨u, hu, hxu⟩ := List.mem_flatMap.mp hx
        exact List.mem_flatMap.mpr ⟨u, hu, Tree.id_mem_ids hxu⟩
      rw [hright x.id hid]
      exact hts.types_eq final (hrest hf) x hx

/-- The verdict on a node is the same in view of the final types as when the walk leaves the
node. -/
theorem Adds.above {f : Forest} {t x : Tree} (h : f.Carries t) (hx : x ∈ t.subtrees)
    {before a : Types} {l : List Diagnostic} (hb : ∀ id ∈ x.ids, before.lookup id = none)
    (hc : Adds f x.children a l) :
    Adds f [x] ((f.judge (a ++ before) x).type.toList.map (Prod.mk x.id) ++ a)
      (l ++ (f.judge (a ++ before) x).log) := by
  have hids : [x].flatMap Tree.ids = x.children.flatMap Tree.ids ++ [x.id] := by
    rw [List.flatMap_singleton, Tree.ids_eq]
  have hdis : x.id ∉ x.children.flatMap Tree.ids := by
    have hn := Tree.distinct_subtree h.distinct hx
    rw [Tree.ids_eq, List.nodup_append] at hn
    exact fun hm => hn.2.2 x.id hm x.id (List.mem_singleton_self _) rfl
  have hother : ∀ id, id ≠ x.id →
      ((f.judge (a ++ before) x).type.toList.map (Prod.mk x.id) ++ a).lookup id = a.lookup id := by
    intro id hne
    have hb : (id == x.id) = false := beq_false_of_ne hne
    cases (f.judge (a ++ before) x).type <;> simp [List.lookup_cons, hb]
  have hown : ((f.judge (a ++ before) x).type.toList.map (Prod.mk x.id) ++ a).lookup x.id =
      (f.judge (a ++ before) x).type := by
    cases (f.judge (a ++ before) x).type with
    | none => simpa using hc.inside x.id hdis
    | some τ => simp
  have hbelow : ∀ {final : Types}, (∀ id ∈ [x].flatMap Tree.ids, final.lookup id =
      ((f.judge (a ++ before) x).type.toList.map (Prod.mk x.id) ++ a).lookup id) →
      ∀ id ∈ x.children.flatMap Tree.ids, final.lookup id = a.lookup id := by
    intro final hf id hid
    rw [hf id (hids ▸ List.mem_append_left _ hid), hother id fun he => hdis (he ▸ hid)]
  have hsame : ∀ {final : Types}, (∀ id ∈ [x].flatMap Tree.ids, final.lookup id =
      ((f.judge (a ++ before) x).type.toList.map (Prod.mk x.id) ++ a).lookup id) →
      f.judge final x = f.judge (a ++ before) x := by
    intro final hf
    apply f.verdict_congr
    intro id hid
    obtain ⟨c, hcx, hidc⟩ := h.judged_below hx hid
    have hmem : id ∈ x.children.flatMap Tree.ids := List.mem_flatMap.mpr ⟨c, hcx, hidc⟩
    have hfree : before.lookup id = none :=
      hb id (by rw [Tree.ids_eq]; exact List.mem_append_left _ hmem)
    rw [Types.get, Types.get, hbelow hf id hmem, List.lookup_append, hfree, Option.or_none]
  refine ⟨?_, ?_, ?_⟩
  · intro id hid
    rw [hids, List.mem_append, List.mem_singleton, not_or] at hid
    rw [hother id hid.2, hc.inside id hid.1]
  · intro final hf
    rw [hc.log_eq final (hbelow hf), ← hsame hf, List.flatMap_singleton, Tree.subtrees_eq x,
      List.flatMap_append, List.flatMap_singleton]
  · intro final hf y hy
    rw [List.flatMap_singleton, Tree.subtrees_eq x, List.mem_append, List.mem_singleton] at hy
    rcases hy with hy | rfl
    · have hid : y.id ∈ x.children.flatMap Tree.ids := by
        obtain ⟨c, hcx, hyc⟩ := List.mem_flatMap.mp hy
        exact List.mem_flatMap.mpr ⟨c, hcx, Tree.id_mem_ids hyc⟩
      rw [hother y.id fun he => hdis (he ▸ hid)]
      exact hc.types_eq final (hbelow hf) y hy
    · rw [hown, hsame hf]

/-- A walk through a tree goes through and adds what the verdicts come to. -/
def Walks (f : Forest) (x : Tree) : Prop :=
  ∀ s : Typing, (∀ id ∈ x.ids, s.types.lookup id = none) →
    ∃ a l, follow (visit f) s x.steps = (⟨a ++ s.types, s.log ++ l⟩, none) ∧ Adds f [x] a l

theorem follow_stepsAll {f : Forest} {ts : List Tree} (hw : ∀ t ∈ ts, Walks f t)
    (hn : (ts.flatMap Tree.ids).Nodup) (s : Typing)
    (hs : ∀ id ∈ ts.flatMap Tree.ids, s.types.lookup id = none) :
    ∃ a l, follow (visit f) s (Tree.stepsAll ts) = (⟨a ++ s.types, s.log ++ l⟩,
      none) ∧ Adds f ts a l := by
  induction ts generalizing s with
  | nil => exact ⟨[], [], by simp [Tree.stepsAll, follow], adds_nil f⟩
  | cons t ts ih =>
    rw [List.flatMap_cons, List.nodup_append'] at hn
    obtain ⟨-, hnts, hd⟩ := hn
    obtain ⟨a, l, ha, hadds⟩ :=
      hw t List.mem_cons_self s fun id hid => hs id (List.mem_append_left _ hid)
    have hfree : ∀ id ∈ ts.flatMap Tree.ids, (a ++ s.types).lookup id = none := by
      intro id hid
      have hn : id ∉ [t].flatMap Tree.ids := by
        rw [List.flatMap_singleton]
        exact fun h => hd h hid
      rw [List.lookup_append, hadds.inside id hn, hs id (List.mem_append_right _ hid),
        Option.none_or]
    obtain ⟨b, m, hb, hadds'⟩ := ih (fun u hu => hw u (List.mem_cons_of_mem t hu)) hnts
      ⟨a ++ s.types, s.log ++ l⟩ hfree
    refine ⟨b ++ a, l ++ m, ?_, hadds.cons hadds' hd⟩
    rw [Tree.stepsAll, follow_append, ha]
    simp only [hb, List.append_assoc]

theorem walks {f : Forest} {t : Tree} (h : f.Carries t)
    (hstop : ∀ x ∈ t.subtrees, ∀ types, (f.judge types x).stop = none) {x : Tree}
    (hx : x ∈ t.subtrees) :
    Walks f x := by
  induction x with
  | node id kind span cs ih =>
    intro s hs
    have hw : ∀ c ∈ cs, Walks f c :=
      fun c hc => ih c hc (Tree.subtrees_trans hx (Tree.child_mem_subtrees hc))
    have hn := Tree.distinct_subtree h.distinct hx
    rw [Tree.ids_eq, List.nodup_append'] at hn
    have hfree : ∀ j ∈ cs.flatMap Tree.ids, s.types.lookup j = none :=
      fun j hj => hs j (by rw [Tree.ids_eq]; exact List.mem_append_left _ hj)
    obtain ⟨a, l, ha, hadds⟩ := follow_stepsAll hw hn.1 s hfree
    refine ⟨_, _, ?_, Adds.above h hx hs hadds⟩
    have hv : visit f ⟨a ++ s.types, s.log ++ l⟩ (.leave id kind span) =
        (Typing.add ⟨a ++ s.types, s.log ++ l⟩ id (f.judge (a ++ s.types) (.node id kind span cs)),
          none) :=
      Prod.ext rfl (hstop _ hx _)
    have hadd : Typing.add ⟨a ++ s.types, s.log ++ l⟩ id
        (f.judge (a ++ s.types) (.node id kind span cs)) =
        ⟨((f.judge (a ++ s.types) (.node id kind span cs)).type.toList.map (Prod.mk id) ++ a) ++
          s.types, s.log ++ (l ++ (f.judge (a ++ s.types) (.node id kind span cs)).log)⟩ := by
      rw [add]
      cases (f.judge (a ++ s.types) (.node id kind span cs)).type <;> simp
    have he : visit f s (.enter id kind span) = (s, none) := rfl
    rw [Tree.steps, follow, he]
    simp only [follow_append, ha, follow, hv, hadd, Tree.id_node]

end Typing

/-- Types that give every node of a tree what the verdict on it gives in view of them, and no
others. -/
structure Forest.Typed (f : Forest) (t : Tree) (types : Types) : Prop where
  fits : ∀ x ∈ t.subtrees, types.lookup x.id = (f.judge types x).type
  inside : ∀ id ∉ t.ids, types.lookup id = none

/-- Checking the types of a tree gives the types that fit it, and the verdicts in view of them. A
verdict depends on types of nodes further down only, so those that the walk ends with will do for
every node. -/
theorem Forest.Carries.checkTypes_eq {f : Forest} {t : Tree} (h : f.Carries t)
    (hstop : ∀ x ∈ t.subtrees, ∀ types, (f.judge types x).stop = none) (before : Types) :
    ∃ types, f.Typed t types ∧
      f.checkTypes before = ⟨types, t.subtrees.flatMap fun x => (f.judge types x).log, none⟩ := by
  obtain ⟨a, l, hfollow, hadds⟩ := Typing.walks h hstop t.self_mem_subtrees {} fun _ _ => rfl
  have hlog := hadds.log_eq a fun _ _ => rfl
  have htypes := hadds.types_eq a fun _ _ => rfl
  rw [List.flatMap_singleton] at hlog htypes
  refine ⟨a, ⟨htypes, fun id hid => hadds.inside id (by simpa using hid)⟩, ?_⟩
  simp only [checkTypes, h.root, h.tour_eq, hfollow, List.append_nil, List.nil_append, hlog]

end DecafCheck
