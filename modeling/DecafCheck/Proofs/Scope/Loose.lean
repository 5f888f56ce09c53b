import DecafCheck.Proofs.Scope.Attached

namespace DecafCheck

/-- Whether a node declares a name in the scope around it. -/
def Kind.declares : Kind → Bool
  | .variable _ _ _ => true
  | .function _ _ _ _ => true
  | _ => false

namespace Tree

/-- The places in a tree that no scope of the tree is around. -/
inductive Loose : Tree → Tree → Prop
  | self {t : Tree} : Loose t t
  | inside {t c x : Tree} : t.kind.opensScope = false → c ∈ t.children → Loose c x → Loose t x

theorem Loose.child {t x c : Tree} (h : t.Loose x) (hk : x.kind.opensScope = false)
    (hc : c ∈ x.children) :
    t.Loose c := by
  induction h with
  | self => exact .inside hk hc .self
  | inside hk' hc' _ ih => exact .inside hk' hc' (ih hk hc)

theorem Loose.exists_path {t x : Tree} (h : t.Loose x) :
    ∃ above, t.Path above x ∧ ∀ y ∈ above, y.kind.opensScope = false := by
  induction h with
  | @self t => exact ⟨[], .root, by simp⟩
  | @inside t c x hk hc _ ih =>
    obtain ⟨above, hp, hplain⟩ := ih
    refine ⟨above ++ [t], (Path.root.child hc).append hp, ?_⟩
    intro y hy
    rcases List.mem_append.mp hy with hy | hy
    · exact hplain y hy
    · obtain rfl := List.mem_singleton.mp hy
      exact hk

theorem Path.loose {t x : Tree} {above : List Tree} (hp : t.Path above x)
    (hplain : ∀ y ∈ above, y.kind.opensScope = false) : t.Loose x := by
  induction hp with
  | root => exact .self
  | @child above y _ _ hc ih =>
    exact (ih fun z hz => hplain z (List.mem_cons_of_mem y hz)).child
      (hplain y List.mem_cons_self) hc

mutual

/-- The nodes of scopes, in the order they are entered, with their tables, in a tree that no scope
is around. The tables are numbered from `base` on. -/
def looseScopes (policy : Policy) (base : Nat) : Tree → List (NodeId × Table)
  | node id kind span children =>
    if kind.opensScope then
      (id, ⟨firsts ((node id kind span children).symbols policy .global), none⟩)
        :: scopesAll policy (base + 1) base children
    else
      looseScopesAll policy base children

def looseScopesAll (policy : Policy) (base : Nat) : List Tree → List (NodeId × Table)
  | [] => []
  | t :: ts =>
    looseScopes policy base t ++
      looseScopesAll policy (base + (looseScopes policy base t).length) ts

end

theorem threads_looseScopes (policy : Policy) :
    Threads (fun base => looseScopes policy base) (fun base => looseScopesAll policy base) :=
  ⟨fun _ => rfl, fun _ _ _ => rfl⟩

/-- Exactly the nodes of scopes get tables. -/
theorem looseScopes_perm (policy : Policy) (base : Nat) (t : Tree) :
    ((t.looseScopes policy base).map Prod.fst).Perm
      ((t.subtrees.filter fun x => x.kind.opensScope).map Tree.id) := by
  induction t generalizing base with
  | node id kind span cs ih =>
    rw [looseScopes, subtrees_node]
    by_cases hk : kind.opensScope = true
    · have hall : ((scopesAll policy (base + 1) base cs).map Prod.fst).Perm
          (((cs.flatMap subtrees).filter fun x => x.kind.opensScope).map Tree.id) :=
        (threads_scopes policy base).perm (fun c _ b => c.scopes_perm policy b base) _
      simp only [hk, ↓reduceIte, List.map_cons, List.filter_append, List.map_append,
        List.filter_cons, kind_node, List.filter_nil, id_node, List.map_nil]
      exact (hall.cons id).trans (List.perm_append_singleton id _).symm
    · simpa [hk] using (threads_looseScopes policy).perm ih base

theorem mem_looseScopes {policy : Policy} {t : Tree} {base : Nat} {id : NodeId} :
    id ∈ (t.looseScopes policy base).map Prod.fst ↔
      ∃ x ∈ t.subtrees, x.kind.opensScope = true ∧ x.id = id := by
  rw [(t.looseScopes_perm policy base).mem_iff]
  simp [and_assoc]

theorem around_eq_nil_iff {policy : Policy} {above : List Tree} :
    around policy above = [] ↔ ∀ y ∈ above, y.kind.opensScope = false := by
  induction above with
  | nil => simp [around]
  | cons x above ih =>
    rw [around, List.forall_mem_cons, ← ih]
    cases x.kind.opensScope <;> simp

end Tree

namespace Scoping

theorem follow_node_error {policy : Policy} {id : NodeId} {kind : Kind} {span : Span}
    {cs : List Tree} {s : Scoping} {stop : Stop} (he : s.enter policy id span kind = .error stop) :
    follow (visit policy) s (Tree.node id kind span cs).steps = (s, some stop) := by
  have hv : visit policy s (.enter id kind span) = (s, some stop) := by simp [visit, he]
  rw [Tree.steps, follow, hv]

theorem follow_node_stop {policy : Policy} {id : NodeId} {kind : Kind} {span : Span}
    {cs : List Tree} {s s' s'' : Scoping} {stop : Stop} (he : s.enter policy id span kind = .ok s')
    (hc : follow (visit policy) s' (Tree.stepsAll cs) = (s'', some stop)) :
    follow (visit policy) s (Tree.node id kind span cs).steps = (s'', some stop) := by
  have hv : visit policy s (.enter id kind span) = (s', none) := by simp [visit, he]
  rw [Tree.steps, follow, hv]
  simp only [follow_append, hc]

/-- How a walk ends that starts outside of all scopes: it goes through if none of the places
declares anything, and is stopped if one does. -/
def Ends (loose : Tree → Prop) (s : Scoping) (made : List (NodeId × Table))
    (outcome : Scoping × Option Stop) : Prop :=
  ((∀ x, loose x → x.kind.declares = false) ∧ ∃ log, outcome = (s.adding made log, none)) ∨
    ((∃ x, loose x ∧ x.kind.declares = true) ∧
      ∃ s' span, outcome = (s', some (.malformed (.outsideScope span))))

/-- The walk through a tree outside of all scopes. -/
def WalksLoose (policy : Policy) (t : Tree) : Prop :=
  ∀ s : Scoping, s.enclosing = [] →
    Ends t.Loose s (t.looseScopes policy s.forest.tables.size) (follow (visit policy) s t.steps)

theorem follow_stepsAll_loose {policy : Policy} {ts : List Tree}
    (hw : ∀ t ∈ ts, WalksLoose policy t) (s : Scoping) (hs : s.enclosing = []) :
    Ends (fun x => ∃ t ∈ ts, t.Loose x) s (Tree.looseScopesAll policy s.forest.tables.size ts)
      (follow (visit policy) s (Tree.stepsAll ts)) := by
  induction ts generalizing s with
  | nil => exact .inl ⟨by simp, [], by rw [Tree.looseScopesAll, adding_nil]; rfl⟩
  | cons t ts ih =>
    rw [Tree.stepsAll, follow_append]
    rcases hw t List.mem_cons_self s hs with ⟨hfree, log, ht⟩ | ⟨⟨x, hx, hd⟩, s', span, ht⟩
    · rw [ht]
      have hr := ih (fun u hu => hw u (List.mem_cons_of_mem t hu))
        (s.adding (t.looseScopes policy s.forest.tables.size) log) hs
      rw [size_adding] at hr
      rcases hr with ⟨hfree', log', hr⟩ | ⟨⟨x, ⟨u, hu, hx⟩, hd⟩, s', span, hr⟩
      · refine .inl ⟨?_, log ++ log', ?_⟩
        · rintro x ⟨u, hu, hx⟩
          rcases List.mem_cons.mp hu with rfl | hu
          · exact hfree x hx
          · exact hfree' x ⟨u, hu, hx⟩
        · simp only [hr, adding_adding, Tree.looseScopesAll]
      · exact .inr ⟨⟨x, ⟨u, List.mem_cons_of_mem t hu, hx⟩, hd⟩, s', span, hr⟩
    · exact .inr ⟨⟨x, ⟨t, List.mem_cons_self, hx⟩, hd⟩, s', span, by rw [ht]⟩

theorem innermost_loose {s : Scoping} (hs : s.enclosing = []) (span : Span) :
    s.innermost span = .error (.malformed (.outsideScope span)) := by
  rw [innermost, hs]

/-- A declaration outside of all scopes. -/
theorem walksLoose_declaration {policy : Policy} {id : NodeId} {kind : Kind} {span : Span}
    {cs : List Tree} (hk : kind.declares = true)
    (he : ∀ s : Scoping, s.enclosing = [] →
      s.enter policy id span kind = .error (.malformed (.outsideScope span))) :
    WalksLoose policy (.node id kind span cs) :=
  fun s hs => .inr ⟨⟨_, .self, hk⟩, s, span, follow_node_error (he s hs)⟩

/-- An outermost scope. What is inside has a scope around it. -/
theorem walksLoose_scope {policy : Policy} {id : NodeId} {kind : Kind} {span : Span}
    {cs : List Tree} (hw : ∀ t ∈ cs, Walks policy t)
    (he : ∀ s : Scoping, s.enter policy id span kind = .ok (s.openScope id))
    (hk : kind.opensScope = true) (hd : kind.declares = false) (hp : kind.parameterSymbols = []) :
    WalksLoose policy (.node id kind span cs) := by
  intro s hs
  obtain ⟨s', s'', hs', hs'', hclose⟩ := follow_scope hw s id []
  cases hs'
  refine .inl ⟨?_, Tree.scopeLogAll policy .global [] cs, ?_⟩
  · intro x hx
    cases hx with
    | self => exact hd
    | inside hplain _ _ =>
      rw [Tree.kind_node, hk] at hplain
      exact Bool.noConfusion hplain
  · rw [follow_node (he s) hs'', if_pos hk, hclose]
    simp only [hs, ↓reduceIte, List.head?_nil, Tree.looseScopes, hk, Tree.symbols,
      Tree.kind_node, hp, Tree.children_node, takenLogAll, List.nil_append]

theorem walksLoose_plain {policy : Policy} {id : NodeId} {kind : Kind} {span : Span}
    {cs : List Tree} (hw : ∀ t ∈ cs, WalksLoose policy t)
    (he : ∀ s : Scoping, s.enter policy id span kind = .ok s) (hk : kind.opensScope = false)
    (hd : kind.declares = false) : WalksLoose policy (.node id kind span cs) := by
  intro s hs
  rcases follow_stepsAll_loose hw s hs with ⟨hfree, log, hc⟩ |
    ⟨⟨x, ⟨t, ht, hx⟩, hdx⟩, s', span', hc⟩
  · refine .inl ⟨?_, log, ?_⟩
    · intro x hx
      cases hx with
      | self => exact hd
      | inside _ hc hx => exact hfree x ⟨_, hc, hx⟩
    · rw [follow_node (he s) hc, hk, Tree.looseScopes, hk]
      rfl
  · exact .inr ⟨⟨x, .inside hk ht hx, hdx⟩, s', span', follow_node_stop (he s) hc⟩

theorem walksLoose (policy : Policy) {t : Tree} (listed : t.Listed) : WalksLoose policy t := by
  induction t with
  | node id kind span cs ih =>
    have hw : ∀ t ∈ cs, Walks policy t := fun c hc => walks policy (listed.child hc)
    have hl : ∀ t ∈ cs, WalksLoose policy t := fun c hc => ih c hc (listed.child hc)
    cases kind
    case program => exact walksLoose_scope hw (fun _ => rfl) rfl rfl rfl
    case block => exact walksLoose_scope hw (fun _ => rfl) rfl rfl rfl
    case function =>
      refine walksLoose_declaration rfl fun s hs => ?_
      rw [enter, declare, innermost_loose hs]
      rfl
    case «variable» =>
      refine walksLoose_declaration rfl fun s hs => ?_
      rw [enter, declareVariable, innermost_loose hs]
      rfl
    all_goals exact walksLoose_plain hl (fun _ => rfl) rfl rfl

end Scoping

namespace Forest

/-- Building scopes goes through if and only if no declaration is loose. -/
theorem Carries.buildScopes_loose {f : Forest} {t : Tree} (h : f.Carries t) (hf : f.tables = {})
    (policy : Policy) :
    ((∀ x, t.Loose x → x.kind.declares = false) ∧
        ∃ log, f.buildScopes policy = ⟨f.withTables (t.looseScopes policy 0), log, none⟩) ∨
      ((∃ x, t.Loose x ∧ x.kind.declares = true) ∧
        ∃ span, (f.buildScopes policy).stop = some (.malformed (.outsideScope span))) := by
  have hends := Scoping.walksLoose policy h.listed { forest := f } rfl
  rw [← h.tour_eq] at hends
  rcases hends with ⟨hfree, log, hfollow⟩ | ⟨hloose, s', span, hfollow⟩
  · refine .inl ⟨hfree, log, ?_⟩
    simp [buildScopes, h.root, hfollow, Scoping.adding, withTables, hf, Tables.append, Tables.size]
  · refine .inr ⟨hloose, span, ?_⟩
    simp [buildScopes, h.root, hfollow]

/-- A tree that no scope is around, with a table for each of its scopes and none for any other
node. -/
inductive Unscoped (policy : Policy) (f : Forest) : Tree → Prop
  | scope {k : Nat} {x : Tree} : x.kind.opensScope = true → f.tableOf? x.id = some k →
      f.tables.tables[k]? = some ⟨firsts (x.symbols policy .global), none⟩ →
      (∀ c ∈ x.children, f.Scoped policy k c) → Unscoped policy f x
  | plain {x : Tree} : x.kind.opensScope = false → f.tableOf? x.id = none →
      (∀ c ∈ x.children, Unscoped policy f c) → Unscoped policy f x

theorem unscoped_of_holds {policy : Policy} {f : Forest} {t : Tree} {base : Nat}
    (hplain : ∀ x ∈ t.subtrees, x.kind.opensScope = false → f.tableOf? x.id = none)
    (h : f.Holds base (t.looseScopes policy base)) : f.Unscoped policy t := by
  induction t generalizing base with
  | node id kind span cs ih =>
    have hbelow : ∀ c ∈ cs, ∀ x ∈ c.subtrees, x.kind.opensScope = false → f.tableOf? x.id = none :=
      fun c hc x hx => hplain x (Tree.mem_subtrees_of_child hc hx)
    rw [Tree.looseScopes] at h
    split at h
    · next hk =>
      have hr : f.Holds (base + 1) (Tree.scopesAll policy (base + 1) base cs) := h.right (a := [_])
      refine .scope hk h.head.1 h.head.2 fun c hc => ?_
      obtain ⟨b, hb, hs⟩ := hr.threads (Tree.threads_scopes policy base) c hc
      exact scoped_of_holds (hbelow c hc) hb hs
    · next hk =>
      have hk : kind.opensScope = false := by simpa using hk
      refine .plain hk (hplain _ (Tree.self_mem_subtrees _) hk) fun c hc => ?_
      obtain ⟨b, -, hs⟩ := h.threads (Tree.threads_looseScopes policy) c hc
      exact ih c hc (hbelow c hc) hs

theorem Carries.unscoped {f : Forest} {t : Tree} (h : f.Carries t) (hf : ∀ id, f.tableOf? id = none)
    (policy : Policy) : (f.withTables (t.looseScopes policy 0)).Unscoped policy t := by
  have hn : ((t.looseScopes policy 0).map Prod.fst).Nodup :=
    (t.looseScopes_perm policy 0).nodup_iff.mpr
      (h.distinct.sublist (List.filter_sublist.map Tree.id))
  refine unscoped_of_holds ?_ (holds_withTables hn ?_)
  · intro x hx hk
    refine (tableOf?_attachAll_of_not_mem f 0 fun hm => ?_).trans (hf x.id)
    obtain ⟨y, hy, hyk, hid⟩ := Tree.mem_looseScopes.mp hm
    obtain rfl := Tree.eq_of_id_eq h.distinct hy hx hid
    rw [hyk] at hk
    exact Bool.noConfusion hk
  · intro id hid
    obtain ⟨x, hx, -, rfl⟩ := Tree.mem_looseScopes.mp hid
    exact h.lt_size hx

/-- A place that no table can be reached from. -/
structure Unseated (policy : Policy) (f : Forest) (above : List Tree) (x : Tree) : Prop where
  nearest : ((x :: above).findSome? fun y => f.tableOf? y.id) = none
  around : Tree.around policy (x :: above) = []
  below : ∀ c ∈ x.children, f.Unscoped policy c

/-- A tree that nothing above gives a table to either has its own or is without. -/
theorem Unscoped.seated_or {policy : Policy} {f : Forest} {above : List Tree} {x : Tree}
    (h : f.Unscoped policy x) (hn : (above.findSome? fun y => f.tableOf? y.id) = none)
    (ha : Tree.around policy above = []) :
    (∃ k, f.Seated policy above x k) ∨ f.Unseated policy above x := by
  cases h with
  | @scope k _ hk ht htable hcs =>
    refine .inl ⟨k, ?_, ?_, fun _ => ⟨ht, ?_⟩, hcs⟩
    · rw [List.findSome?_cons, ht]
    · rw [Tree.around_scope hk, ha]
      exact .outermost htable
    · rw [ha, hn]
      exact htable
  | plain hk ht hcs =>
    refine .inr ⟨?_, ?_, hcs⟩
    · rw [List.findSome?_cons, ht, hn]
    · rw [Tree.around_plain hk, ha]

theorem Unscoped.places {policy : Policy} {f : Forest} {t : Tree} (h : f.Unscoped policy t)
    {above : List Tree} {x : Tree} (hp : t.Path above x) : (∃ k, f.Seated policy above x k) ∨
      f.Unseated policy above x := by
  induction hp with
  | root => exact h.seated_or rfl rfl
  | child _ hc ih =>
    rcases ih with ⟨k, hs⟩ | hu
    · exact .inl (hs.child hc)
    · exact (hu.below _ hc).seated_or hu.nearest hu.around

/-- Where there is a scope, a table can be reached. -/
theorem Unscoped.seated {policy : Policy} {f : Forest} {t : Tree} (h : f.Unscoped policy t)
    {above : List Tree} {x y : Tree} (hp : t.Path above x) (hy : y ∈ x :: above)
    (hk : y.kind.opensScope = true) :
    ∃ k, f.Seated policy above x k := by
  refine (h.places hp).resolve_right fun hu => ?_
  have hplain := Tree.around_eq_nil_iff.mp hu.around y hy
  rw [hk] at hplain
  exact Bool.noConfusion hplain

theorem Unscoped.unseated {policy : Policy} {f : Forest} {t : Tree} (h : f.Unscoped policy t)
    {above : List Tree} {x : Tree} (hp : t.Path above x)
    (hplain : ∀ y ∈ x :: above, y.kind.opensScope = false) :
    f.Unseated policy above x := by
  refine (h.places hp).resolve_left ?_
  rintro ⟨k, hs⟩
  exact hs.around_ne_nil (Tree.around_eq_nil_iff.mpr hplain)

end Forest

end DecafCheck
