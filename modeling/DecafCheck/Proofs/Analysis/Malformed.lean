import DecafCheck.Analysis.Basic
import DecafCheck.Proofs.Tree.Handmade
import DecafCheck.Proofs.Typing.Stops

namespace DecafCheck

namespace Forest

/-- What declares or uses a name is inside a scope, and the bodies of functions are blocks. -/
structure WellPlaced (f : Forest) : Prop where
  sheltered : ∀ id kind, f.kindOf? id = some kind → kind.needsScope = true →
    ∃ scope, f.IsScope scope ∧ f.Above scope id
  bodies : ∀ id name returns parameters body,
      f.kindOf? id = some (.function name returns parameters body) →
    f.IsBlock body

section Carries

variable {f : Forest} {t : Tree} (h : f.Carries t)

include h

/-- The scopes above a node are those on the way up from it. -/
theorem exists_scope_above_iff {above : List Tree} {x : Tree} (hp : t.Path above x) :
    (∃ scope, f.IsScope scope ∧ f.Above scope x.id) ↔ ∃ y ∈ above, y.kind.opensScope = true := by
  induction hp with
  | root =>
    constructor
    · rintro ⟨scope, -, p, -, hl⟩
      exact absurd hl (root_not_listed h h.root)
    · simp
  | @child above p c hp hc ih =>
    have hlists := lists_of_child h hp.mem hc
    constructor
    · rintro ⟨scope, hscope, q, hb, hl⟩
      obtain rfl := lists_unique h hlists hl
      cases hb with
      | self => exact ⟨p, List.mem_cons_self, (isScope_iff h hp.mem).mp hscope⟩
      | child hb hl =>
        obtain ⟨y, hy, hyk⟩ := ih.mp ⟨scope, hscope, _, hb, hl⟩
        exact ⟨y, List.mem_cons_of_mem p hy, hyk⟩
    · rintro ⟨y, hy, hyk⟩
      rcases List.mem_cons.mp hy with rfl | hy
      · exact ⟨y.id, (isScope_iff h hp.mem).mpr hyk, y.id, .self, hlists⟩
      · obtain ⟨scope, hscope, habove⟩ := ih.mpr ⟨y, hy, hyk⟩
        exact ⟨scope, hscope, habove.trans ⟨p.id, .self, hlists⟩⟩

theorem wellPlaced_iff : f.WellPlaced ↔ f.Orderly t := by
  constructor
  · intro hw above x hp
    have hk := h.kind x hp.mem
    refine ⟨fun hn => (exists_scope_above_iff h hp).mp (hw.sheltered x.id x.kind hk hn), ?_⟩
    intro name returns parameters body hf
    exact hw.bodies x.id name returns parameters body (hf ▸ hk)
  · intro hplaced
    constructor
    · intro id kind hk hn
      obtain ⟨x, hx, rfl, rfl⟩ := h.of_kindOf? hk
      obtain ⟨above, hp⟩ := Tree.exists_path hx
      exact (exists_scope_above_iff h hp).mpr ((hplaced hp).1 hn)
    · intro id name returns parameters body hk
      obtain ⟨x, hx, rfl, hxk⟩ := h.of_kindOf? hk
      obtain ⟨above, hp⟩ := Tree.exists_path hx
      exact (hplaced hp).2 name returns parameters body hxk

theorem not_wellPlaced_of_loose {x : Tree} (hx : t.Loose x) (hk : x.kind.needsScope = true) :
    ¬ f.WellPlaced := by
  intro hw
  obtain ⟨above, hp, hplain⟩ := hx.exists_path
  obtain ⟨y, hy, hyk⟩ := ((wellPlaced_iff h).mp hw hp).1 hk
  rw [hplain y hy] at hyk
  exact Bool.noConfusion hyk

/-- The check of types, once the scopes have been built. -/
theorem Unscoped.checkTypes_stop {policy : Policy} (u : f.Unscoped policy t) (l : f.Linked t)
    (hfree : ∀ x, t.Loose x → x.kind.declares = false) (before : Types) :
    (f.Orderly t → (f.checkTypes before).stop = none) ∧
      (¬ f.Orderly t → ∃ m, (f.checkTypes before).stop = some (.malformed m)) := by
  constructor
  · intro hplaced
    have hstop : ∀ x ∈ t.subtrees, ∀ types, (f.judge types x).stop = none := by
      intro x hx
      obtain ⟨above, hp⟩ := Tree.exists_path hx
      rcases decided h l u hfree hp with ⟨-, hnone⟩ | ⟨hn, -⟩
      · exact hnone
      · exact absurd (hplaced hp) hn
    obtain ⟨types, -, hcheck⟩ := h.checkTypes_eq hstop before
    rw [hcheck]
  · intro hn
    apply h.checkTypes_malformed
    · intro x hx types stop hstop
      obtain ⟨above, hp⟩ := Tree.exists_path hx
      rcases decided h l u hfree hp with ⟨-, hnone⟩ | ⟨-, hmalformed⟩
      · rw [hnone types] at hstop
        cases hstop
      · obtain ⟨m, hm⟩ := hmalformed types
        exact ⟨m, Option.some.inj (hstop.symm.trans hm)⟩
    · by_contra hgoes
      refine hn fun {above x} hp => ?_
      rcases decided h l u hfree hp with ⟨hplaced, -⟩ | ⟨-, hmalformed⟩
      · exact hplaced
      · refine absurd ⟨x, hp.mem, fun types => ?_⟩ hgoes
        obtain ⟨m, hm⟩ := hmalformed types
        simp [hm]

/-- The analysis of a forest without tables stops exactly if something is out of place. -/
theorem Carries.analyze_stop (l : f.Linked t) (htables : f.tables = {})
    (hfresh : ∀ id, f.tableOf? id = none) (policy : Policy) :
    (f.WellPlaced → (f.analyze policy).stop = none) ∧
      (¬ f.WellPlaced → ∃ m, (f.analyze policy).stop = some (.malformed m)) := by
  rcases h.buildScopes_loose htables policy with ⟨hfree, log, hbuild⟩ | ⟨⟨x, hx, hk⟩, span, hstop⟩
  · have a := f.alike_withTables (t.looseScopes policy 0)
    have l' : (f.withTables (t.looseScopes policy 0)).Linked t :=
      fun hp => (f.parentOf?_withTables _ _).trans (l hp)
    have hcheck := (h.unscoped hfresh policy).checkTypes_stop (h.of_alike a) l' hfree []
    rw [a.orderly_iff, ← wellPlaced_iff h] at hcheck
    simpa only [analyze, hbuild] using hcheck
  · have hn := not_wellPlaced_of_loose h hx (Kind.needsScope_of_declares hk)
    exact ⟨fun hw => absurd hw hn, fun _ => ⟨.outsideScope span, by simp only [analyze, hstop]⟩⟩

end Carries

/-- A tree that is made by hand is analysed to the end if everything is in its place, and is
malformed if not. -/
theorem analyze_handmade {f : Forest} (hf : f.Handmade) (ht : f.IsTree) (policy : Policy) :
    ∃ g, f.link = .ok g ∧ ((g.analyze policy).stop = none ↔ f.WellPlaced) ∧
      (¬ f.WellPlaced → ∃ m, (g.analyze policy).stop = some (.malformed m)) := by
  obtain ⟨t, h⟩ := isTree_iff.mp ht
  have hg : f.linked.Carries t := h.of_alike h.linked_alike
  have hw : f.linked.WellPlaced ↔ f.WellPlaced := by
    rw [wellPlaced_iff hg, wellPlaced_iff h, h.linked_alike.orderly_iff]
  obtain ⟨hok, hmalformed⟩ := hg.analyze_stop h.linked (h.tables_linked.trans hf.tables_eq)
    (fun id => (h.tableOf?_linked id).trans (hf.tableOf?_eq_none id)) policy
  rw [hw] at hok hmalformed
  refine ⟨f.linked, h.link_eq, ⟨fun hnone => ?_, hok⟩, hmalformed⟩
  by_contra hn
  obtain ⟨m, hm⟩ := hmalformed hn
  rw [hnone] at hm
  cases hm

/-- A loop by itself: the body is a scope with a variable that it sets, the guard is outside of
it. -/
def looseGuard : Forest :=
  let f := (({} : Forest).add (.location "a" none) ⟨6, 7⟩).1
  let f := (f.add (.variable "b" .bool 1) ⟨10, 17⟩).1
  let f := (f.add (.location "b" none) ⟨18, 19⟩).1
  let f := (f.add (.literal (.bool true)) ⟨22, 26⟩).1
  let f := (f.add (.assignment 2 3) ⟨18, 27⟩).1
  let f := (f.add (.block [1] [4]) ⟨9, 29⟩).1
  (f.add (.whileLoop 0 5) ⟨0, 29⟩).1.setRoot 6

def looseGuardTree : Tree :=
  .node 6 (.whileLoop 0 5) ⟨0, 29⟩
    [.node 0 (.location "a" none) ⟨6, 7⟩ [],
     .node 5 (.block [1] [4]) ⟨9, 29⟩
      [.node 1 (.variable "b" .bool 1) ⟨10, 17⟩ [],
       .node 4 (.assignment 2 3) ⟨18, 27⟩
        [.node 2 (.location "b" none) ⟨18, 19⟩ [], .node 3 (.literal (.bool true)) ⟨22, 26⟩ []]]]

theorem looseGuard_carries : looseGuard.Carries looseGuardTree :=
  ⟨rfl, by decide, by decide, by unfold Tree.Listed; decide, by decide, by decide⟩

theorem analyze_handmade_looseGuard :
    looseGuard.Handmade ∧ looseGuard.IsTree ∧ ¬ looseGuard.WellPlaced ∧
      ∃ g, looseGuard.link = .ok g ∧ ∃ m, (g.analyze {}).stop = some (.malformed m) := by
  have hf : looseGuard.Handmade :=
    .setRoot 6 (.add _ _ (.add _ _ (.add _ _ (.add _ _ (.add _ _ (.add _ _ (.add _ _ .empty)))))))
  have ht : looseGuard.IsTree := isTree_iff.mpr ⟨_, looseGuard_carries⟩
  have hn : ¬ looseGuard.WellPlaced :=
    not_wellPlaced_of_loose looseGuard_carries (.inside rfl List.mem_cons_self .self) rfl
  obtain ⟨g, hg, -, hmalformed⟩ := analyze_handmade hf ht {}
  exact ⟨hf, ht, hn, g, hg, hmalformed hn⟩

end Forest

end DecafCheck
