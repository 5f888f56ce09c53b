import DecafCheck.Proofs.Grammar.Yields
import DecafCheck.Proofs.Scope.Build
import DecafCheck.Proofs.Tree.Planting

namespace DecafCheck

namespace Span

def Inside (s t : Span) : Prop :=
  t.start ≤ s.start ∧ s.stop ≤ t.stop

/-- Disjoint, in this order. -/
def Before (s t : Span) : Prop :=
  s.stop ≤ t.start

theorem Inside.refl (s : Span) : s.Inside s :=
  ⟨Nat.le_refl _, Nat.le_refl _⟩

theorem Inside.trans {s t u : Span} (h : s.Inside t) (h' : t.Inside u) : s.Inside u :=
  ⟨h'.1.trans h.1, h.2.trans h'.2⟩

theorem Inside.antisymm {s t : Span} (h : s.Inside t) (h' : t.Inside s) : s = t := by
  obtain ⟨hstart, hstop⟩ := h
  obtain ⟨hstart', hstop'⟩ := h'
  cases s
  cases t
  simp only [Span.mk.injEq]
  exact ⟨Nat.le_antisymm hstart' hstart, Nat.le_antisymm hstop hstop'⟩

/-- What is inside of disjoint spans is disjoint. -/
theorem Before.inside {s t u v : Span} (h : s.Before t) (hu : u.Inside s) (hv : v.Inside t) :
    u.Before v :=
  hu.2.trans (Nat.le_trans h hv.1)

theorem Before.ne {s t : Span} (h : s.Before t) (hs : s.start < s.stop) : s ≠ t := by
  rintro rfl
  exact absurd h (Nat.not_le_of_lt hs)

end Span

/-- Things in order between the places `a` and `b`, each between places of its own. -/
inductive Laid {α : Type} (R : Nat → Nat → α → Prop) : Nat → Nat → List α → Prop
  | nil {a b : Nat} : a ≤ b → Laid R a b []
  | cons {a b i j : Nat} {x : α} {xs : List α} : a ≤ i → R i j x → Laid R j b xs →
      Laid R a b (x :: xs)

namespace Laid

variable {α β : Type} {R : Nat → Nat → α → Prop} {a b : Nat} {xs ys : List α}

theorem widen (h : Laid R a b xs) {a' b' : Nat} (ha : a' ≤ a) (hb : b ≤ b') : Laid R a' b' xs := by
  induction h generalizing a' with
  | nil hle => exact .nil (by omega)
  | cons hle hx _ ih => exact .cons (by omega) hx (ih (Nat.le_refl _) hb)

theorem append {c : Nat} (h : Laid R a b xs) (h' : Laid R b c ys) : Laid R a c (xs ++ ys) := by
  induction h with
  | nil hle => exact h'.widen hle (Nat.le_refl _)
  | cons hle hx _ ih => exact .cons hle hx (ih h')

theorem one {i j : Nat} {x : α} (ha : a ≤ i) (hx : R i j x) (hb : j ≤ b) : Laid R a b [x] :=
  .cons ha hx (.nil hb)

theorem one_iff {x : α} : Laid R a b [x] ↔ ∃ i j, a ≤ i ∧ j ≤ b ∧ R i j x := by
  constructor
  · intro h
    cases h with
    | cons ha hx hrest =>
      cases hrest with
      | nil hb => exact ⟨_, _, ha, hb, hx⟩
  · rintro ⟨i, j, ha, hb, hx⟩
    exact one ha hx hb

theorem map {S : Nat → Nat → β → Prop} {f : α → β} (h : Laid R a b xs)
    (hf : ∀ i j x, x ∈ xs → R i j x → S i j (f x)) : Laid S a b (xs.map f) := by
  induction h with
  | nil hle => exact .nil hle
  | cons hle hx _ ih =>
    exact .cons hle (hf _ _ _ List.mem_cons_self hx)
      (ih fun i j y hy => hf i j y (List.mem_cons_of_mem _ hy))

section Forward

variable (hR : ∀ i j x, R i j x → i ≤ j)

include hR

theorem le (h : Laid R a b xs) : a ≤ b := by
  induction h with
  | nil hle => exact hle
  | cons hle hx _ ih =>
    have := hR _ _ _ hx
    omega

theorem mem (h : Laid R a b xs) {x : α} (hx : x ∈ xs) : ∃ i j, a ≤ i ∧ j ≤ b ∧ R i j x := by
  induction h with
  | nil => exact absurd hx List.not_mem_nil
  | @cons a b i j y ys hle hy hys ih =>
    rcases List.mem_cons.mp hx with rfl | hx
    · exact ⟨i, j, hle, hys.le hR, hy⟩
    · obtain ⟨k, l, hk, hl, hR'⟩ := ih hx
      have := hR _ _ _ hy
      exact ⟨k, l, by omega, hl, hR'⟩

theorem pairwise (h : Laid R a b xs) :
    xs.Pairwise fun x y => ∃ i j k l, R i j x ∧ R k l y ∧ j ≤ k ∧ l ≤ b := by
  induction h with
  | nil => exact .nil
  | @cons a b i j y ys hle hy hys ih =>
    refine .cons (fun z hz => ?_) ih
    obtain ⟨k, l, hk, hl, hz⟩ := hys.mem hR hz
    exact ⟨i, j, k, l, hy, hz, hk, hl⟩

end Forward

end Laid

namespace Lexeme

/-- Lexemes as a text has them: none is empty, and each begins behind the one before it. -/
structure Ordered (ls : List Lexeme) : Prop where
  nonempty : ∀ l ∈ ls, l.span.start < l.span.stop
  pairwise : ls.Pairwise fun l m => l.span.Before m.span

/-- From the start of lexeme `i` up to lexeme `j`. -/
def stretch (ls : List Lexeme) (i j : Nat) : Span :=
  ⟨(spanAt ls i).start, (spanAt ls (j - 1)).stop⟩

/-- A span of lexemes, of at least one. -/
def Stretches (ls : List Lexeme) (i j : Nat) (s : Span) : Prop :=
  i < j ∧ s = stretch ls i j

section Ordered

variable {ls : List Lexeme} (h : Ordered ls) {i j k l : Nat}

theorem spanAt_eq (hi : i < ls.length) : spanAt ls i = ls[i].span := by
  simp [spanAt, hi]

include h

theorem Ordered.start_lt_stop (hi : i < ls.length) : (spanAt ls i).start < (spanAt ls i).stop := by
  rw [spanAt_eq hi]
  exact h.nonempty _ (List.getElem_mem hi)

theorem Ordered.stop_le_start (hij : i < j) (hj : j < ls.length) :
    (spanAt ls i).stop ≤ (spanAt ls j).start := by
  rw [spanAt_eq hj, spanAt_eq (hij.trans hj)]
  exact List.pairwise_iff_getElem.mp h.pairwise i j (hij.trans hj) hj hij

theorem Ordered.start_le_start (hij : i ≤ j) (hj : j < ls.length) :
    (spanAt ls i).start ≤ (spanAt ls j).start := by
  rcases Nat.lt_or_eq_of_le hij with hlt | rfl
  · have := h.start_lt_stop (hlt.trans hj)
    have := h.stop_le_start hlt hj
    omega
  · exact Nat.le_refl _

theorem Ordered.stop_le_stop (hij : i ≤ j) (hj : j < ls.length) :
    (spanAt ls i).stop ≤ (spanAt ls j).stop := by
  rcases Nat.lt_or_eq_of_le hij with hlt | rfl
  · have := h.start_lt_stop hj
    have := h.stop_le_start hlt hj
    omega
  · exact Nat.le_refl _

theorem Ordered.start_lt_start (hij : i < j) (hj : j < ls.length) :
    (spanAt ls i).start < (spanAt ls j).start := by
  have := h.start_lt_stop (hij.trans hj)
  have := h.stop_le_start hij hj
  omega

theorem Ordered.stop_lt_stop (hij : i < j) (hj : j < ls.length) :
    (spanAt ls i).stop < (spanAt ls j).stop := by
  have := h.start_lt_stop hj
  have := h.stop_le_start hij hj
  omega

theorem Ordered.stretch_nonempty (hij : i < j) (hj : j ≤ ls.length) :
    (stretch ls i j).start < (stretch ls i j).stop := by
  have hlast : j - 1 < ls.length := by omega
  have := h.start_le_start (i := i) (j := j - 1) (by omega) hlast
  have := h.start_lt_stop hlast
  show (spanAt ls i).start < (spanAt ls (j - 1)).stop
  omega

theorem Ordered.stretch_inside (hik : i ≤ k) (hkl : k < l) (hlj : l ≤ j) (hj : j ≤ ls.length) :
    (stretch ls k l).Inside (stretch ls i j) :=
  ⟨h.start_le_start hik (by omega), h.stop_le_stop (by omega) (by omega)⟩

theorem Ordered.stretch_before (hij : i < j) (hjk : j ≤ k) (hkl : k < l) (hl : l ≤ ls.length) :
    (stretch ls i j).Before (stretch ls k l) :=
  h.stop_le_start (by omega) (by omega)

theorem Ordered.stretch_ne_of_lt (hik : i < k) (hk : k < ls.length) :
    stretch ls k l ≠ stretch ls i j := by
  have hlt := h.start_lt_start hik hk
  intro heq
  exact absurd (congrArg Span.start heq) (Nat.ne_of_gt hlt)

theorem Ordered.stretch_ne_of_gt (hl : 0 < l) (hlj : l < j) (hj : j ≤ ls.length) :
    stretch ls k l ≠ stretch ls i j := by
  have hlt := h.stop_lt_stop (i := l - 1) (j := j - 1) (by omega) (by omega)
  intro heq
  exact absurd (congrArg Span.stop heq) (Nat.ne_of_lt hlt)

/-- The span that covers two stretches goes from the first start to the last stop. -/
theorem Ordered.merge_stretch (hik : i ≤ k) (hkl : k < l) (hjl : j ≤ l) (hl : l ≤ ls.length) :
    (stretch ls i j).merge (stretch ls k l) = stretch ls i l := by
  have hstart := h.start_le_start hik (by omega)
  have hstop := h.stop_le_stop (i := j - 1) (j := l - 1) (by omega) (by omega)
  simp only [Span.merge, stretch, Span.mk.injEq]
  omega

theorem Ordered.cover_drop {n : Nat} (hn : 0 < n) (hk : k + n ≤ ls.length) :
    cover (ls.drop k) n = stretch ls k (k + n) := by
  have hmerge := h.merge_stretch (i := k) (j := k + 1) (k := k + n - 1) (l := k + n) (by omega)
    (by omega) (by omega) hk
  rw [← hmerge, cover, spanAt_drop, spanAt_drop]
  rw [show k + (n - 1) = k + n - 1 by omega]
  rfl

end Ordered

end Lexeme

namespace Tree

/-- The spans of the parameters and the children of a node. -/
def parts (x : Tree) : List Span :=
  x.kind.parameterSymbols.map Symbol.span ++ x.children.map span

/-- A node on a stretch of lexemes, with its parts on shorter ones inside it, in their order. -/
def Spread (ls : List Lexeme) (x : Tree) : Prop :=
  ∃ i j, j ≤ ls.length ∧ Lexeme.Stretches ls i j x.span ∧ Laid (Lexeme.Stretches ls) i j x.parts ∧
    ∀ s ∈ x.parts, s ≠ x.span

/-- A tree on a stretch of lexemes, all of its nodes being spread. -/
def On (ls : List Lexeme) (i j : Nat) (t : Tree) : Prop :=
  Lexeme.Stretches ls i j t.span ∧ ∀ x ∈ t.subtrees, x.Spread ls

section On

variable {ls : List Lexeme} {a b i j : Nat}

theorem On.le {t : Tree} (h : On ls i j t) : i ≤ j :=
  Nat.le_of_lt h.1.1

theorem laid_on_row {α : Type} {tree : Nat → α → Tree} {xs : List α}
    (h : Laid (fun i j x => ∀ n, On ls i j (tree n x)) a b xs) (n : Nat) :
    Laid (On ls) a b (row tree n xs) := by
  induction h generalizing n with
  | nil hle => exact .nil hle
  | cons hle hx _ ih => exact .cons hle (hx n) (ih _)

theorem spread_of_laid {ts : List Tree} (h : Laid (On ls) a b ts) {t x : Tree} (ht : t ∈ ts)
    (hx : x ∈ t.subtrees) :
    x.Spread ls := by
  obtain ⟨i, j, -, -, hon⟩ := h.mem (fun _ _ _ => On.le) ht
  exact hon.2 x hx

theorem on_above {cs : List Tree} {k : Kind} {n : Nat} (hij : i < j) (hj : j ≤ ls.length)
    (hparts : Laid (Lexeme.Stretches ls) i j (k.parameterSymbols.map Symbol.span ++ cs.map span))
    (hne : ∀ s ∈ k.parameterSymbols.map Symbol.span ++ cs.map span, s ≠ Lexeme.stretch ls i j)
    (hcs : ∀ c ∈ cs, ∀ x ∈ c.subtrees, x.Spread ls) :
    On ls i j (above n cs k (Lexeme.stretch ls i j)) := by
  refine ⟨⟨hij, rfl⟩, fun x hx => ?_⟩
  rw [above, subtrees_node, List.mem_append, List.mem_flatMap, List.mem_singleton] at hx
  rcases hx with ⟨c, hc, hx⟩ | rfl
  · exact hcs c hc x hx
  · exact ⟨i, j, hj, ⟨hij, rfl⟩, hparts, hne⟩

variable (h : Lexeme.Ordered ls)

include h

/-- Parts that leave out the first or the last lexeme are shorter than the whole. -/
theorem ne_of_laid {ss : List Span} (hss : Laid (Lexeme.Stretches ls) a b ss) (hj : j ≤ ls.length)
    (hbj : b ≤ j) (hshort : i < a ∨ b < j) : ∀ s ∈ ss, s ≠ Lexeme.stretch ls i j := by
  intro s hs
  obtain ⟨k, l, hk, hl, hkl, rfl⟩ := hss.mem (fun _ _ _ hst => Nat.le_of_lt hst.1) hs
  rcases hshort with hlt | hlt
  · exact h.stretch_ne_of_lt (by omega) (by omega)
  · exact h.stretch_ne_of_gt (by omega) (by omega) hj

theorem on_above_inner {cs : List Tree} {k : Kind} {n : Nat} (hij : i < j)
    (hj : j ≤ ls.length) (hia : i ≤ a) (hbj : b ≤ j) (hshort : i < a ∨ b < j)
    (hk : k.parameterSymbols = []) (hcs : Laid (On ls) a b cs) :
    On ls i j (above n cs k (Lexeme.stretch ls i j)) := by
  have hspans : Laid (Lexeme.Stretches ls) a b
      (k.parameterSymbols.map Symbol.span ++ cs.map span) := by
    rw [hk]
    exact hcs.map fun _ _ _ _ hon => hon.1
  exact on_above hij hj (hspans.widen hia hbj) (ne_of_laid h hspans hj hbj hshort)
    fun c hc x hx => spread_of_laid hcs hc hx

theorem on_leaf {k : Kind} {n : Nat} (hij : i < j) (hj : j ≤ ls.length)
    (hk : k.parameterSymbols = []) :
    On ls i j (above n [] k (Lexeme.stretch ls i j)) :=
  on_above_inner h hij hj (Nat.le_succ i) (Nat.le_refl j) (.inl (Nat.lt_succ_self i)) hk (.nil hij)

end On

section Spread

variable {ls : List Lexeme} (h : Lexeme.Ordered ls) {t x y : Tree}

include h

theorem Spread.nonempty (hx : x.Spread ls) : x.span.start < x.span.stop := by
  obtain ⟨i, j, hj, ⟨hij, hspan⟩, -⟩ := hx
  rw [hspan]
  exact h.stretch_nonempty hij hj

theorem Spread.part (hx : x.Spread ls) {s : Span} (hs : s ∈ x.parts) :
    s.Inside x.span ∧ s.start < s.stop ∧ s ≠ x.span := by
  obtain ⟨i, j, hj, ⟨-, hspan⟩, hparts, hne⟩ := hx
  refine ⟨?_, ?_, hne s hs⟩
  all_goals
    obtain ⟨k, l, hk, hl, hkl, rfl⟩ := hparts.mem (fun _ _ _ hst => Nat.le_of_lt hst.1) hs
  · rw [hspan]
    exact h.stretch_inside hk hkl hl hj
  · exact h.stretch_nonempty hkl (hl.trans hj)

theorem Spread.pairwise (hx : x.Spread ls) : x.parts.Pairwise Span.Before := by
  obtain ⟨i, j, hj, -, hparts, -⟩ := hx
  refine (hparts.pairwise fun _ _ _ hst => Nat.le_of_lt hst.1).imp ?_
  rintro s u ⟨a, b, c, d, ⟨hab, rfl⟩, ⟨hcd, rfl⟩, hbc, hd⟩
  exact h.stretch_before hab hbc hcd (hd.trans hj)

theorem Spread.child (hx : x.Spread ls) {c : Tree} (hc : c ∈ x.children) :
    c.span.Inside x.span ∧ c.span ≠ x.span := by
  have hpart := hx.part h (List.mem_append_right _ (List.mem_map_of_mem hc))
  exact ⟨hpart.1, hpart.2.2⟩

/-- A node is inside every node above it. -/
theorem inside_of_subtree (ht : ∀ y ∈ t.subtrees, y.Spread ls) (hx : x ∈ t.subtrees) :
    x.span.Inside t.span := by
  obtain ⟨above, hpath⟩ := exists_path hx
  clear hx
  induction hpath with
  | root => exact Span.Inside.refl _
  | child hp hc ih => exact ((ht _ hp.mem).child h hc).1.trans ih

/-- Nodes of trees that are disjoint have different spans. -/
theorem eq_of_span_eq_of_disjoint {ts : List Tree} (hts : (ts.map span).Pairwise Span.Before)
    (hspread : ∀ t ∈ ts, ∀ y ∈ t.subtrees, y.Spread ls) {u : Tree} (ht : t ∈ ts) (hu : u ∈ ts)
    (hx : x ∈ t.subtrees) (hy : y ∈ u.subtrees) (heq : x.span = y.span) : t = u := by
  have hdisjoint : ts.Pairwise fun a b => a.span.Before b.span ∨ b.span.Before a.span :=
    (List.pairwise_map.mp hts).imp Or.inl
  have hsymm : Std.Symm fun a b : Tree => a.span.Before b.span ∨ b.span.Before a.span :=
    ⟨fun _ _ => Or.symm⟩
  have hxt := inside_of_subtree h (hspread t ht) hx
  have hyu := inside_of_subtree h (hspread u hu) hy
  by_contra hne
  rcases hdisjoint.forall ht hu hne with hbefore | hbefore
  · exact (hbefore.inside hxt hyu).ne ((hspread t ht x hx).nonempty h) heq
  · exact (hbefore.inside hyu hxt).ne ((hspread u hu y hy).nonempty h) heq.symm

/-- A span belongs to one node. -/
theorem eq_of_span_eq (ht : ∀ y ∈ t.subtrees, y.Spread ls) (hx : x ∈ t.subtrees)
    (hy : y ∈ t.subtrees) (heq : x.span = y.span) : x = y := by
  induction t with
  | node id k s cs ih =>
    -- A node below a child of the root is smaller than the root.
    have hbelow {c z : Tree} (hc : c ∈ cs) (hz : z ∈ c.subtrees) : z.span ≠ s := by
      intro hzs
      obtain ⟨hinside, hne⟩ := (ht _ (self_mem_subtrees _)).child h hc
      have hzc := inside_of_subtree h (fun y hy => ht y (mem_subtrees_of_child hc hy)) hz
      exact hne (hinside.antisymm (hzs ▸ hzc))
    have hchildren : (cs.map span).Pairwise Span.Before :=
      (List.pairwise_append.mp ((ht _ (self_mem_subtrees _)).pairwise h)).2.1
    rw [subtrees_node, List.mem_append, List.mem_flatMap, List.mem_singleton] at hx hy
    rcases hx with ⟨c, hc, hx⟩ | rfl
    · rcases hy with ⟨d, hd, hy⟩ | rfl
      · have hspread : ∀ c ∈ cs, ∀ y ∈ c.subtrees, y.Spread ls :=
          fun c hc y hy => ht y (mem_subtrees_of_child hc hy)
        obtain rfl := eq_of_span_eq_of_disjoint h hchildren hspread hc hd hx hy heq
        exact ih c hc (hspread c hc) hx hy
      · exact absurd heq (hbelow hc hx)
    · rcases hy with ⟨d, hd, hy⟩ | rfl
      · exact absurd heq.symm (hbelow hd hy)
      · rfl

end Spread

end Tree

theorem Expr.span_tree (e : Expr) (n : Nat) : (e.tree n).span = e.span := by
  rcases e with _ | ⟨_, _ | _, _⟩ | _ | _ | _ <;> rfl

/-- The tree of a thing stands on the lexemes from `i` up to `j`, however it is numbered. -/
def Standing {α : Type} (tree : Nat → α → Tree) (ls : List Lexeme) (i j : Nat) (x : α) : Prop :=
  ∀ n, Tree.On ls i j (tree n x)

end DecafCheck
