import DecafCheck.Proofs.Analysis.Places
import DecafCheck.Proofs.Grammar.Earliest
import DecafCheck.Proofs.Grammar.Placement
import DecafCheck.Proofs.Tree.PostOrder

namespace DecafCheck

/-- An offset between two characters of a text or at an end of it. -/
def IsBoundary (source : String) (offset : Nat) : Prop :=
  ∃ before after, source.toList = before ++ after ∧ bytes before = offset

namespace Span

/-- A part of a text, made of whole characters. -/
structure InText (source : String) (s : Span) : Prop where
  start_le_stop : s.start ≤ s.stop
  stop_le : s.stop ≤ source.utf8ByteSize
  start : IsBoundary source s.start
  stop : IsBoundary source s.stop

/-- From the start of a token to the end of that token or a later one. -/
def Aligned (source : String) (s : Span) : Prop :=
  s.start < s.stop ∧ ∃ l m, .ok l ∈ (Scan.ofString source).lexemes ∧
    .ok m ∈ (Scan.ofString source).lexemes ∧
    s = ⟨l.span.start, m.span.stop⟩

/-- The span of a character. -/
def OfChar (source : String) (s : Span) : Prop :=
  ∃ before c after, source.toList = before ++ c :: after ∧
    s = ⟨bytes before, bytes before + c.utf8Size⟩

/-- The span of a token. -/
def OfToken (source : String) (s : Span) : Prop :=
  ∃ l, .ok l ∈ (Scan.ofString source).lexemes ∧ s = l.span

end Span

namespace Forest

/-- The spans of nodes follow the tokens of the text and nest as the nodes do. -/
structure WellSpanned (source : String) (f : Forest) : Prop where
  aligned : ∀ id kind, f.kindOf? id = some kind →
    if kind = .program [] [] then f.spanOf id = ⟨0, source.utf8ByteSize⟩ else
      (f.spanOf id).Aligned source
  inside : ∀ p c, f.Lists p c → (f.spanOf c).Inside (f.spanOf p) ∧
      (f.root ≠ some p → f.spanOf c ≠ f.spanOf p)
  ordered : ∀ id kind, f.kindOf? id = some kind → f.root ≠ some id →
    (kind.children.map f.spanOf).Pairwise Span.Before
  declarations : ∀ id c d, f.root = some id → f.Lists id c → f.Lists id d → c < d →
      (f.spanOf c).Before (f.spanOf d)
  parameters : ∀ id name returns parameters body,
      f.kindOf? id = some (.function name returns parameters body) →
    (parameters.map Parameter.span).Pairwise Span.Before ∧
    ∀ q ∈ parameters, q.span.start < q.span.stop ∧
      q.span.Inside (f.spanOf id) ∧ q.span.Before (f.spanOf body)
  distinct : ∀ a < f.size, ∀ b < f.size, f.root ≠ some a → f.root ≠ some b →
      f.spanOf a = f.spanOf b → a = b

/-- The spans of nodes and of parameters. -/
inductive HasSpan (f : Forest) : Span → Prop
  | node {id : NodeId} {kind : Kind} : f.kindOf? id = some kind → HasSpan f (f.spanOf id)
  | parameter {id body : NodeId} {name : String} {returns : DataType} {parameters : List Parameter}
      {q : Parameter} :
      f.kindOf? id = some (.function name returns parameters body) → q ∈ parameters →
      HasSpan f q.span

end Forest

/-- What is reported about a text is reported there. -/
inductive ReportedAt (policy : Policy) (source : String) : Span → Prop
  | problem {a : Analysis} {d : Diagnostic} : check policy source = .ok a → d ∈ a.log →
      ReportedAt policy source d.span
  | lexical {e : LexicalError} : check policy source = .error (.lexical e) →
      ReportedAt policy source e.span
  | grammar {e : GrammarError} : check policy source = .error (.grammar e) →
      ReportedAt policy source e.span

section Text

variable {source : String}

theorem Scan.located {r : Except LexicalError Lexeme} (h : r ∈ (ofString source).lexemes) :
    ∃ before found after, source.toList = before ++ found ++ after ∧
      Lexer.Found (bytes before) found after r := by
  have htiled : Lexer.Tiled 0 source.toList (ofString source).lexemes :=
    Lexer.tiled_lexemes 0 source.toList
  simpa only [Nat.zero_add] using htiled.located r h

theorem inText_of_append {before found after : List Char}
    (h : source.toList = before ++ found ++ after) :
    Span.InText source ⟨bytes before, bytes before + bytes found⟩ := by
  refine ⟨Nat.le_add_right _ _, ?_, ⟨before, found ++ after, by simpa using h, rfl⟩,
    before ++ found, after, h, ?_⟩
  · rw [← bytes_toList, h, bytes_append, bytes_append]
    exact Nat.le_add_right _ _
  · exact bytes_append before found

theorem Scan.inText {l : Lexeme} (h : .ok l ∈ (ofString source).lexemes) :
    l.span.InText source := by
  obtain ⟨before, found, after, hsource, hfound⟩ := located h
  have hspan : l.span = _ := hfound.span
  rw [hspan]
  exact inText_of_append hsource

theorem Span.OfToken.inText {s : Span} (h : s.OfToken source) : s.InText source := by
  obtain ⟨l, hl, rfl⟩ := h
  exact Scan.inText hl

theorem Span.OfChar.inText {s : Span} (h : s.OfChar source) : s.InText source := by
  obtain ⟨before, c, after, hsource, rfl⟩ := h
  have hsplit : source.toList = before ++ [c] ++ after := by simpa using hsource
  exact inText_of_append hsplit

theorem Span.Aligned.inText {s : Span} (h : s.Aligned source) : s.InText source := by
  obtain ⟨hlt, l, m, hl, hm, rfl⟩ := h
  exact ⟨Nat.le_of_lt hlt, (Scan.inText hm).stop_le, (Scan.inText hl).start, (Scan.inText hm).stop⟩

theorem isBoundary_stop : IsBoundary source source.utf8ByteSize :=
  ⟨source.toList, [], (List.append_nil _).symm, bytes_toList source⟩

theorem isBoundary_start : IsBoundary source 0 :=
  ⟨[], source.toList, rfl, rfl⟩

theorem aligned_stretch {ls : List Lexeme} (h : (Scan.ofString source).tokens = .ok ls)
    {i j : Nat} (hij : i < j) (hj : j ≤ ls.length) : (Lexeme.stretch ls i j).Aligned source := by
  have hmem {k : Nat} (hk : k < ls.length) : .ok ls[k] ∈ (Scan.ofString source).lexemes := by
    rw [Scan.lexemes_eq h]
    exact List.mem_map_of_mem (List.getElem_mem hk)
  refine ⟨(Scan.ordered h).stretch_nonempty hij hj, ls[i], ls[j - 1], hmem _, hmem _, ?_⟩
  rw [Lexeme.stretch, Lexeme.spanAt_eq (by omega), Lexeme.spanAt_eq (by omega)]

theorem Tree.Spread.aligned {ls : List Lexeme} (h : (Scan.ofString source).tokens = .ok ls)
    {x : Tree} (hx : x.Spread ls) {s : Span} (hs : s = x.span ∨ s ∈ x.parts) :
    s.Aligned source := by
  obtain ⟨i, j, hj, ⟨hij, hspan⟩, hparts, -⟩ := hx
  rcases hs with rfl | hs
  · rw [hspan]
    exact aligned_stretch h hij hj
  · obtain ⟨k, l, -, hl, hkl, rfl⟩ := hparts.mem (fun _ _ _ hst => Nat.le_of_lt hst.1) hs
    exact aligned_stretch h hkl (hl.trans hj)

end Text

namespace Program.Placed

variable {length : Nat} {ls : List Lexeme} {p : Program} (h : p.Placed length ls)

include h

/-- Below the program itself, all nodes are spread over the lexemes. -/
theorem spread {x : Tree} (hx : x ∈ p.tree.subtrees) (hne : x ≠ p.tree) : x.Spread ls := by
  rcases List.mem_append.mp (p.subtrees_tree.mem_iff.mp hx) with hx | hx
  · obtain ⟨t, ht, hx⟩ := List.mem_flatMap.mp hx
    exact Tree.spread_of_laid h.declarations ht hx
  · exact absurd (List.mem_singleton.mp hx) hne

theorem spread_declaration {c : Tree} (hc : c ∈ p.tree.children) :
    ∀ x ∈ c.subtrees, x.Spread ls := by
  have hrow := (Declaration.trees_perm 0 p.declarations).mem_iff.mp hc
  exact fun x hx => Tree.spread_of_laid h.declarations hrow hx

theorem span_of_child {c : Tree} (hc : c ∈ p.tree.children) :
    ∃ i j, i < j ∧ j ≤ ls.length ∧ c.span = Lexeme.stretch ls i j ∧
      p.span = Lexeme.stretch ls 0 ls.length := by
  have hrow := (Declaration.trees_perm 0 p.declarations).mem_iff.mp hc
  obtain ⟨i, j, -, hj, hon⟩ := h.declarations.mem (fun _ _ _ => Tree.On.le) hrow
  obtain ⟨d, hd, -⟩ := Tree.mem_row hrow
  have hspan := h.span
  rw [if_neg (List.ne_nil_of_mem hd)] at hspan
  exact ⟨i, j, hon.1.1, hj, hon.1.2, hspan⟩

theorem child_inside {c : Tree} (hc : c ∈ p.tree.children) : c.span.Inside p.tree.span := by
  obtain ⟨i, j, hij, hj, hspan, hroot⟩ := h.span_of_child hc
  have hinside := h.ordered.stretch_inside (Nat.zero_le i) hij hj (Nat.le_refl _)
  rwa [← hspan, ← hroot] at hinside

theorem declarations_before :
    (Tree.row Declaration.tree 0 p.declarations).Pairwise fun c d => c.id < d.id ∧
      c.span.Before d.span := by
  refine List.Pairwise.and (List.pairwise_map.mp p.ascending_row) ?_
  refine (h.declarations.pairwise fun _ _ _ => Tree.On.le).imp ?_
  rintro c d ⟨i, j, k, l, hc, hd, hjk, hl⟩
  rw [hc.1.2, hd.1.2]
  exact h.ordered.stretch_before hc.1.1 hjk hd.1.1 hl

/-- The declarations of a program are numbered in the order they stand in. -/
theorem before_of_lt {c d : Tree} (hc : c ∈ p.tree.children) (hd : d ∈ p.tree.children)
    (hlt : c.id < d.id) :
    c.span.Before d.span := by
  have hperm := Declaration.trees_perm 0 p.declarations
  obtain ⟨i, hi, rfl⟩ := List.mem_iff_getElem.mp (hperm.mem_iff.mp hc)
  obtain ⟨j, hj, rfl⟩ := List.mem_iff_getElem.mp (hperm.mem_iff.mp hd)
  have hpairwise := List.pairwise_iff_getElem.mp h.declarations_before
  rcases Nat.lt_trichotomy i j with hij | rfl | hji
  · exact (hpairwise i j hi hj hij).2
  · exact absurd hlt (Nat.lt_irrefl _)
  · exact absurd (hpairwise j i hj hi hji).1 (Nat.lt_asymm hlt)

theorem eq_of_span_eq {x y : Tree} (hx : x ∈ p.tree.subtrees) (hy : y ∈ p.tree.subtrees)
    (hxp : x ≠ p.tree) (hyp : y ≠ p.tree) (heq : x.span = y.span) : x = y := by
  have hbelow {z : Tree} (hz : z ∈ p.tree.subtrees) (hne : z ≠ p.tree) :
      ∃ t ∈ Tree.row Declaration.tree 0 p.declarations, z ∈ t.subtrees := by
    rcases List.mem_append.mp (p.subtrees_tree.mem_iff.mp hz) with hz | hz
    · exact List.mem_flatMap.mp hz
    · exact absurd (List.mem_singleton.mp hz) hne
  have hspread : ∀ t ∈ Tree.row Declaration.tree 0 p.declarations, ∀ z ∈ t.subtrees, z.Spread ls :=
    fun t ht z hz => Tree.spread_of_laid h.declarations ht hz
  have hdisjoint :
      ((Tree.row Declaration.tree 0 p.declarations).map Tree.span).Pairwise Span.Before :=
    List.pairwise_map.mpr (h.declarations_before.imp And.right)
  obtain ⟨t, ht, hxt⟩ := hbelow hx hxp
  obtain ⟨u, hu, hyu⟩ := hbelow hy hyp
  obtain rfl := Tree.eq_of_span_eq_of_disjoint h.ordered hdisjoint hspread ht hu hxt hyu heq
  exact Tree.eq_of_span_eq h.ordered (hspread t ht) hxt hyu heq

end Program.Placed

theorem Part.kind_ne_program (q : Part) (n : Nat) (vars functions : List NodeId) :
    (q.tree n).kind ≠ .program vars functions := by
  rcases q with g | ⟨_, _, _⟩ | v | s | e
  · exact fun hk => nomatch hk
  · exact fun hk => nomatch hk
  · exact fun hk => nomatch hk
  · rcases s with _ | _ | ⟨_, _, _ | _, _⟩ | _ | _ | _ <;> exact fun hk => nomatch hk
  · rcases e with _ | ⟨_, _ | _, _⟩ | _ | _ | _ <;> exact fun hk => nomatch hk

namespace Program

variable {p : Program}

theorem kind_ne_program {x : Tree} (hx : x ∈ p.tree.subtrees) (hne : x ≠ p.tree)
    (vars functions : List NodeId) :
    x.kind ≠ .program vars functions := by
  obtain ⟨above, hpath⟩ := Tree.exists_path hx
  rcases path_part hpath with ⟨-, rfl⟩ | ⟨-, q, m, rfl⟩
  · exact absurd rfl hne
  · exact q.kind_ne_program m vars functions

theorem kind_eq_empty_iff : p.tree.kind = .program [] [] ↔ p.declarations = [] := by
  have hperm := Declaration.trees_perm 0 p.declarations
  constructor
  · intro hk
    obtain ⟨hvars, hfunctions⟩ := Kind.program.inj hk
    rw [List.map_eq_nil_iff.mp hvars, List.map_eq_nil_iff.mp hfunctions] at hperm
    have hrow := hperm.nil_eq
    cases hds : p.declarations with
    | nil => rfl
    | cons d ds =>
      rw [hds] at hrow
      cases hrow
  · intro hds
    simp [tree, hds, Declaration.variableTrees, Declaration.functionTrees, Declaration.trees]

variable {source : String} {ls : List Lexeme} (hls : (Scan.ofString source).tokens = .ok ls)
  (h : p.Placed source.utf8ByteSize ls)

include hls h

theorem aligned_program (hds : p.declarations ≠ []) : p.span.Aligned source := by
  obtain ⟨d, ds, hds⟩ := List.exists_cons_of_ne_nil hds
  obtain ⟨m, hm⟩ := p.child_of_declaration (hds ▸ List.mem_cons_self : d ∈ p.declarations)
  obtain ⟨i, j, hij, hj, -, hspan⟩ := h.span_of_child hm
  rw [hspan]
  exact aligned_stretch hls (by omega) (Nat.le_refl _)

theorem inText_of_place {s : Span} (hs : s ∈ p.tree.places) : s.InText source := by
  obtain ⟨x, hx, hs⟩ := List.mem_flatMap.mp hs
  by_cases hxp : x = p.tree
  · subst hxp
    obtain rfl : s = p.span := by simpa [tree, Kind.parameterSymbols] using hs
    by_cases hds : p.declarations = []
    · have hspan := h.span
      rw [if_pos hds] at hspan
      rw [hspan]
      exact ⟨Nat.zero_le _, Nat.le_refl _, isBoundary_start, isBoundary_stop⟩
    · exact (aligned_program hls h hds).inText
  · refine ((h.spread hx hxp).aligned hls ?_).inText
    exact (List.mem_cons.mp hs).imp id (List.mem_append_left _)

theorem aligned_of_kindOf? {id : NodeId} {kind : Kind} (hk : p.grown.kindOf? id = some kind) :
    if kind = .program [] [] then p.grown.spanOf id = ⟨0, source.utf8ByteSize⟩
    else (p.grown.spanOf id).Aligned source := by
  obtain ⟨x, hx, rfl, rfl⟩ := p.grown_carries.of_kindOf? hk
  rw [p.grown_carries.span x hx]
  by_cases hxp : x = p.tree
  · subst hxp
    have hspan := h.span
    split
    · next hk => rwa [if_pos (kind_eq_empty_iff.mp hk)] at hspan
    · next hk => exact aligned_program hls h fun hds => hk (kind_eq_empty_iff.mpr hds)
  · rw [if_neg (kind_ne_program hx hxp [] [])]
    exact (h.spread hx hxp).aligned hls (.inl rfl)

omit hls

theorem inside_of_lists {q c : NodeId} (hl : p.grown.Lists q c) :
    (p.grown.spanOf c).Inside (p.grown.spanOf q) ∧
      (p.grown.root ≠ some q → p.grown.spanOf c ≠ p.grown.spanOf q) := by
  have hcarries := p.grown_carries
  obtain ⟨x, hx, rfl, d, hd, rfl⟩ := hcarries.mem_links_iff.mp (Forest.mem_links.mpr hl)
  rw [hcarries.span x hx, hcarries.span d (Tree.subtrees_trans hx (Tree.child_mem_subtrees hd))]
  by_cases hxp : x = p.tree
  · subst hxp
    exact ⟨h.child_inside hd, fun hr => absurd hcarries.root hr⟩
  · obtain ⟨hinside, hne⟩ := (h.spread hx hxp).child h.ordered hd
    exact ⟨hinside, fun _ => hne⟩

omit h in
theorem ne_tree_of_not_root {x : Tree} (hr : p.grown.root ≠ some x.id) : x ≠ p.tree := by
  rintro rfl
  exact hr p.grown_carries.root

theorem ordered_of_kindOf? {id : NodeId} {kind : Kind} (hk : p.grown.kindOf? id = some kind)
    (hr : p.grown.root ≠ some id) : (kind.children.map p.grown.spanOf).Pairwise Span.Before := by
  have hcarries := p.grown_carries
  obtain ⟨x, hx, rfl, rfl⟩ := hcarries.of_kindOf? hk
  have hspans : x.kind.children.map p.grown.spanOf = x.children.map Tree.span := by
    rw [hcarries.listed x hx, List.map_map]
    exact List.map_congr_left
      fun c hc => hcarries.span c (Tree.subtrees_trans hx (Tree.child_mem_subtrees hc))
  rw [hspans]
  have hspread := h.spread hx (ne_tree_of_not_root hr)
  exact (List.pairwise_append.mp (hspread.pairwise h.ordered)).2.1

omit h in
/-- What the root lists stands right below the program. -/
theorem child_of_root_lists {id c : NodeId} (hr : p.grown.root = some id)
    (hc : p.grown.Lists id c) :
    ∃ t ∈ p.tree.children, t.id = c := by
  have hcarries := p.grown_carries
  obtain ⟨x, hx, hxid, t, ht, htc⟩ := hcarries.mem_links_iff.mp (Forest.mem_links.mpr hc)
  have hxp : x.id = p.tree.id := hxid.trans (Option.some.inj (hr.symm.trans hcarries.root))
  rw [Tree.eq_of_id_eq hcarries.distinct hx p.tree.self_mem_subtrees hxp] at ht
  exact ⟨t, ht, htc⟩

theorem before_of_root_lists {id c d : NodeId} (hr : p.grown.root = some id)
    (hc : p.grown.Lists id c) (hd : p.grown.Lists id d) (hlt : c < d) :
    (p.grown.spanOf c).Before (p.grown.spanOf d) := by
  obtain ⟨t, ht, rfl⟩ := child_of_root_lists hr hc
  obtain ⟨u, hu, rfl⟩ := child_of_root_lists hr hd
  rw [p.grown_carries.span t (Tree.child_mem_subtrees ht),
    p.grown_carries.span u (Tree.child_mem_subtrees hu)]
  exact h.before_of_lt ht hu hlt

theorem parameters_of_kindOf? {id body : NodeId} {name : String} {returns : DataType}
    {parameters : List Parameter}
    (hk : p.grown.kindOf? id = some (.function name returns parameters body)) :
    (parameters.map Parameter.span).Pairwise Span.Before ∧
      ∀ q ∈ parameters, q.span.start < q.span.stop ∧ q.span.Inside (p.grown.spanOf id) ∧
        q.span.Before (p.grown.spanOf body) := by
  have hcarries := p.grown_carries
  obtain ⟨x, hx, rfl, hkind⟩ := hcarries.of_kindOf? hk
  have hxp : x ≠ p.tree := by
    rintro rfl
    cases hkind
  obtain ⟨b, hb, hbody⟩ : ∃ b, x.children = [b] ∧ b.id = body := by
    have hlisted := hcarries.listed x hx
    rw [hkind] at hlisted
    exact List.map_eq_singleton_iff.mp hlisted.symm
  have hbmem : b ∈ p.tree.subtrees :=
    Tree.subtrees_trans hx (Tree.child_mem_subtrees (hb ▸ List.mem_singleton_self b))
  -- Parameters are no nodes: they stand among the parts of their function, before its body.
  have hparts : x.parts = parameters.map Parameter.span ++ [b.span] := by
    simp [Tree.parts, hkind, Kind.parameterSymbols, hb, Function.comp_def, Symbol.ofParameter]
  have hspread := h.spread hx hxp
  have hpairwise := hspread.pairwise h.ordered
  rw [hparts, List.pairwise_append] at hpairwise
  rw [← hbody, hcarries.span b hbmem, hcarries.span x hx]
  refine ⟨hpairwise.1, fun q hq => ?_⟩
  have hq' := List.mem_map_of_mem (f := Parameter.span) hq
  obtain ⟨hinside, hpos, -⟩ := hspread.part h.ordered (hparts ▸ List.mem_append_left _ hq')
  exact ⟨hpos, hinside, hpairwise.2.2 _ hq' _ (List.mem_singleton_self _)⟩

theorem id_eq_of_spanOf_eq {a b : NodeId} (ha : a < p.grown.size) (hb : b < p.grown.size)
    (hra : p.grown.root ≠ some a) (hrb : p.grown.root ≠ some b)
    (heq : p.grown.spanOf a = p.grown.spanOf b) : a = b := by
  have hcarries := p.grown_carries
  obtain ⟨x, hx, rfl⟩ := hcarries.tree_of_lt ha
  obtain ⟨y, hy, rfl⟩ := hcarries.tree_of_lt hb
  rw [hcarries.span x hx, hcarries.span y hy] at heq
  rw [h.eq_of_span_eq hx hy (ne_tree_of_not_root hra) (ne_tree_of_not_root hrb) heq]

include hls

theorem grown_wellSpanned : p.grown.WellSpanned source where
  aligned _ _ := aligned_of_kindOf? hls h
  inside _ _ := inside_of_lists h
  ordered _ _ := ordered_of_kindOf? h
  declarations _ _ _ := before_of_root_lists h
  parameters _ _ _ _ _ := parameters_of_kindOf? h
  distinct _ ha _ hb := id_eq_of_spanOf_eq h ha hb

omit hls h in
theorem hasSpan_of_place {s : Span} (hs : s ∈ p.tree.places) : p.grown.HasSpan s := by
  obtain ⟨x, hx, hs⟩ := List.mem_flatMap.mp hs
  have hk := p.grown_carries.kind x hx
  rcases List.mem_cons.mp hs with rfl | hs
  · rw [← p.grown_carries.span x hx]
    exact .node hk
  · cases hkind : x.kind
    case function name returns parameters body =>
      simp only [hkind, Kind.parameterSymbols, List.map_map, List.mem_map] at hs
      obtain ⟨q, hq, rfl⟩ := hs
      rw [hkind] at hk
      exact .parameter hk hq
    all_goals
      rw [hkind] at hs
      cases hs

end Program

section Errors

variable {source : String}

theorem Cursor.mem_of_split {results : List (Except LexicalError Lexeme)} {e : LexicalError}
    (h : (split results).2 = some e) : .error e ∈ results := by
  induction results with
  | nil => cases h
  | cons r results ih =>
    cases r with
    | error e' =>
      cases h
      exact List.mem_cons_self
    | ok l => exact List.mem_cons_of_mem _ (ih h)

theorem Scan.ofChar_of_error {e : LexicalError} (h : .error e ∈ (ofString source).lexemes) :
    e.span.OfChar source := by
  obtain ⟨before, found, after, hsource, hfound⟩ := located h
  cases hfound with
  | @invalid c _ hnone => exact ⟨before, c, after, by simpa using hsource, rfl⟩

theorem Scan.ofChar_of_invalid {e : LexicalError} (h : (ofString source).invalid? = some e) :
    e.span.OfChar source :=
  ofChar_of_error (Cursor.mem_of_split h)

theorem Scan.span_of_place {k : Nat} (hk : k < (ofString source).places.length) :
    ((ofString source).start.forward k).span = ⟨source.utf8ByteSize, source.utf8ByteSize⟩ ∨
      ((ofString source).start.forward k).span.OfToken source := by
  obtain ⟨⟨t, span⟩, hplace⟩ : ∃ place, (ofString source).places[k]? = some place :=
    ⟨_, List.getElem?_eq_getElem hk⟩
  rw [span_of_places hplace]
  rcases List.mem_append.mp (List.mem_of_getElem? hplace) with hmem | hmem
  · obtain ⟨l, hl, heq⟩ := List.mem_map.mp hmem
    cases heq
    exact .inr ⟨l, mem_of_valid hl, rfl⟩
  · split at hmem
    · cases hmem
    · cases List.mem_singleton.mp hmem
      rw [← bytes_toList]
      exact .inl rfl

/-- A text that is refused is refused at one of its characters, at one of its tokens or at its
end. -/
theorem check_error {policy : Policy} {stop : Stop} (h : check policy source = .error stop) :
    (∃ e, stop = .lexical e ∧ e.span.OfChar source) ∨
    ∃ e, stop = .grammar e ∧ (e.span = ⟨source.utf8ByteSize, source.utf8ByteSize⟩ ∨
      e.span.OfToken source) := by
  have hends := Scan.ends_parse source
  cases hp : Program.parse source with
  | ok p =>
    obtain ⟨types, -, hcheck⟩ := check_of_parse_ok hp policy
    cases hcheck.symm.trans h
  | error e =>
    rw [hp] at hends
    obtain rfl := Except.error.inj ((check_of_parse_error hp policy).symm.trans h)
    cases hends with
    | @grammar g k hk hspan =>
      refine .inr ⟨g, rfl, ?_⟩
      rw [hspan]
      exact Scan.span_of_place hk
    | invalid hinvalid => exact .inl ⟨_, rfl, Scan.ofChar_of_invalid hinvalid⟩
    | taken hinvalid => exact .inl ⟨_, rfl, Scan.ofChar_of_invalid hinvalid⟩

end Errors

/-- The nodes of a text have spans that follow its tokens and nest as the nodes do. Its problems are
reported at nodes and parameters, and if it cannot be read, this is reported at a character, at a
token or at the end; all of these are parts of the text. -/
theorem spans_follow_text (source : String) :
    (∀ f, Forest.parse source = .ok f → f.WellSpanned source ∧
      ∀ policy, ∃ a, check policy source = .ok a ∧ ∀ d ∈ a.log, f.HasSpan d.span) ∧
    (∀ e, .error e ∈ (Scan.ofString source).lexemes → e.span.OfChar source) ∧
    (∀ policy stop, check policy source = .error stop →
      (∃ e, stop = .lexical e ∧ e.span.OfChar source) ∨
      ∃ e, stop = .grammar e ∧ (e.span = ⟨source.utf8ByteSize, source.utf8ByteSize⟩ ∨
        e.span.OfToken source)) ∧
    ∀ policy span, ReportedAt policy source span → span.InText source := by
  refine ⟨fun f hf => ?_, fun e he => Scan.ofChar_of_error he, fun policy stop h => check_error h,
    fun policy span h => ?_⟩
  · obtain ⟨p, hp, rfl⟩ := Forest.parse_eq_ok_iff.mp hf
    obtain ⟨ls, hls, hplaced⟩ := Program.placed_of_parse hp
    refine ⟨Program.grown_wellSpanned hls hplaced, fun policy => ?_⟩
    obtain ⟨types, -, hcheck⟩ := check_of_parse_ok hp policy
    exact ⟨_, hcheck, fun d hd => Program.hasSpan_of_place (p.log_at policy d hd)⟩
  · cases h with
    | @problem a d hcheck hd =>
      cases hp : Program.parse source with
      | error e => cases (check_of_parse_error hp policy).symm.trans hcheck
      | ok p =>
        obtain ⟨types, -, hok⟩ := check_of_parse_ok hp policy
        obtain rfl := Except.ok.inj (hok.symm.trans hcheck)
        obtain ⟨ls, hls, hplaced⟩ := Program.placed_of_parse hp
        exact Program.inText_of_place hls hplaced (p.log_at policy d hd)
    | lexical hcheck =>
      rcases check_error hcheck with ⟨e, he, hchar⟩ | ⟨e, he, -⟩
      · obtain rfl := Stop.lexical.inj he
        exact hchar.inText
      · cases he
    | grammar hcheck =>
      rcases check_error hcheck with ⟨e, he, -⟩ | ⟨e, he, hend | htoken⟩
      · cases he
      · obtain rfl := Stop.grammar.inj he
        rw [hend]
        exact ⟨Nat.le_refl _, Nat.le_refl _, isBoundary_stop, isBoundary_stop⟩
      · obtain rfl := Stop.grammar.inj he
        exact htoken.inText

theorem spans_follow_text_parameters :
    ∃ f, Forest.parse "def int f(int a, bool a) \x7b return (b - 1) - (2); \x7d int b;" = .ok f ∧
      f.WellSpanned "def int f(int a, bool a) \x7b return (b - 1) - (2); \x7d int b;" ∧
      f.HasSpan ⟨17, 23⟩ ∧
      (⟨17, 23⟩ : Span).InText
        "def int f(int a, bool a) \x7b return (b - 1) - (2); \x7d int b;" := by
  apply exists_ok_of_isSome (by decide +kernel)
  intro f hf
  obtain ⟨hparsed, -, -, hreported⟩ :=
    spans_follow_text "def int f(int a, bool a) \x7b return (b - 1) - (2); \x7d int b;"
  obtain ⟨hspanned, hlog⟩ := hparsed f hf
  obtain ⟨a, ha, hspans⟩ := hlog {}
  have hreports :
      ((check {} "def int f(int a, bool a) \x7b return (b - 1) - (2); \x7d int b;").toOption.map
      fun a => a.log.map Diagnostic.span) = some [⟨17, 23⟩, ⟨0, 57⟩] := by decide +kernel
  have hplaces : a.log.map Diagnostic.span = [⟨17, 23⟩, ⟨0, 57⟩] := by
    rw [ha] at hreports
    exact Option.some.inj hreports
  have hmem : (⟨17, 23⟩ : Span) ∈ a.log.map Diagnostic.span := by
    rw [hplaces]
    exact List.mem_cons_self
  obtain ⟨d, hd, hspan⟩ := List.mem_map.mp hmem
  rw [← hspan]
  exact ⟨hspanned, hspans d hd, hreported {} d.span (.problem ha hd)⟩

end DecafCheck
