import DecafCheck.Proofs.Grammar.Placement
import DecafCheck.Proofs.Token.Locality
import DecafCheck.Proofs.Tree.Sketch

namespace DecafCheck

open DecafCheck.Tree

/-- A way to see spans that goes with covering them. -/
def Span.Merges (φ : Span → Span) : Prop :=
  ∀ s t, φ (s.merge t) = (φ s).merge (φ t)

theorem Span.merges_relative (offset : Nat) : Merges (relative offset) := by
  intro s t
  simp only [relative, merge, mk.injEq]
  omega

namespace Lexeme

variable {φ φ' : Span → Span} {ls ls' : List Lexeme} {count n k : Nat}

/-- The spans of the first lexemes are seen alike. -/
def Match (φ φ' : Span → Span) (count : Nat) (ls ls' : List Lexeme) : Prop :=
  ∀ i < count, φ (spanAt ls i) = φ' (spanAt ls' i)

theorem Match.drop (h : Match φ φ' count ls ls') (hk : k + n ≤ count) :
    Match φ φ' n (ls.drop k) (ls'.drop k) := by
  intro i hi
  rw [spanAt_drop, spanAt_drop]
  exact h (k + i) (by omega)

theorem Match.take (h : Match φ φ' count ls ls') (hn : n ≤ count) : Match φ φ' n ls ls' :=
  fun i hi => h i (Nat.lt_of_lt_of_le hi hn)

theorem Match.cover (hφ : Span.Merges φ) (hφ' : Span.Merges φ') (h : Match φ φ' count ls ls')
    (hpos : 0 < n) (hn : n ≤ count) : φ (cover ls n) = φ' (cover ls' n) := by
  rw [Lexeme.cover, Lexeme.cover, hφ, hφ', h 0 (by omega), h (n - 1) (by omega)]

end Lexeme

namespace Form

variable {δ α : Type} {F : Form δ α} {φ φ' : Span → Span} {R : α → α → Prop}

/-- Along lexemes that match, the derivation stands for things that are alike. -/
def Matches (F : Form δ α) (φ φ' : Span → Span) (R : α → α → Prop) (d : δ) : Prop :=
  ∀ ls ls', Lexeme.Match φ φ' (F.tokens d).length ls ls' → R (F.along ls d) (F.along ls' d)

theorem Matches.behind {t : Token} {d : δ} (h : F.Matches φ φ' R d) :
    (F.behind t).Matches φ φ' R d := by
  intro ls ls' hls
  exact h _ _ (hls.drop (k := 1) (by rw [Form.behind, List.length_cons]; omega))

theorem matches_many {ds : List δ} (h : ∀ d ∈ ds, F.Matches φ φ' R d) :
    F.many.Matches φ φ' (List.Forall₂ R) ds := by
  induction ds with
  | nil => exact fun _ _ _ => .nil
  | cons d ds ih =>
    intro ls ls' hls
    rw [tokens_many_cons, List.length_append] at hls
    refine .cons (h d List.mem_cons_self ls ls' (hls.take (by omega))) ?_
    exact ih (fun e he => h e (List.mem_cons_of_mem d he)) _ _ (hls.drop (Nat.le_refl _))

theorem matches_row {ds : List δ} (h : ∀ d ∈ ds, F.Matches φ φ' R d) :
    F.row.Matches φ φ' (List.Forall₂ R) ds := by
  cases ds with
  | nil => exact fun _ _ _ => .nil
  | cons d ds =>
    intro ls ls' hls
    rw [tokens_row_cons, List.length_append] at hls
    refine .cons (h d List.mem_cons_self ls ls' (hls.take (by omega))) ?_
    have hlater := matches_many fun e he => (h e (List.mem_cons_of_mem d he)).behind
      (t := .mark .comma)
    exact hlater _ _ (hls.drop (Nat.le_refl _))

theorem matches_parenthesized {ds : List δ} (h : ∀ d ∈ ds, F.Matches φ φ' R d) :
    F.parenthesized.Matches φ φ' (List.Forall₂ R) ds := by
  intro ls ls' hls
  refine matches_row h _ _ (hls.drop (k := 1) ?_)
  rw [tokens_parenthesized, List.length_cons, List.length_append]
  omega

end Form

theorem Expr.span_of_sketched {φ φ' : Span → Span} {e e' : Expr} (h : Sketched φ φ' tree e e') :
    φ e.span = φ' e'.span := by
  have hspan := congrArg Tree.span (h 0 0)
  rwa [span_sketch, span_sketch, span_tree, span_tree] at hspan

namespace Concrete

open Lexeme

variable {φ φ' : Span → Span} (hφ : Span.Merges φ) (hφ' : Span.Merges φ')

theorem Expr.matches_index {i : Option Expr}
    (hi : ∀ d ∈ i, (form 0).Matches φ φ' (Sketched φ φ' DecafCheck.Expr.tree) d)
    {ls ls' : List Lexeme} (h : Match φ φ' (index.tokens i).length ls ls') :
    List.Forall₂ (Sketched φ φ' DecafCheck.Expr.tree) (index.along ls i).toList
      (index.along ls' i).toList := by
  cases i with
  | none => exact .nil
  | some d =>
    refine .cons (hi d rfl _ _ (h.drop (k := 1) ?_)) .nil
    simp only [index, tokens_form, List.length_cons, List.length_append]
    omega

include hφ hφ'

theorem Expr.matches {d : Expr} (hd : d.Proper) :
    (form 0).Matches φ φ' (Sketched φ φ' DecafCheck.Expr.tree) d := by
  induction hd with
  | integer | truth =>
    intro ls ls' hls
    exact DecafCheck.Expr.sketched_literal _ (hls 0 Nat.zero_lt_one)
  | @location name i _ ih =>
    intro ls ls' hls
    rw [tokens_form] at hls
    have hspan := hls.cover hφ hφ' (Nat.succ_pos _)
      (Nat.le_of_eq (congrArg List.length (tokens_location name i)).symm)
    rw [tokens_location, List.length_cons] at hls
    rw [along_form, along_form, along_location, along_location, tokens_location]
    exact DecafCheck.Expr.sketched_location name hspan (matches_index ih (hls.drop (by omega)))
  | @call name ds _ ih =>
    intro ls ls' hls
    rw [tokens_form] at hls
    have hspan := hls.cover hφ hφ' (Nat.succ_pos _)
      (Nat.le_of_eq (congrArg List.length (tokens_call name ds)).symm)
    rw [tokens_call, List.length_cons] at hls
    rw [along_form, along_form, along_call, along_call, tokens_call]
    exact DecafCheck.Expr.sketched_call name hspan
      (Form.matches_parenthesized ih _ _ (hls.drop (by omega)))
  | group _ ih =>
    intro ls ls' hls
    simp only [tokens_form, tokens_group, List.length_cons, List.length_append] at hls
    exact ih _ _ (hls.drop (k := 1) (by rw [tokens_form]; omega))
  | unary _ _ ih =>
    intro ls ls' hls
    simp only [tokens_form, tokens, List.length_cons] at hls
    have hoperand := ih _ _ (hls.drop (k := 1) (by rw [tokens_form]; omega))
    refine DecafCheck.Expr.sketched_unary _ ?_ hoperand
    rw [hφ, hφ', hls 0 (Nat.succ_pos _)]
    exact congrArg _ (DecafCheck.Expr.span_of_sketched hoperand)
  | @binary op l r _ _ _ _ ihl ihr =>
    intro ls ls' hls
    simp only [tokens_form, tokens, List.length_append, List.length_cons] at hls
    have hl := ihl _ _ (hls.take (by rw [tokens_form]; omega))
    have hr := ihr _ _ (hls.drop (k := l.tokens.length + 1) (by rw [tokens_form]; omega))
    refine DecafCheck.Expr.sketched_binary _ ?_ hl hr
    rw [hφ, hφ']
    exact congrArg₂ _ (DecafCheck.Expr.span_of_sketched hl) (DecafCheck.Expr.span_of_sketched hr)

theorem Variable.matches (v : Variable) :
    Variable.form.Matches φ φ' (Sketched φ φ' DecafCheck.Variable.tree) v :=
  fun _ _ hls => DecafCheck.Variable.sketched rfl rfl rfl
    (hls.cover hφ hφ' (Nat.succ_pos _) (Nat.le_refl _))

omit hφ hφ' in
theorem Expr.matches_options {d : Option Expr}
    (hd : ∀ e ∈ d, (form 0).Matches φ φ' (Sketched φ φ' DecafCheck.Expr.tree) e)
    {ls ls' : List Lexeme} (h : Match φ φ' (valueForm.tokens d).length ls ls') :
    List.Forall₂ (Sketched φ φ' DecafCheck.Expr.tree) (d.map (along ls)).toList
      (d.map (along ls')).toList := by
  cases d with
  | none => exact .nil
  | some e => exact .cons (hd e rfl ls ls' h) .nil

theorem Stmt.cover_eq (s : Stmt) {ls ls' : List Lexeme}
    (h : Match φ φ' (Stmt.form.tokens s).length ls ls') :
    φ (cover ls s.tokens.length) = φ' (cover ls' s.tokens.length) := by
  obtain ⟨ts, hts⟩ := s.exists_tokens_eq
  exact h.cover hφ hφ' (by rw [hts]; exact Nat.succ_pos _) (Nat.le_refl _)

theorem Stmt.matches_assign {name : String} {i : Option Expr} {v : Expr} (hi : ∀ d ∈ i, d.Proper)
    (hv : v.Proper) :
    Stmt.form.Matches φ φ' (Sketched φ φ' DecafCheck.Stmt.tree) (.assign name i v) := by
  intro ls ls' hls
  have hspan := cover_eq hφ hφ' _ hls
  have hproper : (Expr.location name i).Proper := .location hi
  have hlocation := Expr.matches hφ hφ' hproper ls ls'
  have hvalue := Expr.matches hφ hφ' hv (ls.drop ((Expr.location name i).tokens.length + 1))
    (ls'.drop ((Expr.location name i).tokens.length + 1))
  simp only [Expr.tokens_form, Expr.along_form, Expr.along_location, Expr.index,
    List.drop_drop] at hlocation hvalue
  simp only [Stmt.form, Stmt.tokens_assign, List.length_append, List.length_cons] at hls
  exact DecafCheck.Stmt.sketched_assign name hspan (hlocation (hls.take (by omega)))
    (hvalue (hls.drop (by omega)))

theorem Stmt.matches_call {name : String} {ds : List Expr} (hds : ∀ d ∈ ds, d.Proper) :
    Stmt.form.Matches φ φ' (Sketched φ φ' DecafCheck.Stmt.tree) (.call name ds) := by
  intro ls ls' hls
  have hspan := cover_eq hφ hφ' _ hls
  have hrow := Form.matches_row (fun d hd => Expr.matches hφ hφ' (hds d hd))
    (ls.drop 2) (ls'.drop 2)
  rw [← Expr.alongRow_eq, ← Expr.alongRow_eq] at hrow
  simp only [Stmt.form, Stmt.tokens_call, Expr.tokens_call, Form.tokens_parenthesized,
    List.length_append, List.length_cons] at hls
  exact DecafCheck.Stmt.sketched_call name hspan (hrow (hls.drop (by omega)))

theorem Stmt.matches_ret {d : Option Expr} (hd : ∀ e ∈ d, e.Proper) :
    Stmt.form.Matches φ φ' (Sketched φ φ' DecafCheck.Stmt.tree) (.ret d) := by
  intro ls ls' hls
  have hspan := cover_eq hφ hφ' _ hls
  simp only [Stmt.form, Stmt.tokens_ret, List.length_append, List.length_cons] at hls
  exact DecafCheck.Stmt.sketched_ret hspan
    (Expr.matches_options (fun e he => Expr.matches hφ hφ' (hd e he))
      (hls.drop (k := 1) (by omega)))

theorem Block.matches_mk {vars : List Variable} {ss : List Stmt}
    (hss : ∀ s ∈ ss, Stmt.form.Matches φ φ' (Sketched φ φ' DecafCheck.Stmt.tree) s) :
    Block.form.Matches φ φ' (Sketched φ φ' DecafCheck.Block.tree) (.mk vars ss) := by
  intro ls ls' hls
  have hspan := hls.cover hφ hφ' (Nat.succ_pos _) (Nat.le_refl (Block.tokens (.mk vars ss)).length)
  have hvars := Form.matches_many (fun v (_ : v ∈ vars) => Variable.matches hφ hφ' v)
  simp only [Block.form, Block.tokens_mk, List.length_append, List.length_cons] at hls
  have hstatements := Form.matches_many hss _ _
    (hls.drop (k := 1 + (Variable.form.many.tokens vars).length) (by omega))
  rw [← Stmt.alongAll_eq, ← Stmt.alongAll_eq] at hstatements
  exact DecafCheck.Block.sketched_mk hspan (hvars _ _ (hls.drop (k := 1) (by omega))) hstatements

mutual

theorem Stmt.matches :
    ∀ {s : Stmt}, s.Proper → Stmt.form.Matches φ φ' (Sketched φ φ' DecafCheck.Stmt.tree) s
  | .assign _ _ _, .assign hi hv => Stmt.matches_assign hφ hφ' hi hv
  | .call _ _, .call hds => Stmt.matches_call hφ hφ' hds
  | .branch d yes none, .branch hd hyes _ => by
    intro ls ls' hls
    have hspan := Stmt.cover_eq hφ hφ' _ hls
    have hcondition := Expr.matches hφ hφ' hd (ls.drop 2) (ls'.drop 2)
    have hblock := Block.matches hyes (ls.drop (d.tokens.length + 3))
      (ls'.drop (d.tokens.length + 3))
    simp only [Stmt.form, Stmt.tokens, Block.elseTokens, List.length_append,
      List.length_cons] at hls
    exact DecafCheck.Stmt.sketched_branch hspan
      (hcondition (hls.drop (by rw [Expr.tokens_form]; omega)))
      (hblock (hls.drop (by simp only [Block.form]; omega))) .nil
  | .branch d yes (some no), .branch hd hyes hno => by
    intro ls ls' hls
    have hspan := Stmt.cover_eq hφ hφ' _ hls
    have hcondition := Expr.matches hφ hφ' hd (ls.drop 2) (ls'.drop 2)
    have hblock := Block.matches hyes (ls.drop (d.tokens.length + 3))
      (ls'.drop (d.tokens.length + 3))
    have hother := Block.matches (hno no rfl)
      (ls.drop (d.tokens.length + 3 + yes.tokens.length + 1))
      (ls'.drop (d.tokens.length + 3 + yes.tokens.length + 1))
    simp only [Stmt.form, Stmt.tokens, Block.elseTokens, List.length_append,
      List.length_cons] at hls
    simp only [Block.form] at hother
    refine DecafCheck.Stmt.sketched_branch hspan
      (hcondition (hls.drop (by rw [Expr.tokens_form]; omega)))
      (hblock (hls.drop (by simp only [Block.form]; omega))) (.cons ?_ .nil)
    rw [List.drop_drop, List.drop_drop]
    exact hother (hls.drop (by omega))
  | .loop d body, .loop hd hbody => by
    intro ls ls' hls
    have hspan := Stmt.cover_eq hφ hφ' _ hls
    have hguard := Expr.matches hφ hφ' hd (ls.drop 2) (ls'.drop 2)
    have hblock := Block.matches hbody (ls.drop (d.tokens.length + 3))
      (ls'.drop (d.tokens.length + 3))
    simp only [Stmt.form, Stmt.tokens, List.length_append, List.length_cons] at hls
    exact DecafCheck.Stmt.sketched_loop hspan (hguard (hls.drop (by rw [Expr.tokens_form]; omega)))
      (hblock (hls.drop (by simp only [Block.form]; omega)))
  | .ret _, .ret hd => Stmt.matches_ret hφ hφ' hd
  | .jump _, .jump => fun _ _ hls => DecafCheck.Stmt.sketched_jump _ (Stmt.cover_eq hφ hφ' _ hls)

theorem Block.matches :
    ∀ {b : Block}, b.Proper → Block.form.Matches φ φ' (Sketched φ φ' DecafCheck.Block.tree) b
  | .mk _ _, .mk _ hss => Block.matches_mk hφ hφ' fun s hs => Stmt.matches (hss s hs)

end

theorem Function.matches {g : Function} (hg : g.Proper) :
    Function.form.Matches φ φ' (Sketched φ φ' DecafCheck.Function.tree) g := by
  intro ls ls' hls
  have hspan := hls.cover hφ hφ' (Nat.succ_pos _) (Nat.le_refl g.tokens.length)
  have hone (q : Parameter) :
      Parameter.form.Matches φ φ' (fun p p' => p.moved φ = p'.moved φ') q := by
    intro ls ls' hls
    have hspan := hls.cover hφ hφ' (Nat.succ_pos 1) (Nat.le_refl _)
    simp only [Parameter.form, Parameter.moved, hspan]
  have hparameters := Form.matches_parenthesized (fun q (_ : q ∈ g.parameters) => hone q)
  simp only [Function.form, tokens, List.length_append, List.length_cons] at hls
  have hbody := Block.matches hφ hφ' hg _ _
    (hls.drop (k := 3 + (Parameter.form.parenthesized.tokens g.parameters).length)
      (by simp only [Block.form]; omega))
  refine DecafCheck.Function.sketched rfl rfl ?_ hbody hspan
  have hmoved := hparameters _ _ (hls.drop (k := 3) (by omega))
  rw [← List.forall₂_eq_eq_eq, List.forall₂_map_left_iff, List.forall₂_map_right_iff]
  exact hmoved

end Concrete

/-- Every one of a row of things stands on some of the lexemes. -/
theorem Form.exists_of_mem_many {δ α : Type} {F : Form δ α} {ds : List δ} {ls : List Lexeme} {a : α}
    (hts : F.many.tokens ds <+: ls.map Lexeme.token) (ha : a ∈ F.many.along ls ds) :
    ∃ d ∈ ds, ∃ before found after, ls = before ++ found ++ after ∧
      found.map Lexeme.token = F.tokens d ∧
      a = F.along (found ++ after) d := by
  induction ds generalizing ls with
  | nil => cases ha
  | cons d ds ih =>
    rw [tokens_many_cons] at hts
    obtain ⟨rest, hrest⟩ := hts
    rw [List.append_assoc] at hrest
    obtain ⟨found, after, rfl, hfound, hafter⟩ := List.map_eq_append_iff.mp hrest.symm
    have hlength : (F.tokens d).length = found.length := by rw [← hfound, List.length_map]
    rcases List.mem_cons.mp ha with rfl | ha
    · exact ⟨d, List.mem_cons_self, [], found, after, rfl, hfound, rfl⟩
    · rw [hlength, List.drop_left] at ha
      obtain ⟨e, he, before, found', after', rfl, hfound', rfl⟩ := ih ⟨rest, hafter.symm⟩ ha
      refine ⟨e, List.mem_cons_of_mem d he, found ++ before, found', after', ?_, hfound', rfl⟩
      simp only [List.append_assoc]

namespace Lexeme

variable {before found after : List Lexeme}

theorem spanAt_append {i : Nat} (hi : i < found.length) :
    spanAt (found ++ after) i = found[i].span := by
  rw [spanAt, List.getElem?_append_left hi, List.getElem?_eq_getElem hi]
  rfl

theorem Ordered.right (h : Ordered (before ++ after)) : Ordered after :=
  ⟨fun l hl => h.1 l (List.mem_append_right _ hl), (List.pairwise_append.mp h.2).2.1⟩

theorem Ordered.cover_append (h : Ordered (found ++ after)) (hne : found ≠ []) :
    cover (found ++ after) found.length = ⟨(found.head hne).span.start,
      (found.getLast hne).span.stop⟩ := by
  have hpos := List.length_pos_of_ne_nil hne
  have hcover := h.cover_drop (k := 0) hpos (by simp)
  rw [List.drop_zero, Nat.zero_add] at hcover
  rw [hcover, stretch, spanAt_append hpos, spanAt_append (by omega), List.head_eq_getElem,
    List.getLast_eq_getElem]

end Lexeme

namespace Function

/-- The lexemes that a function stands on. -/
structure StandsOn (source : String) (f : Function) (d : Concrete.Function) (found : List Lexeme) :
    Prop where
  proper : d.Proper
  tokens : found.map Lexeme.token = d.tokens
  along : ∃ after, f = d.along (found ++ after)
  nonempty : found ≠ []
  scanned : ∀ text, f.span.Shows source text → Lexer.lexemes f.span.start 0 text = found.map .ok

variable {source source' : String}

theorem exists_standsOn {p : Program} (hp : Program.parse source = .ok p) {f : Function}
    (hf : f ∈ p.functions) :
    ∃ d found, f.StandsOn source d found := by
  obtain ⟨ls, hls⟩ := Program.exists_tokens_of_parse hp
  obtain ⟨⟨⟨ds⟩, hproper, htokens⟩, rfl⟩ := (Program.parse_eq_ok_iff hls).mp hp
  have hmem := (Program.mem_functions _).mp hf
  have hprefix : Concrete.Declaration.form.many.tokens ds <+: ls.map Lexeme.token :=
    htokens ▸ List.prefix_refl _
  obtain ⟨d, hd, before, found, after, rfl, hfound, hf⟩ := Form.exists_of_mem_many hprefix hmem
  rcases d with v | d
  · cases hf
  · obtain rfl := Declaration.function.inj hf
    have hne : found ≠ [] := by
      rintro rfl
      cases hfound
    have hspan : (d.along (found ++ after)).span =
        ⟨(found.head hne).span.start, (found.getLast hne).span.stop⟩ := by
      have hordered := Scan.ordered hls
      rw [List.append_assoc] at hordered
      rw [← hordered.right.cover_append hne, ← List.length_map Lexeme.token, hfound]
      rfl
    refine ⟨d, found, hproper _ hd, hfound, ⟨after, rfl⟩, hne, fun text htext => ?_⟩
    rw [hspan] at htext ⊢
    exact Scan.lexemes_of_shows (Scan.lexemes_eq hls) hne htext

/-- Functions with the same text differ in where they stand only. -/
theorem sketched_of_shows {p q : Program} (hp : Program.parse source = .ok p)
    (hq : Program.parse source' = .ok q) {f g : Function} (hf : f ∈ p.functions)
    (hg : g ∈ q.functions) {text : List Char} (hft : f.span.Shows source text)
    (hgt : g.span.Shows source' text) :
    Sketched (Span.relative f.span.start) (Span.relative g.span.start) tree f g := by
  obtain ⟨d, found, hd⟩ := exists_standsOn hp hf
  obtain ⟨e, found', he⟩ := exists_standsOn hq hg
  have hlexemes := Lexer.relative_lexemes f.span.start g.span.start 0 0 text
  have hoption (ls : List Lexeme) :
      (ls.map Except.ok : List (Except LexicalError Lexeme)).filterMap Except.toOption = ls := by
    rw [List.filterMap_map]
    exact List.filterMap_some
  rw [Nat.add_zero, Nat.add_zero, hd.scanned text hft, he.scanned text hgt, hoption,
    hoption] at hlexemes
  have htokens : Concrete.Function.form.tokens d ++ [] = Concrete.Function.form.tokens e ++ [] := by
    have h := congrArg (List.map Prod.fst) hlexemes
    rw [List.map_map, List.map_map] at h
    exact congrArg (· ++ []) (hd.tokens.symm.trans (h.trans he.tokens))
  obtain ⟨rfl, -⟩ := Concrete.unique_function.eq hd.proper he.proper
    (Nat.lt_succ_self _) htokens trivial trivial
  obtain ⟨after, hfa⟩ := hd.along
  obtain ⟨after', hga⟩ := he.along
  have hlength : d.tokens.length = found.length := by rw [← hd.tokens, List.length_map]
  have hlength' : d.tokens.length = found'.length := by rw [← he.tokens, List.length_map]
  have hmatch : Lexeme.Match (Span.relative f.span.start)
      (Span.relative g.span.start) d.tokens.length (found ++ after) (found' ++ after') := by
    intro i hi
    rw [Lexeme.spanAt_append (by omega), Lexeme.spanAt_append (by omega)]
    have h := congrArg (fun xs => xs[i]?.map Prod.snd) hlexemes
    simpa [hlength ▸ hi, hlength' ▸ hi] using h
  have hsketched := Concrete.Function.matches (Span.merges_relative f.span.start)
    (Span.merges_relative g.span.start) hd.proper _ _ hmatch
  rw [hfa, hga] at hsketched ⊢
  exact hsketched

end Function

end DecafCheck
