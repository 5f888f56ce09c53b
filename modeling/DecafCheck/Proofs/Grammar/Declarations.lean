import DecafCheck.Proofs.Grammar.Text

namespace DecafCheck

def Declaration.span : Declaration → Span
  | .variable v => v.span
  | .function g => g.span

instance Span.decidableInside (s t : Span) : Decidable (s.Inside t) :=
  inferInstanceAs (Decidable (_ ∧ _))

/-- The tokens of a text that stand inside a span. -/
def Scan.tokensIn (s : Scan) (span : Span) : List Token :=
  ((s.lexemes.filterMap Except.toOption).filter fun l => decide (l.span.Inside span)).map
    Lexeme.token

namespace Form

variable {δ α β : Type} {F : Form δ α} {bare : α → β}

/-- What the derivation stands for is the same along all lexemes, as far as `bare` can tell. -/
def Steady (F : Form δ α) (bare : α → β) (d : δ) : Prop :=
  ∀ ls ls', bare (F.along ls d) = bare (F.along ls' d)

theorem steady_many {ds : List δ} (h : ∀ d ∈ ds, F.Steady bare d) :
    F.many.Steady (List.map bare) ds := by
  induction ds with
  | nil => exact fun _ _ => rfl
  | cons d ds ih =>
    intro ls ls'
    exact congrArg₂ List.cons (h d List.mem_cons_self _ _)
      (ih (fun e he => h e (List.mem_cons_of_mem d he)) _ _)

theorem steady_row {ds : List δ} (h : ∀ d ∈ ds, F.Steady bare d) :
    F.row.Steady (List.map bare) ds := by
  cases ds with
  | nil => exact fun _ _ => rfl
  | cons d ds =>
    intro ls ls'
    have hlater : (F.behind (.mark .comma)).many.Steady (List.map bare) ds :=
      steady_many fun e he ls ls' => h e (List.mem_cons_of_mem d he) _ _
    exact congrArg₂ List.cons (h d List.mem_cons_self _ _) (hlater _ _)

theorem steady_parenthesized {ds : List δ} (h : ∀ d ∈ ds, F.Steady bare d) :
    F.parenthesized.Steady (List.map bare) ds :=
  fun _ _ => steady_row h _ _

end Form

namespace Concrete

theorem Expr.steady {d : Expr} (hd : d.Proper) : (form 0).Steady DecafCheck.Expr.bare d := by
  induction hd with
  | integer | truth => exact fun _ _ => rfl
  | @location name i _ ih =>
    intro ls ls'
    rw [along_form, along_form, along_location, along_location, DecafCheck.Expr.bare_location,
      DecafCheck.Expr.bare_location]
    cases i with
    | none => rfl
    | some d =>
      exact congrArg (fun e => DecafCheck.Expr.location name (some e) .nowhere) (ih d rfl _ _)
  | @call name ds _ ih =>
    intro ls ls'
    rw [along_form, along_form, along_call, along_call, DecafCheck.Expr.bare_call,
      DecafCheck.Expr.bare_call, Form.steady_parenthesized ih]
  | group _ ih => exact fun ls ls' => ih _ _
  | unary _ _ ih => exact fun ls ls' => congrArg (DecafCheck.Expr.unary _ · .nowhere) (ih _ _)
  | binary _ _ _ _ ihl ihr =>
    exact fun ls ls' => congrArg₂ (DecafCheck.Expr.binary _ · · .nowhere) (ihl _ _) (ihr _ _)

theorem Expr.steady_options {d : Option Expr} (hd : ∀ e ∈ d, e.Proper) (ls ls' : List Lexeme) :
    (d.map (along ls)).map DecafCheck.Expr.bare = (d.map (along ls')).map DecafCheck.Expr.bare := by
  cases d with
  | none => rfl
  | some e => exact congrArg some (Expr.steady (hd e rfl) ls ls')

theorem Variable.steady (v : Variable) : Variable.form.Steady DecafCheck.Variable.bare v :=
  fun _ _ => rfl

mutual

theorem Stmt.steady : ∀ {s : Stmt}, s.Proper → Stmt.form.Steady DecafCheck.Stmt.bare s
  | .assign name i v, .assign hi hv => by
    intro ls ls'
    have hindex := Expr.steady_options hi (ls.drop 2) (ls'.drop 2)
    have hvalue := Expr.steady hv (ls.drop ((Expr.location name i).tokens.length + 1))
      (ls'.drop ((Expr.location name i).tokens.length + 1))
    exact congrArg₂ (DecafCheck.Stmt.assign name · .nowhere · .nowhere) hindex hvalue
  | .call name ds, .call hds => by
    intro ls ls'
    have hrow := Form.steady_row (fun d hd => Expr.steady (hds d hd)) (ls.drop 2) (ls'.drop 2)
    rw [← Expr.alongRow_eq, ← Expr.alongRow_eq] at hrow
    exact congrArg (DecafCheck.Stmt.call name · .nowhere) hrow
  | .branch d yes none, .branch hd hyes _ => by
    intro ls ls'
    exact congrArg₂ (DecafCheck.Stmt.branch · · none .nowhere) (Expr.steady hd _ _)
      (Block.steady hyes _ _)
  | .branch d yes (some no), .branch hd hyes hno => by
    intro ls ls'
    have hother := congrArg some (Block.steady (hno no rfl)
      ((ls.drop (d.tokens.length + 3 + yes.tokens.length)).drop 1)
      ((ls'.drop (d.tokens.length + 3 + yes.tokens.length)).drop 1))
    have hparts := congrArg₂ (DecafCheck.Stmt.branch · ·) (Expr.steady hd (ls.drop 2) (ls'.drop 2))
      (Block.steady hyes (ls.drop (d.tokens.length + 3)) (ls'.drop (d.tokens.length + 3)))
    exact congrFun (congr hparts hother) .nowhere
  | .loop d body, .loop hd hbody => by
    intro ls ls'
    exact congrArg₂ (DecafCheck.Stmt.loop · · .nowhere) (Expr.steady hd _ _)
      (Block.steady hbody _ _)
  | .ret d, .ret hd => by
    intro ls ls'
    exact congrArg (DecafCheck.Stmt.ret · .nowhere) (Expr.steady_options hd _ _)
  | .jump _, .jump => fun _ _ => rfl

theorem Block.steady : ∀ {b : Block}, b.Proper → Block.form.Steady DecafCheck.Block.bare b
  | .mk vars ss, .mk _ hss => by
    intro ls ls'
    have hvars := Form.steady_many (fun v (_ : v ∈ vars) => Variable.steady v)
      (ls.drop 1) (ls'.drop 1)
    have hstatements := Form.steady_many (fun s hs => Stmt.steady (hss s hs))
      (ls.drop (1 + (Variable.form.many.tokens vars).length))
      (ls'.drop (1 + (Variable.form.many.tokens vars).length))
    rw [← Stmt.alongAll_eq, ← Stmt.alongAll_eq, ← DecafCheck.Stmt.bareAll_eq,
      ← DecafCheck.Stmt.bareAll_eq] at hstatements
    exact congrArg₂ (DecafCheck.Block.mk · · .nowhere) hvars hstatements

end

theorem Function.steady {g : Function} (hg : g.Proper) :
    Function.form.Steady DecafCheck.Function.bare g := by
  intro ls ls'
  have hone (q : Parameter) : Parameter.form.Steady DecafCheck.Parameter.bare q := fun _ _ => rfl
  have hparameters := Form.steady_parenthesized (fun q (_ : q ∈ g.parameters) => hone q)
    (ls.drop 3) (ls'.drop 3)
  exact congrArg₂ (DecafCheck.Function.mk g.name g.returns · · .nowhere) hparameters
    (Block.steady hg _ _)

theorem Declaration.steady {d : Declaration} (hd : d.Proper) :
    Declaration.form.Steady DecafCheck.Declaration.bare d := by
  intro ls ls'
  cases d with
  | «variable» v => exact congrArg DecafCheck.Declaration.variable (Variable.steady v ls ls')
  | function g => exact congrArg DecafCheck.Declaration.function (Function.steady hd ls ls')

end Concrete

namespace Lexeme.Ordered

variable {before found after : List Lexeme}

theorem left (h : Ordered (found ++ after)) : Ordered found :=
  ⟨fun l hl => h.nonempty l (List.mem_append_left _ hl), (List.pairwise_append.mp h.pairwise).1⟩

theorem inside_of_mem (h : Ordered found) (hne : found ≠ []) {l : Lexeme} (hl : l ∈ found) :
    l.span.Inside ⟨(found.head hne).span.start, (found.getLast hne).span.stop⟩ := by
  obtain ⟨i, hi, rfl⟩ := List.getElem_of_mem hl
  have hlast : found.length - 1 < found.length := by omega
  have hstart := h.start_le_start (Nat.zero_le i) hi
  have hstop := h.stop_le_stop (show i ≤ found.length - 1 by omega) hlast
  rw [spanAt_eq hi, spanAt_eq (by omega)] at hstart hstop
  rw [List.head_eq_getElem, List.getLast_eq_getElem]
  exact ⟨hstart, hstop⟩

/-- Of the lexemes of a text, those inside the span of a few are these few. -/
theorem filter_inside (h : Ordered (before ++ (found ++ after))) (hne : found ≠ []) :
    (before ++ (found ++ after)).filter
      (fun l => decide (l.span.Inside ⟨(found.head hne).span.start,
        (found.getLast hne).span.stop⟩)) = found := by
  obtain ⟨-, -, hbefore⟩ := List.pairwise_append.mp h.pairwise
  obtain ⟨-, -, hafter⟩ := List.pairwise_append.mp h.right.pairwise
  rw [List.filter_append, List.filter_append, List.filter_eq_nil_iff.mpr, List.filter_eq_self.mpr,
    List.filter_eq_nil_iff.mpr, List.nil_append, List.append_nil]
  · -- a lexeme behind the few starts where the last of them stops, or later
    intro l hl hinside
    have hlast : (found.getLast hne).span.stop ≤ l.span.start :=
      hafter _ (List.getLast_mem hne) l hl
    have hstop : l.span.stop ≤ (found.getLast hne).span.stop := (of_decide_eq_true hinside).2
    have hpos := h.right.nonempty l (List.mem_append_right _ hl)
    omega
  · exact fun l hl => decide_eq_true (h.right.left.inside_of_mem hne hl)
  · -- a lexeme before them stops where the first of them starts, or earlier
    intro l hl hinside
    have hhead : l.span.stop ≤ (found.head hne).span.start :=
      hbefore l hl _ (List.mem_append_left _ (List.head_mem hne))
    have hstart : (found.head hne).span.start ≤ l.span.start := (of_decide_eq_true hinside).1
    have hpos := h.nonempty l (List.mem_append_left _ hl)
    omega

end Lexeme.Ordered

namespace Declaration

variable {source source' : String} {p q : Program}

/-- The tokens inside the span of a declaration are those of a derivation that stands for it. -/
theorem exists_derivation (hp : Program.parse source = .ok p) {a : Declaration}
    (ha : a ∈ p.declarations) :
    ∃ (d : Concrete.Declaration) (ls : List Lexeme), d.Proper ∧ a = d.along ls ∧
      (Scan.ofString source).tokensIn a.span = d.tokens := by
  obtain ⟨ls, hls⟩ := Program.exists_tokens_of_parse hp
  obtain ⟨⟨⟨ds⟩, hproper, htokens⟩, rfl⟩ := (Program.parse_eq_ok_iff hls).mp hp
  have hprefix : Concrete.Declaration.form.many.tokens ds <+: ls.map Lexeme.token :=
    htokens ▸ List.prefix_refl _
  obtain ⟨d, hd, before, found, after, rfl, hfound, rfl⟩ := Form.exists_of_mem_many hprefix ha
  refine ⟨d, found ++ after, hproper _ hd, rfl, ?_⟩
  have hne : found ≠ [] := by
    rintro rfl
    cases d <;> cases hfound
  have hordered := Scan.ordered hls
  rw [List.append_assoc] at hordered
  have hspan : (Concrete.Declaration.form.along (found ++ after) d).span =
      ⟨(found.head hne).span.start, (found.getLast hne).span.stop⟩ := by
    rw [← hordered.right.cover_append hne, ← List.length_map Lexeme.token, hfound]
    cases d <;> rfl
  have hlexemes : (Scan.ofString source).lexemes.filterMap Except.toOption =
      before ++ (found ++ after) := by
    rw [Scan.lexemes_eq hls, List.filterMap_map, ← List.append_assoc]
    exact List.filterMap_some
  rw [Scan.tokensIn, hlexemes, hspan, hordered.filter_inside hne]
  exact hfound

/-- Declarations with the same tokens differ in where they stand only. -/
theorem bare_eq_of_tokens_eq (hp : Program.parse source = .ok p)
    (hq : Program.parse source' = .ok q) {a b : Declaration} (ha : a ∈ p.declarations)
    (hb : b ∈ q.declarations) (h : (Scan.ofString source).tokensIn a.span =
      (Scan.ofString source').tokensIn b.span) : a.bare = b.bare := by
  obtain ⟨d, ls, hd, rfl, hda⟩ := exists_derivation hp ha
  obtain ⟨e, ls', he, rfl, hdb⟩ := exists_derivation hq hb
  have htokens : Concrete.Declaration.form.tokens d ++ [] =
      Concrete.Declaration.form.tokens e ++ [] :=
    congrArg (· ++ []) (hda.symm.trans (h.trans hdb))
  obtain ⟨rfl, -⟩ := Concrete.unique_declaration.eq hd he
    (Nat.lt_succ_self _) htokens trivial trivial
  exact Concrete.Declaration.steady hd ls ls'

end Declaration

/-- Lists that are alike in one way are alike in every way that this one tells. -/
theorem map_eq_of_map_eq {α β γ : Type} {f g : α → β} {k : α → γ} {as bs : List α}
    (h : as.map f = bs.map g) (hk : ∀ a ∈ as, ∀ b ∈ bs, f a = g b → k a = k b) :
    as.map k = bs.map k := by
  induction as generalizing bs with
  | nil =>
    obtain rfl := List.map_eq_nil_iff.mp h.symm
    rfl
  | cons a as ih =>
    cases bs with
    | nil => cases h
    | cons b bs =>
      obtain ⟨hhead, hrest⟩ := List.cons.inj h
      have has := ih hrest fun c hc d hd => hk c (List.mem_cons_of_mem a hc) d
        (List.mem_cons_of_mem b hd)
      rw [List.map_cons, List.map_cons, hk a List.mem_cons_self b List.mem_cons_self hhead, has]

/-- Texts whose declarations have the same tokens in some order have the same declarations in that
order, apart from where they stand. -/
theorem Program.bare_perm {source source' : String} {p q : Program} (hp : parse source = .ok p)
    (hq : parse source' = .ok q)
    (h : (p.declarations.map fun d => (Scan.ofString source).tokensIn d.span).Perm
      (q.declarations.map fun d => (Scan.ofString source').tokensIn d.span)) :
    p.bare.declarations.Perm q.bare.declarations := by
  -- The declarations of the second text can be put into the order of the first one, token for
  -- token.
  have hcomp := congrFun₂ (List.eq_map_comp_perm fun d : Declaration =>
    (Scan.ofString source').tokensIn d.span)
    (p.declarations.map fun d => (Scan.ofString source).tokensIn d.span) q.declarations
  obtain ⟨ds, hds, hperm⟩ := hcomp.mpr h
  have hbare : p.declarations.map Declaration.bare = ds.map Declaration.bare :=
    map_eq_of_map_eq hds fun a ha b hb => Declaration.bare_eq_of_tokens_eq hp hq ha
      (hperm.mem_iff.mp hb)
  show (p.declarations.map Declaration.bare).Perm (q.declarations.map Declaration.bare)
  rw [hbare]
  exact hperm.map _

end DecafCheck
