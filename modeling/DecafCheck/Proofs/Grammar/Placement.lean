import DecafCheck.Proofs.Grammar.Lookahead
import DecafCheck.Proofs.Token.Tiling
import DecafCheck.Proofs.Tree.Spread

namespace DecafCheck

namespace Form

variable {δ α : Type} {F : Form δ α} {ls : List Lexeme} {R : Nat → Nat → α → Prop}

/-- Wherever the tokens of the derivation are among the lexemes, what it stands for is laid
there. -/
def Lays (F : Form δ α) (ls : List Lexeme) (R : Nat → Nat → α → Prop) (d : δ) : Prop :=
  ∀ k, k + (F.tokens d).length ≤ ls.length →
    Laid R k (k + (F.tokens d).length) [F.along (ls.drop k) d]

theorem Lays.behind {t : Token} {d : δ} (h : F.Lays ls R d) : (F.behind t).Lays ls R d := by
  intro k hk
  simp only [Form.behind, List.length_cons, List.drop_drop] at hk ⊢
  exact (h (k + 1) (by omega)).widen (Nat.le_succ k) (by omega)

theorem laid_many {ds : List δ} (h : ∀ d ∈ ds, F.Lays ls R d) {k : Nat}
    (hk : k + (F.many.tokens ds).length ≤ ls.length) :
    Laid R k (k + (F.many.tokens ds).length) (F.many.along (ls.drop k) ds) := by
  induction ds generalizing k with
  | nil => exact .nil (Nat.le_refl k)
  | cons d ds ih =>
    rw [tokens_many_cons, List.length_append, ← Nat.add_assoc] at hk ⊢
    have hd := h d List.mem_cons_self k (by omega)
    have hds := ih (fun e he => h e (List.mem_cons_of_mem d he)) hk
    have halong : F.many.along (ls.drop k) (d :: ds) =
        F.along (ls.drop k) d :: F.many.along (ls.drop (k + (F.tokens d).length)) ds := by
      rw [← List.drop_drop]
      rfl
    rw [halong]
    exact hd.append hds

theorem laid_row {ds : List δ} (h : ∀ d ∈ ds, F.Lays ls R d) {k : Nat}
    (hk : k + (F.row.tokens ds).length ≤ ls.length) :
    Laid R k (k + (F.row.tokens ds).length) (F.row.along (ls.drop k) ds) := by
  cases ds with
  | nil => exact .nil (Nat.le_refl k)
  | cons d ds =>
    rw [tokens_row_cons, List.length_append, ← Nat.add_assoc] at hk ⊢
    have hd := h d List.mem_cons_self k (by omega)
    have hds := laid_many (fun e he => (h e (List.mem_cons_of_mem d he)).behind (t := .mark .comma))
      hk
    have halong : F.row.along (ls.drop k) (d :: ds) =
        F.along (ls.drop k) d :: F.later.along (ls.drop (k + (F.tokens d).length)) ds := by
      rw [← List.drop_drop]
      rfl
    rw [halong]
    exact hd.append hds

theorem laid_parenthesized {ds : List δ} (h : ∀ d ∈ ds, F.Lays ls R d) {k : Nat}
    (hk : k + (F.parenthesized.tokens ds).length ≤ ls.length) :
    Laid R (k + 1) (k + (F.parenthesized.tokens ds).length)
      (F.parenthesized.along (ls.drop k) ds) := by
  simp only [Form.parenthesized, List.length_cons, List.length_append, List.length_nil,
    List.drop_drop] at hk ⊢
  exact (laid_row h (by omega)).widen (Nat.le_refl _) (by omega)

end Form

namespace Concrete

open Lexeme

variable {ls : List Lexeme} (h : Ordered ls)

namespace Expr

theorem tokens_form (m : Nat) (d : Expr) : (form m).tokens d = d.tokens := rfl

theorem along_form (m : Nat) (ls : List Lexeme) (d : Expr) : (form m).along ls d = d.along ls := rfl

theorem laid_index {R : Nat → Nat → DecafCheck.Expr → Prop} {i : Option Expr}
    (hi : ∀ d ∈ i, (form 0).Lays ls R d) {k : Nat} (hk : k + (index.tokens i).length ≤ ls.length) :
    Laid R k (k + (index.tokens i).length) (index.along (ls.drop k) i).toList := by
  cases i with
  | none => exact .nil (Nat.le_refl k)
  | some d =>
    simp only [index, List.length_cons, List.length_append, List.length_nil, Option.map_some,
      Option.toList_some, List.drop_drop] at hk ⊢
    have hd := hi d rfl (k + 1)
    simp only [tokens_form, along_form] at hd
    exact (hd (by omega)).widen (Nat.le_succ k) (by omega)

include h

theorem lays_of_leaf {d : Expr} {value : Literal} (htokens : d.tokens.length = 1)
    (halong : ∀ ls, d.along ls = .literal value (spanAt ls 0)) :
    (form 0).Lays ls (Standing DecafCheck.Expr.tree ls) d := by
  intro k hk
  simp only [tokens_form, along_form, htokens, halong, spanAt_drop] at hk ⊢
  exact .one (Nat.le_refl k) (fun n => Tree.on_leaf h (Nat.lt_succ_self k) hk rfl) (Nat.le_refl _)

theorem lays_unary {op : UnaryOp} {d : Expr}
    (hd : (form 0).Lays ls (Standing DecafCheck.Expr.tree ls) d) :
    (form 0).Lays ls (Standing DecafCheck.Expr.tree ls) (.unary op d) := by
  intro k hk
  simp only [tokens_form, along_form, tokens, List.length_cons, along, spanAt_drop,
    List.drop_drop] at hk ⊢
  obtain ⟨i, j, hi, hj, hon⟩ := Laid.one_iff.mp (hd (k + 1) (by rw [tokens_form]; omega))
  simp only [tokens_form, along_form] at hj hon
  have hij := (hon 0).1.1
  have hspan : (spanAt ls (k + 0)).merge (along (ls.drop (k + 1)) d).span = stretch ls k j := by
    rw [← DecafCheck.Expr.span_tree _ 0, (hon 0).1.2]
    exact h.merge_stretch (i := k) (j := k + 1) (by omega) hij (by omega) (by omega)
  rw [hspan]
  refine .one (Nat.le_refl k) (fun n => ?_) (j := j) (by omega)
  exact Tree.on_above_inner h (a := i) (b := j) (by omega) (by omega) (by omega) (Nat.le_refl j)
    (.inl (by omega)) rfl (.one (Nat.le_refl i) (hon n) (Nat.le_refl j))

theorem lays_binary {op : BinaryOp} {d e : Expr}
    (hd : (form 0).Lays ls (Standing DecafCheck.Expr.tree ls) d)
    (he : (form 0).Lays ls (Standing DecafCheck.Expr.tree ls) e) :
    (form 0).Lays ls (Standing DecafCheck.Expr.tree ls) (.binary op d e) := by
  intro k hk
  simp only [tokens_form, along_form, tokens, List.length_append, List.length_cons, along,
    List.drop_drop] at hk ⊢
  obtain ⟨i, j, hi, hj, hl⟩ := Laid.one_iff.mp (hd k (by rw [tokens_form]; omega))
  obtain ⟨i', j', hi', hj', hr⟩ :=
    Laid.one_iff.mp (he (k + (d.tokens.length + 1)) (by rw [tokens_form]; omega))
  simp only [tokens_form, along_form] at hj hj' hl hr
  have hij := (hl 0).1.1
  have hij' := (hr 0).1.1
  have hspan : (along (ls.drop k) d).span.merge
      (along (ls.drop (k + (d.tokens.length + 1))) e).span = stretch ls i j' := by
    rw [← DecafCheck.Expr.span_tree _ 0, ← DecafCheck.Expr.span_tree _ 0, (hl 0).1.2, (hr 0).1.2]
    exact h.merge_stretch (by omega) hij' (by omega) (by omega)
  rw [hspan]
  refine .one hi (fun n => ?_) (j := j') (by omega)
  have hcs (m : Nat) :
      Laid (Tree.On ls) i j' [(along (ls.drop k) d).tree n, (along (ls.drop _) e).tree m] :=
    .cons (Nat.le_refl i) (hl n) (.one (by omega) (hr m) (Nat.le_refl j'))
  refine Tree.on_above (by omega) (by omega) ((hcs _).map fun _ _ _ _ hon => hon.1) ?_
    fun c hc x hx =>
    Tree.spread_of_laid (hcs _) hc hx
  -- The left operand ends before the operator, and the right one begins behind it.
  intro s hs
  rcases List.mem_pair.mp hs with rfl | rfl
  · rw [(hl n).1.2]
    exact h.stretch_ne_of_gt (by omega) (by omega) (by omega)
  · rw [(hr _).1.2]
    exact h.stretch_ne_of_lt (by omega) (by omega)

theorem lays {d : Expr} (hd : d.Proper) :
    (form 0).Lays ls (Standing DecafCheck.Expr.tree ls) d := by
  induction hd with
  | integer => exact lays_of_leaf h rfl fun _ => rfl
  | truth => exact lays_of_leaf h rfl fun _ => rfl
  | @location name i _ ih =>
    intro k hk
    simp only [tokens_form, along_form, tokens_location, List.length_cons, along_location] at hk ⊢
    rw [h.cover_drop (Nat.succ_pos _) hk, List.drop_drop]
    refine .one (Nat.le_refl k) (fun n => ?_) (Nat.le_refl _)
    rw [DecafCheck.Expr.tree_location]
    exact Tree.on_above_inner h (by omega) hk (Nat.le_succ k) (by omega)
      (.inl (Nat.lt_succ_self k)) rfl (Tree.laid_on_row (laid_index ih (by omega)) n)
  | @call name ds _ ih =>
    intro k hk
    simp only [tokens_form, along_form, tokens_call, List.length_cons, along_call] at hk ⊢
    rw [h.cover_drop (Nat.succ_pos _) hk, List.drop_drop]
    refine .one (Nat.le_refl k) (fun n => ?_) (Nat.le_refl _)
    rw [DecafCheck.Expr.tree_call]
    have hds := Form.laid_parenthesized ih (k := k + 1) (by omega)
    exact Tree.on_above_inner h (by omega) hk (by omega) (by omega) (.inl (by omega)) rfl
      (Tree.laid_on_row hds n)
  | group _ ih =>
    intro k hk
    simp only [tokens_form, along_form, tokens_group, List.length_cons, List.length_append, along,
      List.drop_drop] at hk ⊢
    exact (ih (k + 1) (by rw [tokens_form]; omega)).widen (Nat.le_succ k)
      (by rw [tokens_form]; omega)
  | unary _ _ ih => exact lays_unary h ih
  | binary _ _ _ _ ihl ihr => exact lays_binary h ihl ihr

end Expr

include h

theorem Variable.lays (v : Variable) :
    Variable.form.Lays ls (Standing DecafCheck.Variable.tree ls) v := by
  intro k hk
  have hspan : (v.along (ls.drop k)).span = stretch ls k (k + v.tokens.length) :=
    h.cover_drop (Nat.succ_pos _) hk
  have hleaf (n : Nat) : Tree.On ls k (k + v.tokens.length) ((v.along (ls.drop k)).tree n) := by
    rw [DecafCheck.Variable.tree, hspan]
    exact Tree.on_leaf h (Nat.lt_add_of_pos_right (Nat.succ_pos _)) hk rfl
  exact .one (Nat.le_refl k) hleaf (Nat.le_refl _)

theorem Expr.exists_standing {d : Expr} (hd : d.Proper) {k : Nat}
    (hk : k + d.tokens.length ≤ ls.length) :
    ∃ i j, k ≤ i ∧ j ≤ k + d.tokens.length ∧ Standing DecafCheck.Expr.tree ls i j
      (d.along (ls.drop k)) :=
  Laid.one_iff.mp (Expr.lays h hd k hk)

theorem Stmt.lays_assign {name : String} {i : Option Expr} {v : Expr} (hi : ∀ d ∈ i, d.Proper)
    (hv : v.Proper) :
    Stmt.form.Lays ls (Standing DecafCheck.Stmt.tree ls) (.assign name i v) := by
  intro k hk
  simp only [Stmt.form, Stmt.along, Stmt.tokens_assign, List.length_append, List.length_cons,
    List.length_nil, List.drop_drop] at hk ⊢
  rw [h.cover_drop (by omega) hk]
  have hproper : (Expr.location name i).Proper := .location hi
  obtain ⟨a, b, ha, hb, hlocation⟩ := Expr.exists_standing h hproper (k := k) (by omega)
  obtain ⟨c, e, hc, he, hvalue⟩ :=
    Expr.exists_standing h hv (k := k + ((Expr.location name i).tokens.length + 1)) (by omega)
  rw [Expr.along_location] at hlocation
  simp only [Expr.index, List.drop_drop] at hlocation
  refine .one (Nat.le_refl k) (fun n => ?_) (Nat.le_refl _)
  exact Tree.on_above_inner h (b := e) (by omega) hk (Nat.le_refl k) (by omega)
    (.inr (by omega)) rfl (.cons ha (hlocation n) (.one (by omega) (hvalue _) (Nat.le_refl e)))

theorem Stmt.lays_call {name : String} {ds : List Expr} (hds : ∀ d ∈ ds, d.Proper) :
    Stmt.form.Lays ls (Standing DecafCheck.Stmt.tree ls) (.call name ds) := by
  intro k hk
  have hrow := Form.laid_parenthesized (fun d hd => Expr.lays h (hds d hd)) (k := k + 1)
  have halong : (Expr.form 0).parenthesized.along (ls.drop (k + 1)) ds =
      Expr.alongRow ((ls.drop k).drop 2) ds := by
    simp only [Expr.alongRow_eq, List.drop_drop, Form.parenthesized]
  simp only [Stmt.form, Stmt.along, Stmt.tokens_call, Expr.tokens_call, List.length_append,
    List.length_cons, List.length_nil] at hk ⊢
  rw [h.cover_drop (by omega) hk, ← halong]
  refine .one (Nat.le_refl k) (fun n => ?_) (Nat.le_refl _)
  exact Tree.on_above_inner h (by omega) hk (by omega) (by omega) (.inl (by omega)) rfl
    (Tree.laid_on_row (hrow (by omega)) n)

theorem Stmt.lays_ret {d : Option Expr} (hd : ∀ e ∈ d, e.Proper) :
    Stmt.form.Lays ls (Standing DecafCheck.Stmt.tree ls) (.ret d) := by
  intro k hk
  have hvalue : k + 1 + (valueForm.tokens d).length ≤ ls.length →
      Laid (Standing DecafCheck.Expr.tree ls) (k + 1) (k + 1 + (valueForm.tokens d).length)
        (d.map (Expr.along (ls.drop (k + 1)))).toList := by
    cases d with
    | none => exact fun _ => .nil (Nat.le_refl _)
    | some e => exact Expr.lays h (hd e rfl) (k + 1)
  simp only [Stmt.form, Stmt.along, Stmt.tokens_ret, List.length_append, List.length_cons,
    List.length_nil, List.drop_drop] at hk ⊢
  rw [h.cover_drop (by omega) hk]
  refine .one (Nat.le_refl k) (fun n => ?_) (Nat.le_refl _)
  exact Tree.on_above_inner h (by omega) hk (by omega) (by omega) (.inl (by omega)) rfl
    (Tree.laid_on_row (hvalue (by omega)) n)

theorem Stmt.lays_jump {j : Jump} :
    Stmt.form.Lays ls (Standing DecafCheck.Stmt.tree ls) (.jump j) := by
  intro k hk
  simp only [Stmt.form, Stmt.along, Stmt.tokens, List.length_cons, List.length_nil] at hk ⊢
  rw [h.cover_drop (by omega) hk]
  exact .one (Nat.le_refl k) (fun n => Tree.on_leaf h (by omega) hk rfl) (Nat.le_refl _)

theorem Block.lays_mk {vars : List Variable} {ss : List Stmt}
    (hss : ∀ s ∈ ss, Stmt.form.Lays ls (Standing DecafCheck.Stmt.tree ls) s) :
    Block.form.Lays ls (Standing DecafCheck.Block.tree ls) (.mk vars ss) := by
  intro k hk
  have hvariables := Form.laid_many (fun v (_ : v ∈ vars) => Variable.lays h v) (k := k + 1)
  have hstatements := Form.laid_many hss (k := k + (1 + (Variable.form.many.tokens vars).length))
  simp only [Block.form, Block.along, Block.tokens_mk, Stmt.alongAll_eq, List.length_append,
    List.length_cons, List.length_nil, List.drop_drop] at hk ⊢
  rw [h.cover_drop (by omega) hk]
  refine .one (Nat.le_refl k) (fun n => ?_) (Nat.le_refl _)
  rw [DecafCheck.Block.tree_mk]
  have hrow := (hvariables (by omega)).widen (Nat.le_refl _) (Nat.le_of_eq (Nat.add_assoc _ _ _))
  exact Tree.on_above_inner h (by omega) hk (by omega) (by omega) (.inl (by omega)) rfl
    ((Tree.laid_on_row hrow n).append (Tree.laid_on_row (hstatements (by omega)) _))

mutual

theorem Stmt.lays : ∀ {s : Stmt}, s.Proper → Stmt.form.Lays ls (Standing DecafCheck.Stmt.tree ls) s
  | .assign _ _ _, .assign hi hv => Stmt.lays_assign h hi hv
  | .call _ _, .call hds => Stmt.lays_call h hds
  | .branch d yes none, .branch hd hyes _ => by
    intro k hk
    have hblock := Laid.one_iff.mp ∘ Block.lays hyes (k + (d.tokens.length + 3))
    simp only [Stmt.form, Block.form, Stmt.along, Stmt.tokens, Block.elseTokens, Block.alongElse,
      List.length_append, List.length_cons, List.length_nil, List.drop_drop] at hk hblock ⊢
    rw [h.cover_drop (by omega) hk]
    obtain ⟨a, b, ha, hb, hcondition⟩ := Expr.exists_standing h hd (k := k + 2) (by omega)
    obtain ⟨c, e, hc, he, hyes⟩ := hblock (by omega)
    refine .one (Nat.le_refl k) (fun n => ?_) (Nat.le_refl _)
    exact Tree.on_above_inner h (a := a) (b := e) (by omega) hk (by omega) (by omega)
      (.inl (by omega)) rfl
      (.cons (Nat.le_refl a) (hcondition n) (.one (by omega) (hyes _) (Nat.le_refl e)))
  | .branch d yes (some no), .branch hd hyes hno => by
    intro k hk
    have hblock := Laid.one_iff.mp ∘ Block.lays hyes (k + (d.tokens.length + 3))
    have hother := Laid.one_iff.mp ∘
      Block.lays (hno no rfl) (k + (d.tokens.length + 3 + yes.tokens.length + 1))
    simp only [Stmt.form, Block.form, Stmt.along, Stmt.tokens, Block.elseTokens, Block.alongElse,
      List.length_append, List.length_cons, List.drop_drop] at hk hblock hother ⊢
    rw [h.cover_drop (by omega) hk]
    obtain ⟨a, b, ha, hb, hcondition⟩ := Expr.exists_standing h hd (k := k + 2) (by omega)
    obtain ⟨c, e, hc, he, hyes⟩ := hblock (by omega)
    obtain ⟨c', e', hc', he', hno⟩ := hother (by omega)
    have hlt := (hyes 0).1.1
    refine .one (Nat.le_refl k) (fun n => ?_) (Nat.le_refl _)
    exact Tree.on_above_inner h (a := a) (b := e') (by omega) hk (by omega) (by omega)
      (.inl (by omega)) rfl
      (.cons (Nat.le_refl a) (hcondition n)
        (.cons (by omega) (hyes _) (.one (by omega) (hno _) (Nat.le_refl e'))))
  | .loop d body, .loop hd hbody => by
    intro k hk
    have hblock := Laid.one_iff.mp ∘ Block.lays hbody (k + (d.tokens.length + 3))
    simp only [Stmt.form, Block.form, Stmt.along, Stmt.tokens, List.length_append, List.length_cons,
      List.drop_drop] at hk hblock ⊢
    rw [h.cover_drop (by omega) hk]
    obtain ⟨a, b, ha, hb, hguard⟩ := Expr.exists_standing h hd (k := k + 2) (by omega)
    obtain ⟨c, e, hc, he, hbody⟩ := hblock (by omega)
    refine .one (Nat.le_refl k) (fun n => ?_) (Nat.le_refl _)
    exact Tree.on_above_inner h (a := a) (b := e) (by omega) hk (by omega) (by omega)
      (.inl (by omega)) rfl
      (.cons (Nat.le_refl a) (hguard n) (.one (by omega) (hbody _) (Nat.le_refl e)))
  | .ret _, .ret hd => Stmt.lays_ret h hd
  | .jump _, .jump => Stmt.lays_jump h

theorem Block.lays :
    ∀ {b : Block}, b.Proper → Block.form.Lays ls (Standing DecafCheck.Block.tree ls) b
  | .mk _ _, .mk _ hss => Block.lays_mk h fun s hs => Stmt.lays (hss s hs)

end

theorem Parameter.lays (q : Parameter) :
    Parameter.form.Lays ls (fun i j p => Stretches ls i j p.span) q := by
  intro k hk
  exact .one (Nat.le_refl k) ⟨Nat.lt_add_of_pos_right (Nat.succ_pos 1),
    h.cover_drop (Nat.succ_pos 1) hk⟩ (Nat.le_refl _)

theorem Function.lays {g : Function} (hg : g.Proper) :
    Function.form.Lays ls (Standing DecafCheck.Function.tree ls) g := by
  intro k hk
  have hparameters := Form.laid_parenthesized (fun q (_ : q ∈ g.parameters) => Parameter.lays h q)
    (k := k + 3)
  have hblock := Laid.one_iff.mp ∘
    Block.lays h hg (k + (3 + (Parameter.form.parenthesized.tokens g.parameters).length))
  simp only [Function.form, Block.form, Function.along, Function.tokens, List.length_append,
    List.length_cons, List.drop_drop] at hk hblock ⊢
  rw [h.cover_drop (by omega) hk]
  obtain ⟨c, e, hc, he, hbody⟩ := hblock (by omega)
  refine .one (Nat.le_refl k) (fun n => ?_) (Nat.le_refl _)
  have hlt := (hbody n).1.1
  have hparts := ((hparameters (by omega)).map (f := fun q => (Symbol.ofParameter q).span)
    fun _ _ _ _ hq => hq).append (.one (b := e) (by omega) (hbody n).1 (Nat.le_refl e))
  rw [← Function.comp_def, ← List.map_map] at hparts
  refine Tree.on_above (by omega) hk (hparts.widen (by omega) (by omega)) ?_ fun t ht x hx => ?_
  · exact Tree.ne_of_laid h hparts hk (by omega) (.inl (by omega))
  · obtain rfl := List.mem_singleton.mp ht
    exact (hbody n).2 x hx

theorem Declaration.lays {d : Declaration} (hd : d.Proper) :
    Declaration.form.Lays ls (Standing DecafCheck.Declaration.tree ls) d := by
  intro k hk
  rcases d with v | g
  · exact (Variable.lays h v k hk).map fun _ _ _ _ hon => hon
  · exact (Function.lays h hd k hk).map fun _ _ _ _ hon => hon

end Concrete

/-- The declarations of a program stand on the lexemes of a text of `length` bytes, and the program
on all of them. -/
structure Program.Placed (length : Nat) (ls : List Lexeme) (p : Program) : Prop where
  ordered : Lexeme.Ordered ls
  declarations : Laid (Tree.On ls) 0 ls.length (Tree.row Declaration.tree 0 p.declarations)
  span : p.span = if p.declarations = [] then ⟨0, length⟩ else Lexeme.stretch ls 0 ls.length

theorem Concrete.Derivation.placed {ls : List Lexeme} (h : Lexeme.Ordered ls)
    (d : Derivation (ls.map Lexeme.token)) (length : Nat) :
    (d.program.along length ls).Placed length ls := by
  obtain ⟨⟨ds⟩, hproper, htokens⟩ := d
  have hlength : (Declaration.form.many.tokens ds).length = ls.length := by
    exact (congrArg List.length htokens).trans (List.length_map _)
  have hlaid := Form.laid_many (k := 0) (fun d (hd : d ∈ ds) => Declaration.lays h (hproper d hd))
    (by omega)
  rw [hlength, Nat.zero_add] at hlaid
  refine ⟨h, Tree.laid_on_row hlaid 0, ?_⟩
  cases ds with
  | nil => rfl
  | cons d ds =>
    have hpos : 0 < (Declaration.form.many.tokens (d :: ds)).length := by
      rcases d with v | g <;> exact Nat.succ_pos _
    have hcover := h.cover_drop (k := 0) hpos (by omega)
    rw [List.drop_zero, hlength, Nat.zero_add] at hcover
    simp only [Program.along, List.cons_ne_nil, if_false, Form.many, Form.alongMany]
    rw [← hcover, ← hlength]
    rfl

theorem Scan.ordered {source : String} {ls : List Lexeme} (h : (ofString source).tokens = .ok ls) :
    Lexeme.Ordered ls := by
  have htiled : Lexer.Tiled 0 source.toList (ls.map .ok) := by
    rw [← Scan.lexemes_eq h]
    exact Lexer.tiled_lexemes 0 source.toList
  constructor
  · intro l hl
    obtain ⟨before, found, after, -, hfound⟩ := htiled.located _ (List.mem_map_of_mem hl)
    have hspan : l.span = _ := hfound.span
    have hpos := bytes_pos hfound.ne_nil
    rw [hspan]
    dsimp only
    omega
  · have hpairwise := List.pairwise_map.mp htiled.pairwise
    exact hpairwise

theorem Program.placed_of_parse {source : String} {p : Program} (h : parse source = .ok p) :
    ∃ ls, (Scan.ofString source).tokens = .ok ls ∧ p.Placed source.utf8ByteSize ls := by
  obtain ⟨ls, hls⟩ := exists_tokens_of_parse h
  obtain ⟨d, rfl⟩ := (parse_eq_ok_iff hls).mp h
  refine ⟨ls, hls, ?_⟩
  rw [← bytes_toList]
  exact d.placed (Scan.ordered hls) _

end DecafCheck
