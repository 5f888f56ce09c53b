import DecafCheck.Proofs.Grammar.Brackets
import DecafCheck.Proofs.Grammar.Declarations
import DecafCheck.Proofs.Tree.PostOrder

namespace DecafCheck

open Token Lexeme

namespace Lexeme

/-- The tokens of those lexemes that stand inside a span. -/
def within (ls : List Lexeme) (span : Span) : List Token :=
  (ls.filter fun l => decide (l.span.Inside span)).map token

/-- From lexeme `k` on there are these tokens. -/
def Spelt (ls : List Lexeme) (k : Nat) (ts : List Token) : Prop :=
  ts <+: (ls.map token).drop k

variable {ls : List Lexeme} {k : Nat} {ts us : List Token}

theorem spelt_append : Spelt ls k (ts ++ us) ↔ Spelt ls k ts ∧ Spelt ls (k + ts.length) us := by
  unfold Spelt
  rw [← List.drop_drop]
  generalize (ls.map token).drop k = all
  constructor
  · rintro ⟨rest, rfl⟩
    rw [List.append_assoc, List.drop_left]
    exact ⟨List.prefix_append _ _, List.prefix_append _ _⟩
  · rintro ⟨⟨rest, rfl⟩, hus⟩
    rw [List.drop_left] at hus
    exact (List.prefix_append_right_inj ts).mpr hus

theorem Spelt.left (h : Spelt ls k (ts ++ us)) : Spelt ls k ts :=
  (spelt_append.mp h).1

theorem Spelt.right (h : Spelt ls k (ts ++ us)) : Spelt ls (k + ts.length) us :=
  (spelt_append.mp h).2

theorem Spelt.tail {t : Token} (h : Spelt ls k (t :: ts)) : Spelt ls (k + 1) ts := by
  have hcons : Spelt ls k ([t] ++ ts) := h
  exact hcons.right

/-- What follows two tokens, others and one more. -/
theorem Spelt.behind {t u v : Token} (h : Spelt ls k (t :: u :: (ts ++ v :: us))) :
    Spelt ls (k + (ts.length + 3)) us := by
  have hbehind := h.tail.tail.right.tail
  have hplace : k + 1 + 1 + ts.length + 1 = k + (ts.length + 3) := by omega
  rwa [hplace] at hbehind

theorem Spelt.length_le (h : Spelt ls k ts) (hne : ts ≠ []) : k + ts.length ≤ ls.length := by
  have hle := List.IsPrefix.length_le h
  have hpos := List.length_pos_of_ne_nil hne
  rw [List.length_drop, List.length_map] at hle
  omega

theorem Spelt.exists_split (h : Spelt ls k ts) (hne : ts ≠ []) :
    ∃ before found after, ls = before ++ (found ++ after) ∧ before.length = k ∧
      found.map token = ts := by
  have hle := h.length_le hne
  refine ⟨ls.take k, (ls.drop k).take ts.length, (ls.drop k).drop ts.length, ?_, ?_, ?_⟩
  · rw [List.take_append_drop, List.take_append_drop]
  · rw [List.length_take]
    omega
  · rw [List.map_take, List.map_drop]
    exact (List.prefix_iff_eq_take.mp h).symm

theorem Ordered.cover_spelt (ho : Ordered ls) (h : Spelt ls k ts) (hne : ts ≠ []) :
    cover (ls.drop k) ts.length = stretch ls k (k + ts.length) :=
  ho.cover_drop (List.length_pos_of_ne_nil hne) (h.length_le hne)

/-- Among ordered lexemes, those inside a stretch are the ones that it goes over. -/
theorem Ordered.within_stretch (ho : Ordered ls) (h : Spelt ls k ts) (hne : ts ≠ []) :
    within ls (stretch ls k (k + ts.length)) = ts := by
  have hcover := ho.cover_spelt h hne
  obtain ⟨before, found, after, rfl, rfl, rfl⟩ := h.exists_split hne
  have hfound : found ≠ [] := fun hnil => hne (congrArg (List.map token) hnil)
  rw [List.drop_left, List.length_map, ho.right.cover_append hfound] at hcover
  rw [List.length_map, within, ← hcover, ho.filter_inside hfound]

theorem within_of_tokens {s : Scan} (h : s.tokens = .ok ls) : within ls = s.tokensIn := by
  funext span
  rw [Scan.tokensIn, Scan.lexemes_eq h, List.filterMap_map]
  exact congrArg (fun all => within all span) List.filterMap_some.symm

end Lexeme

def Kind.isOperator : Kind → Bool
  | .unary _ _ => true
  | .binary _ _ _ => true
  | _ => false

namespace Concrete.Expr

variable {ls : List Lexeme} (ho : Ordered ls)

theorem opened_add_closed_lt {d : Expr} (hd : d.Proper) :
    d.opened + d.closed < d.tokens.length := by
  obtain ⟨core, hne, htokens, -⟩ := exists_core hd
  have hpos := List.length_pos_of_ne_nil hne
  rw [htokens]
  simp only [List.length_append, List.length_replicate]
  omega

include ho

/-- An expression stands on its tokens without the parentheses before and behind it. -/
theorem span_along {d : Expr} (hd : d.Proper) {k : Nat} (h : Spelt ls k d.tokens) :
    (d.along (ls.drop k)).span = stretch ls (k + d.opened) (k + (d.tokens.length - d.closed)) := by
  induction hd generalizing k with
  | integer => exact spanAt_drop ls k 0
  | truth => exact spanAt_drop ls k 0
  | @location name i _ _ =>
    rw [along_location]
    exact ho.cover_spelt h (tokens_location name i ▸ List.cons_ne_nil _ _)
  | call _ _ =>
    rw [along_call]
    exact ho.cover_spelt h (List.cons_ne_nil _ _)
  | @group inner hinner ih =>
    have hlt := opened_add_closed_lt hinner
    have hspan := ih h.tail.left
    rw [along, List.drop_drop, hspan, opened, closed, tokens_group, List.length_cons,
      List.length_append]
    congr 1
    · omega
    · simp only [List.length_singleton]
      omega
  | @unary op operand _ hoperand ih =>
    -- the span ends where that of the operand does, before the parentheses that close it
    have hlt := opened_add_closed_lt hoperand
    have hle := h.length_le (List.cons_ne_nil _ _)
    have halong : ((unary op operand).along (ls.drop k)).span =
        (stretch ls k (k + 1)).merge (operand.along (ls.drop (k + 1))).span := by
      simp only [along, List.drop_drop, spanAt_drop]
      rfl
    rw [tokens, List.length_cons] at hle
    rw [halong, ih h.tail, ho.merge_stretch (by omega) (by omega) (by omega) (by omega), tokens,
      List.length_cons, closed]
    congr 1
    omega
  | @binary op left right _ _ hleft hright ihl ihr =>
    have hlt := opened_add_closed_lt hleft
    have hlt' := opened_add_closed_lt hright
    have hle := h.length_le (by simp [tokens])
    have hright := h.right.tail
    have halong : ((binary op left right).along (ls.drop k)).span =
        (left.along (ls.drop k)).span.merge
        (right.along (ls.drop (k + left.tokens.length + 1))).span := by
      simp only [along, List.drop_drop]
      rfl
    rw [tokens, List.length_append, List.length_cons] at hle
    rw [halong, ihl h.left, ihr hright, ho.merge_stretch (by omega) (by omega) (by omega)
      (by omega), tokens, List.length_append, List.length_cons, closed, opened]
    congr 1
    omega

end Concrete.Expr

/-- All tokens lie inside the span of the program. -/
theorem Concrete.Derivation.within_span {ls : List Lexeme} (ho : Ordered ls)
    (d : Derivation (ls.map token)) (length : Nat) :
    within ls (d.program.along length ls).span = ls.map token := by
  have hspan := (d.placed ho length).span
  obtain ⟨⟨ds⟩, _, htokens⟩ := d
  cases ds with
  | nil =>
    obtain rfl := List.map_eq_nil_iff.mp htokens.symm
    rfl
  | cons e ds =>
    have hne : ls.map token ≠ [] := by
      rw [← htokens]
      rcases e with v | g <;> exact List.cons_ne_nil _ _
    have hspelt : Spelt ls 0 (ls.map token) := List.prefix_refl _
    have hwithin := ho.within_stretch hspelt hne
    rw [List.length_map, Nat.zero_add] at hwithin
    exact (congrArg (within ls) hspan).trans hwithin

/-- All nodes of the tree meet a condition. -/
def Tree.Throughout (Q : Tree → Prop) (t : Tree) : Prop :=
  ∀ x ∈ t.subtrees, Q x

theorem Tree.throughout_above {Q : Tree → Prop} {n : Nat} {cs : List Tree} {kind : Kind}
    {span : Span} :
    (above n cs kind span).Throughout Q ↔ (∀ c ∈ cs, c.Throughout Q) ∧
      Q (above n cs kind span) := by
  rw [Throughout, above, subtrees_node, List.forall_mem_append, List.forall_mem_flatMap,
    List.forall_mem_singleton]
  rfl

/-- A condition on nodes that comes down to one on operators: nodes on balanced tokens meet it, and
the node of an operator does so exactly if the operator meets `D`, given that those in its operands
do. -/
structure Criterion (ls : List Lexeme) (Q : Tree → Prop) (D : Concrete.Expr → Prop) : Prop where
  plain : ∀ x : Tree, x.kind.isOperator = false → Balanced (within ls x.span) → Q x
  operator : ∀ (d : Concrete.Expr) (k : Nat) (x : Tree), d.Proper → d.operands ≠ [] →
      Spelt ls k d.tokens →
    x.kind.isOperator = true →
    x.span = stretch ls (k + d.opened) (k + (d.tokens.length - d.closed)) →
    (∀ o ∈ d.operands, ∀ e ∈ o.operators, D e) → (Q x ↔ D d)

section Criterion

variable {ls : List Lexeme} {Q : Tree → Prop} {D : Concrete.Expr → Prop}

/-- A node on balanced tokens of its own leaves the condition to its children. -/
theorem Criterion.throughout_iff (c : Criterion ls Q D) (ho : Ordered ls) {k : Nat}
    {ts : List Token} (hts : Spelt ls k ts) (hne : ts ≠ []) (hb : Balanced ts) {n : Nat}
    {cs : List Tree} {kind : Kind} {span : Span} (hk : kind.isOperator = false)
    (hspan : span = cover (ls.drop k) ts.length) :
    (Tree.above n cs kind span).Throughout Q ↔ ∀ c ∈ cs, c.Throughout Q := by
  rw [Tree.throughout_above]
  refine and_iff_left (c.plain _ hk ?_)
  rw [Tree.above, Tree.span_node, hspan, ho.cover_spelt hts hne, ho.within_stretch hts hne]
  exact hb

namespace Form

variable {δ α : Type} {F : Form δ α} {tree : Nat → α → Tree} {operators : δ → List Concrete.Expr}

/-- Wherever the tokens of a derivation are, the nodes of its tree meet `Q` exactly if its operators
meet `D`. -/
def Judges (F : Form δ α) (tree : Nat → α → Tree) (operators : δ → List Concrete.Expr)
    (ls : List Lexeme) (Q : Tree → Prop) (D : Concrete.Expr → Prop) (d : δ) : Prop :=
  ∀ k n, Spelt ls k (F.tokens d) → ((tree n (F.along (ls.drop k) d)).Throughout Q ↔
    ∀ e ∈ operators d, D e)

theorem Judges.behind {t : Token} {d : δ} (h : F.Judges tree operators ls Q D d) :
    (F.behind t).Judges tree operators ls Q D d := by
  intro k n hk
  simp only [Form.behind, List.drop_drop]
  exact h (k + 1) n hk.tail

theorem judges_many {ds : List δ} (h : ∀ d ∈ ds, F.Judges tree operators ls Q D d) {k : Nat}
    (hk : Spelt ls k (F.many.tokens ds)) (n : Nat) :
    (∀ t ∈ Tree.row tree n (F.many.along (ls.drop k) ds), t.Throughout Q) ↔
      ∀ e ∈ ds.flatMap operators, D e := by
  induction ds generalizing k n with
  | nil => exact iff_of_true (List.forall_mem_nil _) (List.forall_mem_nil _)
  | cons d ds ih =>
    rw [tokens_many_cons] at hk
    have halong : F.many.along (ls.drop k) (d :: ds) =
        F.along (ls.drop k) d :: F.many.along (ls.drop (k + (F.tokens d).length)) ds := by
      rw [← List.drop_drop]
      rfl
    rw [halong, Tree.row, List.forall_mem_cons, List.flatMap_cons, List.forall_mem_append,
      h d List.mem_cons_self k n hk.left, ih (fun e he => h e (List.mem_cons_of_mem d he)) hk.right]

theorem judges_row {ds : List δ} (h : ∀ d ∈ ds, F.Judges tree operators ls Q D d) {k : Nat}
    (hk : Spelt ls k (F.row.tokens ds)) (n : Nat) :
    (∀ t ∈ Tree.row tree n (F.row.along (ls.drop k) ds), t.Throughout Q) ↔
      ∀ e ∈ ds.flatMap operators, D e := by
  cases ds with
  | nil => exact iff_of_true (List.forall_mem_nil _) (List.forall_mem_nil _)
  | cons d ds =>
    rw [tokens_row_cons] at hk
    have halong : F.row.along (ls.drop k) (d :: ds) =
        F.along (ls.drop k) d :: F.later.along (ls.drop (k + (F.tokens d).length)) ds := by
      rw [← List.drop_drop]
      rfl
    have hlater := judges_many (fun e he => (h e (List.mem_cons_of_mem d he)).behind) hk.right
    rw [halong, Tree.row, List.forall_mem_cons, List.flatMap_cons, List.forall_mem_append,
      h d List.mem_cons_self k n hk.left, hlater]

theorem judges_parenthesized {ds : List δ} (h : ∀ d ∈ ds, F.Judges tree operators ls Q D d)
    {k : Nat} (hk : Spelt ls k (F.parenthesized.tokens ds)) (n : Nat) :
    (∀ t ∈ Tree.row tree n (F.parenthesized.along (ls.drop k) ds), t.Throughout Q) ↔
      ∀ e ∈ ds.flatMap operators, D e := by
  simp only [Form.parenthesized, List.drop_drop]
  exact judges_row h hk.tail.left n

end Form

namespace Concrete

variable (c : Criterion ls Q D) (ho : Ordered ls)

include c ho

theorem Expr.judges_leaf {d : Expr} {t : Token} (hd : d.Proper) (htokens : d.tokens = [t])
    (hop : d.operators = []) {value : Literal}
    (halong : ∀ ls, d.along ls = .literal value (spanAt ls 0)) :
    (Expr.form 0).Judges DecafCheck.Expr.tree Expr.operators ls Q D d := by
  intro k n hk
  rw [tokens_form] at hk
  have hspan : spanAt (ls.drop k) 0 = cover (ls.drop k) d.tokens.length := by
    rw [ho.cover_spelt hk (htokens ▸ List.cons_ne_nil _ _), htokens, spanAt_drop]
    rfl
  have hbalanced := Expr.balanced hd
  rw [along_form, halong, hop]
  exact (c.throughout_iff ho hk (htokens ▸ List.cons_ne_nil _ _) hbalanced (by rfl) hspan).trans
    (iff_of_true (List.forall_mem_nil _) (List.forall_mem_nil _))

theorem Expr.judges_location {name : String} {i : Option Expr} (h : ∀ d, i = some d → d.Proper)
    (ih : ∀ d, i = some d →
      (Expr.form 0).Judges DecafCheck.Expr.tree Expr.operators ls Q D d) :
    (Expr.form 0).Judges DecafCheck.Expr.tree Expr.operators ls Q D (.location name i) := by
  intro k n hk
  rw [tokens_form] at hk
  have hne : (Expr.location name i).tokens ≠ [] := tokens_location name i ▸ List.cons_ne_nil _ _
  rw [along_form, along_location, DecafCheck.Expr.tree_location, operators_location,
    List.drop_drop]
  refine Iff.trans (c.throughout_iff ho hk hne (balanced (.location h)) (by rfl) rfl) ?_
  cases i with
  | none => exact iff_of_true (List.forall_mem_nil _) (List.forall_mem_nil _)
  | some i =>
    have hi := ih i rfl (k + 2) n hk.tail.tail.left
    rw [Option.toList_some, List.flatMap_singleton, ← hi]
    simp only [index, DecafCheck.Expr.tree?, Option.map_some, Option.toList_some, Tree.row,
      List.forall_mem_singleton, List.drop_drop]
    rfl

theorem Expr.judges_call {name : String} {ds : List Expr} (h : ∀ d ∈ ds, d.Proper)
    (ih : ∀ d ∈ ds, (Expr.form 0).Judges DecafCheck.Expr.tree Expr.operators ls Q D d) :
    (Expr.form 0).Judges DecafCheck.Expr.tree Expr.operators ls Q D (.call name ds) := by
  intro k n hk
  rw [tokens_form] at hk
  rw [along_form, along_call, DecafCheck.Expr.tree_call, operators, operatorsAll_eq,
    List.drop_drop]
  refine Iff.trans (c.throughout_iff ho hk (List.cons_ne_nil _ _) (balanced (.call h))
    (by rfl) rfl) ?_
  rw [tokens_call] at hk
  exact Form.judges_parenthesized ih hk.tail n

theorem Expr.judges_unary {op : UnaryOp} {operand : Expr} (hproper : (unary op operand).Proper)
    (ih : (Expr.form 0).Judges DecafCheck.Expr.tree Expr.operators ls Q D operand) :
    (Expr.form 0).Judges DecafCheck.Expr.tree Expr.operators ls Q D (.unary op operand) := by
  intro k n hk
  have hsub := ih (k + 1) n hk.tail
  have hspan := span_along ho hproper hk
  rw [along_form] at hsub ⊢
  rw [operators, List.forall_mem_append, List.forall_mem_singleton, ← hsub]
  simp only [along, DecafCheck.Expr.tree, List.drop_drop] at hspan ⊢
  rw [Tree.throughout_above, List.forall_mem_singleton]
  refine and_congr_right fun hall => c.operator _ k _ hproper
    (List.cons_ne_nil _ _) hk rfl hspan ?_
  exact List.forall_mem_singleton.mpr (hsub.mp hall)

theorem Expr.judges_binary {op : BinaryOp} {left right : Expr}
    (hproper : (binary op left right).Proper)
    (ihl : (Expr.form 0).Judges DecafCheck.Expr.tree Expr.operators ls Q D left)
    (ihr : (Expr.form 0).Judges DecafCheck.Expr.tree Expr.operators ls Q D right) :
    (Expr.form 0).Judges DecafCheck.Expr.tree Expr.operators ls Q D (.binary op left right) := by
  intro k n hk
  have hsubl := ihl k n hk.left
  have hsubr (m : Nat) := ihr (k + (left.tokens.length + 1)) m hk.right.tail
  have hspan := span_along ho hproper hk
  simp only [along_form] at hsubl hsubr ⊢
  simp only [along, DecafCheck.Expr.tree, List.drop_drop] at hspan ⊢
  rw [operators, List.forall_mem_append, List.forall_mem_append,
    List.forall_mem_singleton, ← and_assoc, Tree.throughout_above, List.forall_mem_cons,
    List.forall_mem_singleton, hsubl, hsubr]
  refine and_congr_right fun hall => c.operator _ k _ hproper
    (List.cons_ne_nil _ _) hk rfl hspan ?_
  exact List.forall_mem_cons.mpr ⟨hall.1, List.forall_mem_singleton.mpr hall.2⟩

theorem Expr.judges {d : Expr} (hd : d.Proper) :
    (Expr.form 0).Judges DecafCheck.Expr.tree Expr.operators ls Q D d := by
  induction hd with
  | integer h => exact judges_leaf c ho (.integer h) rfl rfl fun _ => rfl
  | truth => exact judges_leaf c ho .truth rfl rfl fun _ => rfl
  | location h ih => exact judges_location c ho h ih
  | call h ih => exact judges_call c ho h ih
  | group _ ih =>
    -- parentheses have no node of their own
    intro k n hk
    rw [along_form, along, operators, List.drop_drop]
    exact ih (k + 1) n hk.tail.left
  | unary hs hoperand ih => exact judges_unary c ho (.unary hs hoperand) ih
  | binary hs hs' hleft hright ihl ihr =>
    exact judges_binary c ho (.binary hs hs' hleft hright) ihl ihr

theorem Expr.throughout_iff {d : Expr} (hd : d.Proper) {k : Nat}
    (hk : Spelt ls k d.tokens) (n : Nat) :
    ((d.along (ls.drop k)).tree n).Throughout Q ↔ ∀ e ∈ d.operators, D e :=
  judges c ho hd k n hk

theorem Variable.judges (v : Variable) :
    Variable.form.Judges DecafCheck.Variable.tree (fun _ => []) ls Q D v := by
  intro k n hk
  refine Iff.trans (c.throughout_iff ho hk (List.cons_ne_nil _ _) v.balanced (by rfl) rfl) ?_
  exact iff_of_true (List.forall_mem_nil _) (List.forall_mem_nil _)

theorem Stmt.judges_assign {name : String} {i : Option Expr} {v : Expr} (hi : ∀ d ∈ i, d.Proper)
    (hv : v.Proper) :
    Stmt.form.Judges DecafCheck.Stmt.tree Stmt.operators ls Q D (.assign name i v) := by
  intro k n hk
  have htokens := Stmt.tokens_assign name i v
  have hparts : Spelt ls k ((Expr.location name i).tokens ++ .mark .assign ::
      (v.tokens ++ [.mark .semicolon])) :=
    htokens ▸ hk
  have hproper : (Expr.location name i).Proper := .location hi
  have hlocation := Expr.throughout_iff c ho hproper hparts.left n
  have hvalue := Expr.throughout_iff c ho hv hparts.right.tail.left
  have hne : (Stmt.assign name i v).tokens ≠ [] := by simp [htokens]
  rw [Expr.along_location] at hlocation
  simp only [Expr.index, List.drop_drop] at hlocation
  simp only [Stmt.form, Stmt.along, DecafCheck.Stmt.tree, List.drop_drop]
  refine Iff.trans (c.throughout_iff ho hk hne (Stmt.balanced (.assign hi hv)) (by rfl) rfl) ?_
  rw [List.forall_mem_cons, List.forall_mem_singleton, Stmt.operators, List.forall_mem_append]
  exact and_congr hlocation (hvalue _)

theorem Stmt.judges_call {name : String} {ds : List Expr} (hds : ∀ d ∈ ds, d.Proper) :
    Stmt.form.Judges DecafCheck.Stmt.tree Stmt.operators ls Q D (.call name ds) := by
  intro k n hk
  have htokens : (Stmt.call name ds).tokens =
      .identifier name :: (Expr.form 0).parenthesized.tokens ds ++ [.mark .semicolon] := by
    rw [Stmt.tokens_call, Expr.tokens_call]
  have hparts : Spelt ls k (.identifier name :: (Expr.form 0).parenthesized.tokens ds ++
      [.mark .semicolon]) :=
    htokens ▸ hk
  have hrow := Form.judges_parenthesized (fun d hd => Expr.judges c ho (hds d hd))
    hparts.left.tail n
  have hne : (Stmt.call name ds).tokens ≠ [] := by simp [htokens]
  simp only [Stmt.form, Stmt.along, Expr.alongRow_eq, DecafCheck.Stmt.tree, List.drop_drop]
  refine Iff.trans (c.throughout_iff ho hk hne (Stmt.balanced (.call hds)) (by rfl) rfl) ?_
  simp only [Form.parenthesized, List.drop_drop] at hrow
  rw [Stmt.operators]
  exact hrow

theorem Stmt.judges_ret {d : Option Expr} (hd : ∀ e ∈ d, e.Proper) :
    Stmt.form.Judges DecafCheck.Stmt.tree Stmt.operators ls Q D (.ret d) := by
  intro k n hk
  have hne : (Stmt.ret d).tokens ≠ [] := by simp [Stmt.tokens_ret]
  simp only [Stmt.form, Stmt.along, DecafCheck.Stmt.tree, List.drop_drop]
  refine Iff.trans (c.throughout_iff ho hk hne (Stmt.balanced (.ret hd)) (by rfl) rfl) ?_
  rw [Stmt.operators]
  cases d with
  | none => exact iff_of_true (List.forall_mem_nil _) (List.forall_mem_nil _)
  | some e =>
    have hvalue := Expr.throughout_iff c ho (hd e rfl) (Spelt.left (Spelt.tail hk)) n
    simpa [DecafCheck.Expr.tree?, Tree.row] using hvalue

theorem Stmt.judges_jump {j : Jump} :
    Stmt.form.Judges DecafCheck.Stmt.tree Stmt.operators ls Q D (.jump j) := by
  intro k n hk
  simp only [Stmt.form, Stmt.along, DecafCheck.Stmt.tree]
  refine Iff.trans (c.throughout_iff ho hk (List.cons_ne_nil _ _) (Stmt.balanced .jump)
    (by rfl) rfl) ?_
  exact iff_of_true (List.forall_mem_nil _) (List.forall_mem_nil _)

theorem Block.judges_mk {vars : List Variable} {ss : List Stmt}
    (hproper : (Block.mk vars ss).Proper)
    (hss : ∀ s ∈ ss, Stmt.form.Judges DecafCheck.Stmt.tree Stmt.operators ls Q D s) :
    Block.form.Judges DecafCheck.Block.tree Block.operators ls Q D (.mk vars ss) := by
  intro k n hk
  have hparts : Spelt ls k (.mark .leftBrace :: (Variable.form.many.tokens vars ++
      (Stmt.form.many.tokens ss ++ [.mark .rightBrace]))) := Block.tokens_mk vars ss ▸ hk
  have hvars := Form.judges_many (fun v (_ : v ∈ vars) => Variable.judges c ho v) hparts.tail.left n
  have hstatements (m : Nat) := Form.judges_many hss hparts.tail.right.left m
  have hne : (Block.mk vars ss).tokens ≠ [] := by simp [Block.tokens_mk]
  simp only [Block.form, Block.along, Stmt.alongAll_eq, DecafCheck.Block.tree_mk, List.drop_drop]
  refine Iff.trans (c.throughout_iff ho hk hne (Block.balanced hproper) (by rfl) rfl) ?_
  rw [List.forall_mem_append, hvars, Block.operators, Stmt.operatorsAll_eq,
    ← Nat.add_assoc, hstatements]
  exact and_iff_right (by simp)

mutual

theorem Stmt.judges :
    ∀ {s : Stmt}, s.Proper → Stmt.form.Judges DecafCheck.Stmt.tree Stmt.operators ls Q D s
  | .assign _ _ _, .assign hi hv => Stmt.judges_assign c ho hi hv
  | .call _ _, .call hds => Stmt.judges_call c ho hds
  | .branch d yes none, .branch hd hyes hno => by
    intro k n hk
    have hcondition := Expr.throughout_iff c ho hd (Spelt.left (Spelt.tail (Spelt.tail hk))) n
    have hparts : Spelt ls (k + (d.tokens.length + 3)) (yes.tokens ++ []) := Spelt.behind hk
    have hblock (m : Nat) := Block.judges hyes _ m hparts.left
    simp only [Stmt.form, Stmt.along, Block.alongElse, DecafCheck.Stmt.tree, List.drop_drop]
    refine Iff.trans (c.throughout_iff ho hk (List.cons_ne_nil _ _)
      (Stmt.balanced (.branch hd hyes hno)) (by rfl) rfl) ?_
    rw [List.forall_mem_cons, List.forall_mem_singleton, Stmt.operators, Block.elseOperators,
      List.append_nil, List.forall_mem_append]
    exact and_congr hcondition (hblock _)
  | .branch d yes (some no), .branch hd hyes hno => by
    intro k n hk
    have hcondition := Expr.throughout_iff c ho hd (Spelt.left (Spelt.tail (Spelt.tail hk))) n
    have hparts : Spelt ls (k + (d.tokens.length + 3))
        (yes.tokens ++ .keyword .else_ :: no.tokens) := Spelt.behind hk
    have hblock (m : Nat) := Block.judges hyes _ m hparts.left
    have hno' := hparts.right.tail
    rw [Nat.add_assoc k] at hno'
    have hother (m : Nat) := Block.judges (hno no rfl) _ m hno'
    simp only [Stmt.form, Stmt.along, Block.alongElse, DecafCheck.Stmt.tree, List.drop_drop]
    refine Iff.trans (c.throughout_iff ho hk (List.cons_ne_nil _ _)
      (Stmt.balanced (.branch hd hyes hno)) (by rfl) rfl) ?_
    rw [List.forall_mem_cons, List.forall_mem_cons, List.forall_mem_singleton, Stmt.operators,
      Block.elseOperators, List.forall_mem_append, List.forall_mem_append]
    exact and_congr hcondition (and_congr (hblock _) (hother _))
  | .loop d body, .loop hd hbody => by
    intro k n hk
    have hguard := Expr.throughout_iff c ho hd (Spelt.left (Spelt.tail (Spelt.tail hk))) n
    have hparts : Spelt ls (k + (d.tokens.length + 3)) body.tokens := Spelt.behind hk
    have hblock (m : Nat) := Block.judges hbody _ m hparts
    simp only [Stmt.form, Stmt.along, DecafCheck.Stmt.tree, List.drop_drop]
    refine Iff.trans (c.throughout_iff ho hk (List.cons_ne_nil _ _) (Stmt.balanced (.loop hd hbody))
      (by rfl) rfl) ?_
    rw [List.forall_mem_cons, List.forall_mem_singleton, Stmt.operators, List.forall_mem_append]
    exact and_congr hguard (hblock _)
  | .ret _, .ret hd => Stmt.judges_ret c ho hd
  | .jump _, .jump => Stmt.judges_jump c ho

theorem Block.judges :
    ∀ {b : Block}, b.Proper → Block.form.Judges DecafCheck.Block.tree Block.operators ls Q D b
  | .mk _ _, .mk hvars hss =>
    Block.judges_mk c ho (.mk hvars hss) fun s hs => Stmt.judges (hss s hs)

end

theorem Declaration.judges {d : Declaration} (hd : d.Proper) :
    Declaration.form.Judges DecafCheck.Declaration.tree Declaration.operators ls Q D d := by
  intro k n hk
  rcases d with v | g
  · exact Variable.judges c ho v k n hk
  · have hparts :
        Spelt ls (k + 1 + 1 + 1)
        (Parameter.form.parenthesized.tokens g.parameters ++ g.body.tokens) :=
      Spelt.tail (Spelt.tail (Spelt.tail hk))
    have hbody := Block.judges c ho hd _ n hparts.right
    rw [Nat.add_assoc k, Nat.add_assoc k, Nat.add_assoc k] at hbody
    simp only [Declaration.form, Declaration.along, Function.along, DecafCheck.Declaration.tree,
      DecafCheck.Function.tree, List.drop_drop]
    refine Iff.trans (c.throughout_iff ho hk (List.cons_ne_nil _ _) (Function.balanced hd)
      (by rfl) rfl) ?_
    rw [List.forall_mem_singleton]
    exact hbody

/-- All nodes of a program meet `Q` exactly if all its operators meet `D`. -/
theorem Derivation.throughout_iff (d : Derivation (ls.map token)) (length : Nat) :
    (d.program.along length ls).tree.Throughout Q ↔ ∀ e ∈ d.program.operators, D e := by
  have hspelt : Spelt ls 0 (Declaration.form.many.tokens d.program.declarations) :=
    ⟨[], (List.append_nil _).trans d.tokens⟩
  have hrow := Form.judges_many (fun e he => Declaration.judges c ho (d.proper e he)) hspelt 0
  have hroot : Q (d.program.along length ls).tree := by
    refine c.plain _ rfl ?_
    have hbalanced : Balanced (Declaration.form.many.tokens d.program.declarations) :=
      Form.balanced_many fun e he => Declaration.balanced (d.proper e he)
    have hwithin := (d.within_span ho length).trans d.tokens.symm
    exact Eq.subst hwithin.symm hbalanced
  -- the root has the variables before the functions, so its subtrees are those of the row in
  -- another order
  rw [Tree.Throughout, Program.operators, ← hrow]
  simp only [(DecafCheck.Program.subtrees_tree _).mem_iff, List.forall_mem_append,
    List.forall_mem_singleton, List.forall_mem_flatMap]
  exact and_iff_left hroot

end Concrete

end Criterion

/-- The tokens inside the span of a node are those of a balanced `whole`, without parentheses that
it begins or ends with. They are balanced only if no parentheses are left out, and only operators
leave some out. -/
structure Kind.Shorn (kind : Kind) (tokensIn : Span → List Token) (span whole : Span)
    (before behind : Nat) : Prop where
  inside : span.Inside whole
  tokens : tokensIn whole = List.replicate before (.mark .leftParen) ++
    (tokensIn span ++ List.replicate behind (.mark .rightParen))
  balanced : Balanced (tokensIn whole)
  balanced_iff : Balanced (tokensIn span) ↔ before = 0 ∧ behind = 0
  plain : kind.isOperator = false → before = 0 ∧ behind = 0

theorem Kind.shorn_of_balanced (kind : Kind) {tokensIn : Span → List Token} {span : Span}
    (h : Balanced (tokensIn span)) :
    kind.Shorn tokensIn span span 0 0 := by
  refine ⟨⟨Nat.le_refl _, Nat.le_refl _⟩, ?_, h, iff_of_true h ⟨rfl, rfl⟩, fun _ => ⟨rfl, rfl⟩⟩
  simp

section Spans

variable {ls : List Lexeme} (ho : Ordered ls)

include ho

theorem Concrete.Expr.core_within {d : Concrete.Expr} (hd : d.Proper) {k : Nat}
    (hk : Spelt ls k d.tokens) :
    d.Core (within ls (stretch ls (k + d.opened) (k + (d.tokens.length - d.closed)))) := by
  obtain ⟨core, hcore⟩ := exists_core hd
  have hinner : Spelt ls (k + d.opened) core := by
    rw [hcore.tokens] at hk
    have hright := hk.right.left
    rwa [List.length_replicate] at hright
  have hend : k + (d.tokens.length - d.closed) = k + d.opened + core.length := by
    rw [hcore.tokens]
    simp only [List.length_append, List.length_replicate]
    omega
  rwa [hend, ho.within_stretch hinner hcore.nonempty]

theorem Kind.shorn_operator {kind : Kind} (hkind : kind.isOperator = true) {d : Concrete.Expr}
    (hd : d.Proper) (hop : d.operands ≠ []) {k : Nat} (hk : Spelt ls k d.tokens) :
    kind.Shorn (within ls) (stretch ls (k + d.opened) (k + (d.tokens.length - d.closed)))
      (stretch ls k (k + d.tokens.length)) d.opened d.closed := by
  have hcore := Concrete.Expr.core_within ho hd hk
  have hlt := Concrete.Expr.opened_add_closed_lt hd
  have hne : d.tokens ≠ [] := List.ne_nil_of_length_pos (by omega)
  have hwithin := ho.within_stretch hk hne
  have hle := hk.length_le hne
  refine ⟨ho.stretch_inside (by omega) (by omega) (by omega) hle, ?_, ?_, ?_, ?_⟩
  · exact hwithin.trans hcore.tokens
  · rw [hwithin]
    exact Concrete.Expr.balanced hd
  · exact hcore.balanced (Concrete.Expr.isGroup_eq_false_of_operands hop)
  · intro hplain
    rw [hkind] at hplain
    cases hplain

theorem criterion_balanced :
    Criterion ls (fun x => Balanced (within ls x.span)) Concrete.Expr.Ungrouped where
  plain _ _ hb := hb
  operator d k x hd hop hk hx hspan hoperands := by
    have hshorn := Kind.shorn_operator ho hx hd hop hk
    rw [hspan, hshorn.balanced_iff, Concrete.Expr.uncut_iff_ungrouped hd hop hoperands]

theorem criterion_shorn :
    Criterion ls (fun x => ∃ whole before behind,
      x.kind.Shorn (within ls) x.span whole before behind) fun _ => True where
  plain x _ hb := ⟨_, 0, 0, x.kind.shorn_of_balanced hb⟩
  operator d k x hd hop hk hx hspan _ := by
    have hshorn := Kind.shorn_operator ho hx hd hop hk
    rw [← hspan] at hshorn
    exact iff_of_true ⟨_, _, _, hshorn⟩ trivial

end Spans

theorem Forest.Carries.forall_nodes_iff {f : Forest} {t : Tree} (h : f.Carries t)
    (Q : Kind → Span → Prop) :
    (∀ id kind, f.kindOf? id = some kind → Q kind (f.spanOf id)) ↔
      t.Throughout fun x => Q x.kind x.span := by
  constructor
  · intro hall x hx
    rw [← h.span x hx]
    exact hall x.id x.kind (h.kind x hx)
  · intro hall id kind hk
    obtain ⟨x, hx, rfl, rfl⟩ := h.of_kindOf? hk
    rw [h.span x hx]
    exact hall x hx

/-- The brackets inside the spans of nodes. They are balanced throughout exactly if no operand is in
parentheses; where they are not, the span is that of an operator without parentheses at its ends. -/
structure Forest.Bracketed (f : Forest) (tokensIn : Span → List Token) (p : Concrete.Program) :
    Prop where
  throughout : (∀ id kind, f.kindOf? id = some kind → Balanced (tokensIn (f.spanOf id))) ↔
    ∀ e ∈ p.operators, e.Ungrouped
  shorn : ∀ id kind, f.kindOf? id = some kind →
    ∃ whole before behind, kind.Shorn tokensIn (f.spanOf id) whole before behind

/-- The brackets inside the span of a node are balanced, but for operators with operands in
parentheses: the span of an operator goes from operand to operand and leaves out parentheses at its
ends. -/
theorem parse_bracketed {source : String} {f : Forest} (h : Forest.parse source = .ok f) :
    ∃ ls, (Scan.ofString source).tokens = .ok ls ∧
      ∃ d : Concrete.Derivation (ls.map token),
        f.Bracketed (Scan.ofString source).tokensIn d.program := by
  obtain ⟨p, hp, rfl⟩ := Forest.parse_eq_ok_iff.mp h
  obtain ⟨ls, hls⟩ := Program.exists_tokens_of_parse hp
  obtain ⟨d, rfl⟩ := (Program.parse_eq_ok_iff hls).mp hp
  have ho := Scan.ordered hls
  have hcarries := Program.grown_carries (d.program.along (Scan.ofString source).length ls)
  have hbalanced := Concrete.Derivation.throughout_iff (criterion_balanced ho) ho d
    (Scan.ofString source).length
  have hshorn := Concrete.Derivation.throughout_iff (criterion_shorn ho) ho d
    (Scan.ofString source).length
  rw [within_of_tokens hls] at hbalanced hshorn
  refine ⟨ls, hls, d, ?_, ?_⟩
  · exact (hcarries.forall_nodes_iff fun _ span =>
      Balanced ((Scan.ofString source).tokensIn span)).trans hbalanced
  · exact (hcarries.forall_nodes_iff fun kind span =>
      ∃ whole before behind, kind.Shorn (Scan.ofString source).tokensIn span whole
        before behind).mpr (hshorn.mpr fun _ _ => trivial)

/-- The inner span leaves out a parenthesis before it, and the outer one a parenthesis behind it. -/
theorem parse_bracketed_difference :
    ∃ f, Forest.parse "def int main()\x7breturn 4 - ((1) + 2);\x7d" = .ok f ∧
      f.kindOf? 3 = some (.binary .add 1 2) ∧ f.kindOf? 4 = some (.binary .sub 0 3) ∧
        ∃ ls, (Scan.ofString "def int main()\x7breturn 4 - ((1) + 2);\x7d").tokens = .ok ls ∧
          ∃ d : Concrete.Derivation (ls.map token),
            f.Bracketed (Scan.ofString "def int main()\x7breturn 4 - ((1) + 2);\x7d").tokensIn
              d.program := by
  have hkinds : (Forest.parse "def int main()\x7breturn 4 - ((1) + 2);\x7d").toOption.map
      (fun f => (f.kindOf? 3, f.kindOf? 4)) = some (some (.binary .add 1 2),
        some (.binary .sub 0 3)) := by
    decide +kernel
  obtain ⟨f, hf, hkinds⟩ := exists_ok_of_map hkinds
  obtain ⟨hinner, houter⟩ := Prod.mk.inj hkinds
  exact ⟨f, hf, hinner, houter, parse_bracketed hf⟩

/-- The brackets inside a span need not be balanced: that of a sum begins behind the parenthesis of
its first operand. -/
theorem parse_not_balanced :
    ¬ ∀ source f, source.utf8ByteSize < 4294967296 → Forest.parse source = .ok f →
      ∀ id kind, f.kindOf? id = some kind →
        Balanced ((Scan.ofString source).tokensIn (f.spanOf id)) := by
  have hfacts : (Forest.parse "def int main()\x7breturn (1) + 2;\x7d").toOption.map
      (fun f => (f.kindOf? 2,
        decide (Balanced ((Scan.ofString "def int main()\x7breturn (1) + 2;\x7d").tokensIn
          (f.spanOf 2))))) = some (some (.binary .add 0 1), false) := by decide +kernel
  obtain ⟨f, hf, hfacts⟩ := exists_ok_of_map hfacts
  obtain ⟨hkind, hunbalanced⟩ := Prod.mk.inj hfacts
  intro hall
  exact of_decide_eq_false hunbalanced (hall _ f (by decide +kernel) hf 2 _ hkind)

end DecafCheck
