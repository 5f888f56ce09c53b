import DecafCheck.Proofs.Grammar.Growth.Expression

namespace DecafCheck

namespace Parser

theorem run_declaration (c : Cursor) : declaration.run c =
    (if c.current == some (.keyword .def_) then function >>= fun g => pure (.function g)
    else if c.current.any Token.isType then variableDeclaration >>= fun v => pure (.variable v)
    else fail (.expected .declaration c.current)).run c := by
  rw [declaration, run_bind]
  rfl

end Parser

theorem Forest.plantRow_mk {α : Type} (f : Forest) (as : List α) :
    plantRow Prod.mk f as = (f, as) := by
  induction as with
  | nil => rfl
  | cons a as ih => simp only [plantRow, ih]

/-- No block or one. -/
def Block.plant? (f : Forest) : Option Block → Forest × Option NodeId
  | none => (f, none)
  | some b =>
    let (f, id) := plant f b
    (f, some id)

theorem Stmt.plant_branch (test : Expr) (yes : Block) (no : Option Block) (span : Span)
    (f : Forest) :
    (branch test yes no span).plant f =
      let (f, test) := test.plant f
      let (f, yes) := yes.plant f
      let (f, no) := Block.plant? f no
      f.add (.conditional test yes no) span := by
  cases no <;> simp only [plant, Block.plant?]

namespace Growing

section Statements

variable {limit spare b : Nat} {c : Cursor} {f : Forest} {number : Numbering}
  (hnumber : ∀ n < limit, number n = some n)

include hnumber

theorem raises_variableDeclaration :
    Raises limit Parser.Anywhere 1 b Parser.variableDeclaration Variable.plant fun _ =>
      variableDeclaration number := by
  constructor
  intro spare c f _ h
  rw [← bind_pure Parser.variableDeclaration]
  unfold variableDeclaration
  apply h.read Parser.local_variableDeclaration
  intro v d hd h₁
  exact Ready.finish hnumber h₁ fun h₂ => ⟨rfl, hd, h₂⟩

theorem raises_condition :
    Raises limit Parser.Anywhere 1 b Parser.condition Expr.plant (condition number) := by
  constructor
  intro spare c f _ h
  unfold Parser.condition condition
  apply h.read Parser.local_expect
  intro _ d hd h₁
  apply (raises_expression hnumber).next trivial h₁
  intro e d' id g he hd' h₂
  apply h₂.read Parser.local_expect
  intro _ d'' hd'' h₃
  exact grows_pure ⟨he, ((hd.trans hd').trans hd'').weaken (by omega), h₃.less (by omega)⟩

theorem raises_returned? :
    Raises limit Parser.Anywhere 0 b Parser.returned? Expr.plant? (returned? number) := by
  constructor
  intro spare c f _ h
  unfold Parser.returned? returned?
  apply grows_look rfl
  cases (c.current == some (.mark .semicolon)) with
  | true => exact grows_pure ⟨rfl, Cursor.leads_refl h.reaches, h⟩
  | false =>
    apply (raises_expression hnumber).next trivial h
    intro e d id g he hd h₁
    refine grows_pure ⟨?_, hd.weaken (Nat.zero_le _), h₁⟩
    rw [Expr.plant?, he]

theorem raises_assignmentOrCall :
    Raises limit Parser.Anywhere 1 b Parser.assignmentOrCall Stmt.plant
      (assignmentOrCall number) := by
  constructor
  intro spare c f _ h
  have hexpression : Raises limit Parser.Anywhere 1 b Parser.expression Expr.plant
      (expression number) :=
    raises_expression hnumber
  unfold Parser.assignmentOrCall assignmentOrCall
  apply h.read Parser.local_identifier
  rintro ⟨name, start⟩ d hd h₁
  apply grows_look rfl
  cases (d.current == some (.mark .leftParen)) with
  | true =>
    apply (raises_arguments hexpression).next trivial h₁
    intro args d' ids g hargs hd' h₂
    apply h₂.read Parser.local_expect
    intro _ d'' hd'' h₃
    apply grows_look rfl
    apply Ready.finish hnumber (h₃.less (Nat.le_add_right _ _))
    intro h₄
    refine ⟨?_, ((hd.trans hd').trans hd'').weaken (by omega), h₄⟩
    rw [Stmt.plant, Expr.plantAll_eq_plantRow, hargs]
    rfl
  | false =>
    apply grows_location hnumber hexpression h₁
    intro index target d' location g hlocation hd' h₂
    apply h₂.read Parser.local_expect
    intro _ d'' hd'' h₃
    apply hexpression.next trivial h₃
    intro value e id g' hvalue he h₄
    apply h₄.read Parser.local_expect
    intro _ e' he' h₅
    apply grows_look rfl
    apply Ready.finish hnumber (h₅.less (Nat.le_add_right _ _))
    intro h₆
    refine ⟨?_, ((((hd.trans hd').trans hd'').trans he).trans he').weaken (by omega), h₆⟩
    rw [Expr.plant_location] at hlocation
    simp only [Stmt.plant, hlocation, hvalue]
    rfl

theorem raises_localVariables :
    Raises limit Parser.Anywhere 0 b
      (Parser.many (fun t => t.any Token.isType) Parser.variableDeclaration)
      Variable.plantAll (localVariables number) := by
  rw [funext fun f => funext (Variable.plantAll_eq_plantRow f)]
  exact raises_many rfl (raises_variableDeclaration hnumber).anywhere (localVariables.eq_2 number)

variable {B : Parser Block} (hB : Raises limit Parser.Anywhere 1 b B Block.plant (block number))

include hB

omit hnumber in
theorem raises_otherwise? :
    Raises limit Parser.Anywhere 0 b (Parser.otherwise? B) Block.plant? (otherwise? number) := by
  constructor
  intro spare c f _ h
  apply Grows.deeper
  simp only [Parser.otherwise?, otherwise?]
  apply grows_look rfl
  cases hfound : (c.current == some (.keyword .else_)) with
  | true =>
    apply h.skip (beq_iff_eq.mp hfound)
    intro d hd h₁
    apply hB.next trivial h₁
    intro no d' id g hno hd' h₂
    refine grows_pure ⟨?_, (hd.trans hd').weaken (Nat.zero_le _), h₂.less (by omega)⟩
    rw [Block.plant?, hno]
  | false => exact grows_pure ⟨rfl, Cursor.leads_refl h.reaches, h⟩

theorem grows_branch (h : Ready limit b spare c f) (hfound : c.current = some (.keyword .if_)) :
    Grows limit c f
      (do
        Parser.skip
        let test ← Parser.condition
        let yes ← B
        let no ← Parser.otherwise? B
        return .branch test yes no (← Parser.spanFrom c.span))
      (fun depth => do
        reading .skip
        let test ← condition number depth
        let yes ← block number depth
        let no ← otherwise? number depth
        let span ← reading (.spanFrom c.span)
        add number (.conditional test yes no) span)
      (Planted limit 1 b spare Stmt.plant c f) := by
  apply h.skip hfound
  intro d hd h₁
  apply (raises_condition hnumber).next trivial h₁
  intro test d₁ testId f₁ htest hd₁ h₂
  apply hB.next trivial h₂
  intro yes d₂ yesId f₂ hyes hd₂ h₃
  apply (raises_otherwise? hB).next trivial h₃
  intro no d₃ noId f₃ hno hd₃ h₄
  apply grows_look rfl
  apply Ready.finish hnumber h₄
  intro h₅
  refine ⟨?_, (((hd.trans hd₁).trans hd₂).trans hd₃).weaken (by omega), h₅⟩
  simp only [Stmt.plant_branch, htest, hyes, hno]
  rfl

theorem grows_loop (h : Ready limit b spare c f) (hfound : c.current = some (.keyword .while_)) :
    Grows limit c f
      (do
        Parser.skip
        let guard ← Parser.condition
        let body ← B
        return .loop guard body (← Parser.spanFrom c.span))
      (fun depth => do
        reading .skip
        let guard ← condition number depth
        let body ← block number depth
        let span ← reading (.spanFrom c.span)
        add number (.whileLoop guard body) span)
      (Planted limit 1 b spare Stmt.plant c f) := by
  apply h.skip hfound
  intro d hd h₁
  apply (raises_condition hnumber).next trivial h₁
  intro guard d₁ guardId f₁ hguard hd₁ h₂
  apply hB.next trivial h₂
  intro body d₂ bodyId f₂ hbody hd₂ h₃
  apply grows_look rfl
  apply Ready.finish hnumber h₃
  intro h₄
  refine ⟨?_, ((hd.trans hd₁).trans hd₂).weaken (by omega), h₄⟩
  simp only [Stmt.plant, hguard, hbody]
  rfl

omit hB in
theorem grows_return (h : Ready limit b spare c f) (hfound : c.current = some (.keyword .return_)) :
    Grows limit c f
      (do
        Parser.skip
        let value ← Parser.returned?
        Parser.expect .semicolon
        return .ret value (← Parser.spanFrom c.span))
      (fun depth => do
        reading .skip
        let value ← returned? number depth
        reading (.expect .semicolon)
        let span ← reading (.spanFrom c.span)
        add number (.ret value) span)
      (Planted limit 1 b spare Stmt.plant c f) := by
  apply h.skip hfound
  intro d hd h₁
  apply (raises_returned? hnumber).next trivial h₁
  intro value d₁ valueId f₁ hvalue hd₁ h₂
  apply h₂.read Parser.local_expect
  intro _ d₂ hd₂ h₃
  apply grows_look rfl
  apply Ready.finish hnumber (h₃.less (Nat.le_add_right _ _))
  intro h₄
  refine ⟨?_, ((hd.trans hd₁).trans hd₂).weaken (by omega), h₄⟩
  simp only [Stmt.plant, hvalue]
  rfl

omit hB in
theorem grows_jump (h : Ready limit b spare c f) {t : Token} (ht : c.current = some t) (j : Jump) :
    Grows limit c f
      (do
        Parser.skip
        Parser.expect .semicolon
        return .jump j (← Parser.spanFrom c.span))
      (fun _ => do
        reading .skip
        reading (.expect .semicolon)
        let span ← reading (.spanFrom c.span)
        add number (.jump j) span)
      (Planted limit 1 b spare Stmt.plant c f) := by
  apply h.skip ht
  intro d hd h₁
  apply h₁.read Parser.local_expect
  intro _ d' hd' h₂
  apply grows_look rfl
  apply Ready.finish hnumber (h₂.less (Nat.le_add_right _ _))
  exact fun h₃ => ⟨rfl, (hd.trans hd').weaken (by omega), h₃⟩

theorem raises_statement :
    Raises limit Parser.Anywhere 1 b (Parser.statement B) Stmt.plant (statement number) := by
  constructor
  intro spare c f _ h
  apply Grows.deeper
  simp only [Parser.statement, statement]
  apply grows_look rfl
  apply grows_look rfl
  generalize hfound : c.current = found
  split
  · exact (raises_assignmentOrCall hnumber).grows trivial h
  · exact grows_branch hnumber hB h hfound
  · exact grows_loop hnumber hB h hfound
  · exact grows_return hnumber h hfound
  · exact grows_jump hnumber h hfound .exit
  · exact grows_jump hnumber h hfound .next
  · try simp only
    exact h.fail

theorem raises_statements :
    Raises limit Parser.Anywhere 0 b
      (Parser.many (fun t => t.isSome && t != some (.mark .rightBrace)) (Parser.statement B))
        Stmt.plantAll
      (statements number) := by
  rw [funext fun f => funext (Stmt.plantAll_eq_plantRow f)]
  exact raises_many rfl (raises_statement hnumber hB).anywhere (statements.eq_2 number)

end Statements

section Declarations

variable {limit spare b : Nat} {c : Cursor} {f : Forest} {number : Numbering}
  (hnumber : ∀ n < limit, number n = some n)

include hnumber

theorem raises_nestedBlock (depth : Nat) :
    Raises limit Parser.Anywhere 1 depth (Parser.nestedBlock depth) Block.plant (block number) := by
  induction depth with
  | zero => exact ⟨fun _ h => absurd h.bounded (Nat.not_lt_zero _)⟩
  | succ depth ih =>
    constructor
    intro spare c f _ h
    apply Grows.deeper
    simp only [Parser.nestedBlock, block]
    apply grows_look rfl
    apply h.read Parser.local_expect
    intro _ d hd _
    have h₁ : Ready limit depth (spare + 1) d f := h.past hd
    apply (raises_localVariables hnumber).next trivial h₁
    intro vars d₁ varIds f₁ hvars hd₁ h₂
    apply (raises_statements hnumber ih).next trivial h₂
    intro body d₂ bodyIds f₂ hbody hd₂ h₃
    apply h₃.read Parser.local_expect
    intro _ d₃ hd₃ h₄
    apply grows_look rfl
    apply Ready.finish hnumber (h₄.less (Nat.le_add_right _ _))
    intro h₅
    refine ⟨?_, (((hd.trans hd₁).trans hd₂).trans hd₃).weaken (by omega), h₅.wider⟩
    simp only [Block.plant, hvars, hbody]
    rfl

theorem raises_block : Raises limit Parser.Anywhere 1 b Parser.block Block.plant (block number) :=
  raises_of_depth (raises_nestedBlock hnumber) fun c => by rw [Parser.block, Parser.run_bind,
    Parser.run_remaining]

omit hnumber in
/-- Parameters have no nodes. -/
theorem raises_parameters :
    Raises limit Parser.Anywhere 1 b (Parser.parenthesized Parser.parameter)
      (Forest.plantRow Prod.mk) parameters := by
  have hmore : Repeats (· == some (.mark .comma))
      (fun _ => reading .skip >>= fun _ => reading .parameter) moreParameters := by
    intro depth
    simp only [moreParameters, bind_assoc]
  exact raises_parenthesized (raises_reading Parser.local_parameter) hmore parameters.eq_1

theorem raises_function :
    Raises limit Parser.Anywhere 1 b Parser.function Function.plant (function number) := by
  constructor
  intro spare c f _ h
  unfold Parser.function function
  apply grows_look rfl
  apply h.read Parser.local_expectToken
  intro _ d hd h₁
  apply h₁.read Parser.local_dataType
  intro returns d₁ hd₁ h₂
  apply h₂.read Parser.local_identifier
  rintro ⟨name, _⟩ d₂ hd₂ h₃
  apply raises_parameters.next trivial h₃
  intro params d₃ params' f₁ hparams hd₃ h₄
  rw [Forest.plantRow_mk] at hparams
  cases hparams
  apply (raises_block hnumber).next trivial h₄
  intro body d₄ bodyId f₂ hbody hd₄ h₅
  apply grows_look rfl
  apply Ready.finish hnumber (h₅.less (Nat.le_add_right _ _))
  intro h₆
  refine ⟨?_, ((((hd.trans hd₁).trans hd₂).trans hd₃).trans hd₄).weaken (by omega),
    h₆.less (by omega)⟩
  simp only [Function.plant, hbody]
  rfl

theorem grows_declarations {steps : Nat} (h : Ready limit b spare c f)
    (hsteps : c.ahead.length ≤ steps) :
    Grows limit c f (Parser.manyUpTo Option.isSome Parser.declaration steps) (declarations number)
      (Planted limit 0 b spare Declaration.plantAll c f) := by
  induction hlength : c.ahead.length using Nat.strong_induction_on generalizing steps spare c f with
  | _ length ih =>
    apply Grows.deeper
    simp only [declarations]
    apply grows_peek rfl
    rcases Parser.run_manyUpTo Option.isSome Parser.declaration rfl hsteps with ⟨hstop, hrun⟩ |
      ⟨n, hgo, hn, hrun⟩
    · rw [Option.isSome_eq_false_iff] at hstop
      simp only [if_pos hstop]
      refine ⟨_, settles_const _, ?_⟩
      rw [hrun]
      exact .ok ⟨rfl, Cursor.leads_refl h.reaches, h⟩
    · have hfound : ¬ c.current.isNone = true :=
        fun hnone => Option.isSome_iff_ne_none.mp hgo (Option.isNone_iff_eq_none.mp hnone)
      have hrest {d : Cursor} {g : Forest} (hd : c.Leads 1 d) (h₁ : Ready limit b spare d g) :
          Grows limit d g (Parser.manyUpTo Option.isSome Parser.declaration n) (declarations number)
            (Planted limit 0 b spare Declaration.plantAll d g) := by
        have hless := hd.length_le
        exact ih d.ahead.length (by omega) h₁ (by omega) rfl
      rw [Parser.run_bind, Parser.run_declaration, ← Parser.run_bind] at hrun
      simp only [if_neg hfound]
      apply grows_congr hrun fun _ => rfl
      split
      · simp only [bind_assoc, pure_bind]
        apply (raises_function hnumber).next trivial h
        intro fn d id g hfn hd h₁
        apply grows_bind (hrest hd h₁)
        rintro ds d' ⟨vars, functions⟩ g' hds
        refine grows_pure ⟨?_, (hd.trans hds.leads).weaken (Nat.zero_le _), hds.ready⟩
        simp only [Declaration.plantAll, hfn, hds.planted]
      · split
        · simp only [bind_assoc, pure_bind]
          apply (raises_variableDeclaration hnumber).next trivial h
          intro v d id g hv hd h₁
          apply grows_bind (hrest hd h₁)
          rintro ds d' ⟨vars, functions⟩ g' hds
          refine grows_pure ⟨?_, (hd.trans hds.leads).weaken (Nat.zero_le _), hds.ready⟩
          simp only [Declaration.plantAll, hv, hds.planted]
        · exact h.fail

theorem grows_program (h : Ready limit b 1 c {}) :
    Grows limit c {} Parser.program (program number) fun p _ _ g => g = p.plant ∧
      g.size ≤ limit := by
  unfold Parser.program program Parser.many
  simp only [bind_assoc]
  apply grows_look rfl
  refine grows_congr (Parser.run_bind _ _ _) (fun _ => rfl) ?_
  apply grows_bind (grows_declarations hnumber h (Nat.le_refl _))
  rintro ds d ⟨vars, functions⟩ g hds
  apply grows_look rfl
  apply Ready.grow hnumber hds.ready
  intro h₁
  refine ⟨_, settles_const _, .ok ⟨?_, h₁.size_le⟩⟩
  simp only [Program.plant, hds.planted]
  rfl

end Declarations

end Growing

end DecafCheck
