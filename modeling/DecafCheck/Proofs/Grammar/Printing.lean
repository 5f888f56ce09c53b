import DecafCheck.Proofs.Grammar.Lookahead
import DecafCheck.Proofs.Grammar.Writing

namespace DecafCheck

open Token

namespace Form

variable {δ α : Type} {F : Form δ α} {P : α → Prop}

theorem forall_along_many {ds : List δ}
    (h : ∀ d ∈ ds, AllGenuine (F.tokens d) → ∀ ls, P (F.along ls d))
    (hts : AllGenuine (F.many.tokens ds)) (ls : List Lexeme) : ∀ a ∈ F.many.along ls ds, P a := by
  induction ds generalizing ls with
  | nil => exact List.forall_mem_nil _
  | cons d ds ih =>
    obtain ⟨hd, hds⟩ := List.forall_mem_cons.mp h
    obtain ⟨ht, hts⟩ := allGenuine_append.mp (tokens_many_cons d ds ▸ hts)
    exact List.forall_mem_cons.mpr ⟨hd ht ls, ih hds hts _⟩

theorem forall_along_row {ds : List δ}
    (h : ∀ d ∈ ds, AllGenuine (F.tokens d) → ∀ ls, P (F.along ls d))
    (hts : AllGenuine (F.row.tokens ds)) (ls : List Lexeme) : ∀ a ∈ F.row.along ls ds, P a := by
  cases ds with
  | nil => exact List.forall_mem_nil _
  | cons d ds =>
    obtain ⟨hd, hds⟩ := List.forall_mem_cons.mp h
    obtain ⟨ht, hts⟩ := allGenuine_append.mp (tokens_row_cons d ds ▸ hts)
    refine List.forall_mem_cons.mpr ⟨hd ht ls, forall_along_many (fun d h ht ls => ?_) hts _⟩
    exact hds d h (allGenuine_cons.mp ht).2 _

end Form

namespace Concrete

theorem Expr.writable_along {d : Expr} (hd : d.Proper) (hts : AllGenuine d.tokens)
    (ls : List Lexeme) :
    (d.along ls).Writable := by
  induction hd generalizing ls with
  | integer hlt =>
    rw [along]
    exact .integer (Int.natCast_nonneg _) (Int.ofNat_lt.mpr hlt)
  | truth =>
    rw [along]
    exact .truth
  | @location name i _ ih =>
    rw [tokens_location, allGenuine_cons, genuine_identifier_iff] at hts
    rw [along_location]
    refine .location hts.1 fun e he => ?_
    cases i with
    | none => cases he
    | some d =>
      simp only [index, allGenuine_cons, allGenuine_append] at hts
      obtain rfl := Option.some.inj he
      exact ih d rfl hts.2.2.1 _
  | @call name ds _ ih =>
    rw [tokens_call, allGenuine_cons, genuine_identifier_iff] at hts
    simp only [Form.parenthesized, allGenuine_cons, allGenuine_append] at hts
    rw [along_call]
    exact .call hts.1 (Form.forall_along_row (F := form 0) ih hts.2.2.1 _)
  | group _ ih =>
    rw [tokens_group, allGenuine_cons, allGenuine_append] at hts
    rw [along]
    exact ih hts.2.1 _
  | unary _ _ ih =>
    rw [tokens, allGenuine_cons] at hts
    rw [along]
    exact .unary (ih hts.2 _)
  | binary _ _ _ _ ihl ihr =>
    rw [tokens, allGenuine_append, allGenuine_cons] at hts
    rw [along]
    exact .binary (ihl hts.1 _) (ihr hts.2.2 _)

theorem Variable.writable_along {v : Variable} (hv : v.Proper) (hts : AllGenuine v.tokens)
    (ls : List Lexeme) :
    (v.along ls).Writable := by
  simp only [tokens, allGenuine_cons, genuine_identifier_iff] at hts
  refine ⟨hts.2.1, ?_⟩
  cases hlength : v.length with
  | none => simp [along, hlength, arrayBound]
  | some spelling => simpa [along, hlength] using hv spelling hlength

mutual

theorem Stmt.writable_along :
    ∀ {s : Stmt}, s.Proper → AllGenuine s.tokens → ∀ ls, (s.along ls).Writable
  | .assign name i v, .assign hi hv, hts, ls => by
    simp only [Stmt.tokens_assign, allGenuine_append, allGenuine_cons] at hts
    have hlocation := Expr.writable_along (.location hi) hts.1 ls
    rw [Expr.along_location] at hlocation
    cases hlocation with
    | location hname hindex =>
      refine .assign hname ?_ (Expr.writable_along hv hts.2.2.1 _)
      simpa only [Expr.index, List.drop_drop] using hindex
  | .call name ds, .call hds, hts, ls => by
    simp only [Stmt.tokens_call, allGenuine_append] at hts
    have hcall := Expr.writable_along (.call hds) hts.1 ls
    rw [Expr.along_call] at hcall
    cases hcall with
    | call hname has =>
      refine .call hname ?_
      simpa only [Expr.alongRow_eq, Form.parenthesized, List.drop_drop] using has
  | .branch d yes no, .branch hd hyes hno, hts, ls => by
    simp only [Stmt.tokens, allGenuine_cons, allGenuine_append] at hts
    obtain ⟨-, -, htd, -, htyes, htno⟩ := hts
    refine .branch (Expr.writable_along hd htd _) (Block.writable_along hyes htyes _) ?_
    cases no with
    | none => exact fun b hb => nomatch hb
    | some no =>
      intro b hb
      obtain rfl := Option.some.inj hb
      exact Block.writable_along (hno no rfl) (allGenuine_cons.mp htno).2 _
  | .loop d body, .loop hd hbody, hts, ls => by
    simp only [Stmt.tokens, allGenuine_cons, allGenuine_append] at hts
    obtain ⟨-, -, htd, -, htbody⟩ := hts
    exact .loop (Expr.writable_along hd htd _) (Block.writable_along hbody htbody _)
  | .ret d, .ret hd, hts, ls => by
    refine .ret ?_
    cases d with
    | none => exact fun e he => nomatch he
    | some d =>
      intro e he
      obtain rfl := Option.some.inj he
      simp only [Stmt.tokens, allGenuine_cons, allGenuine_append] at hts
      exact Expr.writable_along (hd d rfl) hts.2.1 _
  | .jump j, .jump, _, ls => .jump

theorem Block.writable_along :
    ∀ {b : Block}, b.Proper → AllGenuine b.tokens → ∀ ls, (b.along ls).Writable
  | .mk vars ss, .mk hvars hss, hts, ls => by
    simp only [Block.tokens_mk, allGenuine_cons, allGenuine_append] at hts
    obtain ⟨-, htvars, htss, -⟩ := hts
    refine .mk ?_ ?_
    · exact Form.forall_along_many (F := Variable.form)
        (fun v hv => Variable.writable_along (hvars v hv)) htvars _
    · rw [Stmt.alongAll_eq]
      exact Form.forall_along_many (F := Stmt.form)
        (fun s hs => Stmt.writable_along (hss s hs)) htss _

end

theorem Function.writable_along {g : Function} (hg : g.Proper) (hts : AllGenuine g.tokens)
    (ls : List Lexeme) :
    (g.along ls).Writable := by
  simp only [tokens, Form.parenthesized, allGenuine_cons, allGenuine_append,
    genuine_identifier_iff] at hts
  obtain ⟨-, -, hname, ⟨-, htps, -⟩, htbody⟩ := hts
  have hp (p : Parameter) (_ : p ∈ g.parameters) (htp : AllGenuine (Parameter.form.tokens p))
      (ls : List Lexeme) : isName (Parameter.form.along ls p).name = true := by
    simp only [Parameter.form, allGenuine_cons, genuine_identifier_iff] at htp
    exact htp.2.1
  exact ⟨hname, Form.forall_along_row hp htps _, Block.writable_along hg htbody _⟩

theorem Program.writable_along {d : Program} (hd : d.Proper) (hts : AllGenuine d.tokens)
    (length : Nat) (ls : List Lexeme) : (d.along length ls).Writable := by
  have hdeclared (e : Declaration) (he : e ∈ d.declarations)
      (hte : AllGenuine (Declaration.form.tokens e))
      (ls : List Lexeme) : (Declaration.form.along ls e).Writable := by
    rcases e with v | g
    · exact Variable.writable_along (hd _ he) hte ls
    · exact Function.writable_along (hd _ he) hte ls
  exact Form.forall_along_many hdeclared hts ls

end Concrete

/-- What is scanned stands for itself. -/
theorem Scan.allGenuine {source : String} {ls : List Lexeme}
    (h : (ofString source).tokens = .ok ls) :
    AllGenuine (ls.map Lexeme.token) := by
  intro t ht
  obtain ⟨l, hl, rfl⟩ := List.mem_map.mp ht
  have hmem : .ok l ∈ (Scan.ofString source).lexemes := by
    rw [Scan.lexemes_eq h]
    exact List.mem_map_of_mem hl
  exact Scan.genuine_of_mem hmem

namespace Program

theorem writable_of_parse {source : String} {p : Program} (h : parse source = .ok p) :
    p.Writable := by
  obtain ⟨ls, hls⟩ := exists_tokens_of_parse h
  obtain ⟨⟨d, hd, ht⟩, rfl⟩ := (parse_eq_ok_iff hls).mp h
  apply Concrete.Program.writable_along hd
  rw [ht]
  exact Scan.allGenuine hls

theorem exists_parse_print {p : Program} (hp : p.Writable) :
    ∃ q, parse p.print = .ok q ∧ q.bare = p.bare := by
  obtain ⟨hgenuine, ⟨d, hd, ht⟩, hbare⟩ := Concrete.writes_program hp
  obtain ⟨ls, hls, htokens⟩ := exists_tokens_text hgenuine
  exact ⟨_, (parse_eq_ok_iff hls).mpr ⟨⟨d, hd, ht.trans htokens.symm⟩, rfl⟩, hbare _ _⟩

end Program

/-- Parsing what was printed gives the tree of the same program apart from spans. This holds of all
programs that can be written down, and programs that have been parsed are among them. -/
theorem Forest.parse_print :
    (∀ p : Program, p.Writable → ∃ (q : Program) (f : Forest), Program.parse p.print = .ok q ∧
      parse p.print = .ok f ∧ f.Carries q.tree ∧ q.bare = p.bare) ∧
    ∀ (source : String) (f : Forest), parse source = .ok f →
      ∃ p : Program, Program.parse source = .ok p ∧ f.Carries p.tree ∧ p.Writable ∧
        ∃ (q : Program) (g : Forest), Program.parse p.print = .ok q ∧
          parse p.print = .ok g ∧ g.Carries q.tree ∧ q.bare = p.bare := by
  have hprint (p : Program) (hp : p.Writable) :
      ∃ (q : Program) (f : Forest), Program.parse p.print = .ok q ∧
      parse p.print = .ok f ∧ f.Carries q.tree ∧ q.bare = p.bare := by
    obtain ⟨q, hq, hbare⟩ := Program.exists_parse_print hp
    exact ⟨q, _, hq, parse_eq_ok_iff.mpr ⟨q, hq, rfl⟩, q.grown_carries, hbare⟩
  refine ⟨hprint, fun source f hf => ?_⟩
  obtain ⟨p, hp, rfl⟩ := parse_eq_ok_iff.mp hf
  have hwritable := Program.writable_of_parse hp
  exact ⟨p, hp, p.grown_carries, hwritable, hprint p hwritable⟩

/-- A difference of differences, of which only one needs parentheses. -/
def Program.differences : Program :=
  let number (n : Nat) : Expr := .literal (.int n) .nowhere
  let minus (l r : Expr) : Expr := .binary .sub l r .nowhere
  let value := minus (minus (number 1) (minus (number 2) (number 3))) (number 4)
  ⟨[.function ⟨"f", .int, [], .mk [] [.ret (some value) .nowhere] .nowhere, .nowhere⟩], .nowhere⟩

theorem Forest.parse_print_differences :
    Program.differences.Writable ∧
    Program.differences.print = "def int f ( ) \x7b return 1 - ( 2 - 3 ) - 4 ; \x7d" ∧
    (∃ (q : Program) (f : Forest), Program.parse Program.differences.print = .ok q ∧
      parse Program.differences.print = .ok f ∧ f.Carries q.tree ∧
      q.bare = Program.differences.bare) ∧
    ∃ f, parse "int a[0x1]; // one" = .ok f ∧
      ∃ p : Program, Program.parse "int a[0x1]; // one" = .ok p ∧ f.Carries p.tree ∧ p.Writable ∧
        ∃ (q : Program) (g : Forest), Program.parse p.print = .ok q ∧
          parse p.print = .ok g ∧ g.Carries q.tree ∧ q.bare = p.bare := by
  have hwritable : Program.differences.Writable := by
    intro d hd
    obtain rfl := List.mem_singleton.mp hd
    refine ⟨by decide +kernel, List.forall_mem_nil _, .mk (List.forall_mem_nil _) ?_⟩
    intro s hs
    obtain rfl := List.mem_singleton.mp hs
    refine .ret fun e he => ?_
    obtain rfl := Option.some.inj he
    have hnumber {n : Int} (h : 0 ≤ n ∧ n < 5) : (Expr.literal (.int n) .nowhere).Writable :=
      .integer h.1 (Int.lt_trans h.2 (by decide))
    exact .binary (.binary (hnumber (by decide))
      (.binary (hnumber (by decide)) (hnumber (by decide)))) (hnumber (by decide))
  refine ⟨hwritable, by decide +kernel, parse_print.1 _ hwritable, ?_⟩
  apply exists_ok_of_isSome (by decide +kernel)
  intro f hf
  exact parse_print.2 _ f hf

end DecafCheck
