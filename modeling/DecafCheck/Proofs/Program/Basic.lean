import DecafCheck.Program.Basic

namespace DecafCheck

theorem exists_ok_of_isSome {ε α : Type} {x : Except ε α} {P : α → Prop}
    (hx : x.toOption.isSome = true) (hP : ∀ a, x = .ok a → P a) : ∃ a, x = .ok a ∧ P a := by
  cases x with
  | ok a => exact ⟨a, rfl, hP a rfl⟩
  | error e => cases hx

theorem exists_ok_of_map {ε α β : Type} {x : Except ε α} {g : α → β} {b : β}
    (h : x.toOption.map g = some b) :
    ∃ a, x = .ok a ∧ g a = b := by
  cases x with
  | ok a => exact ⟨a, rfl, Option.some.inj h⟩
  | error e => cases h

@[elab_as_elim, induction_eliminator]
theorem Expr.induct {motive : Expr → Prop}
    (literal : ∀ value span, motive (.literal value span))
    (location : ∀ name index span, (∀ i ∈ index, motive i) → motive (.location name index span))
    (call : ∀ name arguments span, (∀ a ∈ arguments, motive a) → motive (.call name arguments span))
    (unary : ∀ op operand span, motive operand → motive (.unary op operand span))
    (binary : ∀ op left right span, motive left → motive right →
      motive (.binary op left right span))
    (e : Expr) : motive e :=
  @Expr.rec motive (fun o => ∀ i ∈ o, motive i) (fun es => ∀ a ∈ es, motive a)
    literal location call unary binary
    (fun _ h => absurd h (by simp)) (fun _ h i hi => Option.some.inj hi ▸ h)
    (fun _ h => absurd h List.not_mem_nil)
    (fun _ _ he hes a ha => (List.mem_cons.mp ha).elim (fun h => h ▸ he) (hes a)) e

/-- Statements and blocks together. -/
theorem Stmt.induct {stmt : Stmt → Prop} {block : Block → Prop}
    (assign : ∀ name index target value span, stmt (.assign name index target value span))
    (call : ∀ name arguments span, stmt (.call name arguments span))
    (branch : ∀ condition yes no span, block yes → (∀ b ∈ no, block b) →
      stmt (.branch condition yes no span))
    (loop : ∀ guard body span, block body → stmt (.loop guard body span))
    (ret : ∀ value span, stmt (.ret value span))
    (jump : ∀ j span, stmt (.jump j span))
    (mk : ∀ vars statements span, (∀ s ∈ statements, stmt s) → block (.mk vars statements span)) :
    (∀ s, stmt s) ∧ ∀ b, block b := by
  have hn : ∀ b ∈ (none : Option Block), block b := fun _ h => absurd h (by simp)
  have hs (b : Block) (h : block b) : ∀ c ∈ some b, block c := fun c hc => Option.some.inj hc ▸ h
  have he : ∀ s ∈ ([] : List Stmt), stmt s := fun _ h => absurd h List.not_mem_nil
  have hc (s : Stmt) (rest : List Stmt) (h : stmt s) (hr : ∀ s ∈ rest, stmt s) :
      ∀ r ∈ s :: rest, stmt r := fun r hm => (List.mem_cons.mp hm).elim (fun e => e ▸ h) (hr r)
  exact ⟨@Stmt.rec stmt block (fun o => ∀ b ∈ o, block b) (fun ss => ∀ s ∈ ss, stmt s)
      assign call branch loop ret jump mk hn hs he hc,
    @Block.rec stmt block (fun o => ∀ b ∈ o, block b) (fun ss => ∀ s ∈ ss, stmt s)
      assign call branch loop ret jump mk hn hs he hc⟩

namespace Block

def vars : Block → List Variable
  | mk vars _ _ => vars

def statements : Block → List Stmt
  | mk _ statements _ => statements

def span : Block → Span
  | mk _ _ span => span

end Block

namespace Program

/-- The global variables in the order of the text. -/
def vars (p : Program) : List Variable :=
  p.declarations.filterMap fun
    | .variable v => some v
    | .function _ => none

/-- The functions in the order of the text. -/
def functions (p : Program) : List Function :=
  p.declarations.filterMap fun
    | .variable _ => none
    | .function g => some g

theorem mem_vars (p : Program) {v : Variable} : v ∈ p.vars ↔ .variable v ∈ p.declarations := by
  rw [vars, List.mem_filterMap]
  constructor
  · rintro ⟨d | d, hd, h⟩ <;> cases h
    exact hd
  · exact fun hv => ⟨_, hv, rfl⟩

theorem mem_functions (p : Program) {g : Function} :
    g ∈ p.functions ↔ .function g ∈ p.declarations := by
  rw [functions, List.mem_filterMap]
  constructor
  · rintro ⟨d | d, hd, h⟩ <;> cases h
    exact hd
  · exact fun hg => ⟨_, hg, rfl⟩

end Program

end DecafCheck
