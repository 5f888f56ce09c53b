import DecafCheck.Analysis.Session
import DecafCheck.Proofs.Analysis.Check

namespace DecafCheck

/-- The declared type, if there is a declaration. -/
def InferredType.ofSymbol? : Option Symbol → InferredType
  | some s => .known s.type
  | none => .unknown

/-- The type of an operation on two operands. -/
def BinaryOp.typeOn (op : BinaryOp) : InferredType → InferredType → InferredType
  | .known left, .known right =>
    if left ≠ right ∨ op ∈ [.add, .sub, .mul, .div, .mod, .lt, .le, .gt, .ge] ∧
      left ≠ .int then .unknown
    else if op ∈ [.add, .sub, .mul, .div, .mod] then .known .int
    else .known .bool
  | _, _ => .unknown

/-- The types of expressions, by recursion on them. Calls are to functions of the outermost
scope. -/
inductive Forest.Infers (f : Forest) (globals : Table) : NodeId → InferredType → Prop
  | literal {id : NodeId} {value : Literal} : f.kindOf? id = some (.literal value) →
      Infers f globals id (.known value.type)
  | location {id : NodeId} {name : String} {index : Option NodeId} :
      f.kindOf? id = some (.location name index) →
      Infers f globals id (.ofSymbol? (f.resolve id name))
  | call {id : NodeId} {name : String} {arguments : List NodeId} :
      f.kindOf? id = some (.call name arguments) →
      Infers f globals id (.ofSymbol? ((globals.find? name).filter Symbol.isFunction))
  | unary {id operand : NodeId} {op : UnaryOp} {type : InferredType} :
      f.kindOf? id = some (.unary op operand) →
      Infers f globals operand type → Infers f globals id type
  | binary {id left right : NodeId} {op : BinaryOp} {leftType rightType : InferredType} :
      f.kindOf? id = some (.binary op left right) → Infers f globals left leftType →
      Infers f globals right rightType → Infers f globals id (op.typeOn leftType rightType)

namespace Forest

variable {f : Forest} {globals : Table} {id : NodeId}

theorem Infers.unique {type type' : InferredType} (h : f.Infers globals id type)
    (h' : f.Infers globals id type') :
    type = type' := by
  induction h generalizing type' with
  | literal hk =>
    cases h' with
    | literal hk' =>
      cases hk.symm.trans hk'
      rfl
    | _ hk' => cases hk.symm.trans hk'
  | location hk =>
    cases h' with
    | location hk' =>
      cases hk.symm.trans hk'
      rfl
    | _ hk' => cases hk.symm.trans hk'
  | call hk =>
    cases h' with
    | call hk' =>
      cases hk.symm.trans hk'
      rfl
    | _ hk' => cases hk.symm.trans hk'
  | unary hk _ ih =>
    cases h' with
    | unary hk' h' =>
      cases hk.symm.trans hk'
      exact ih h'
    | _ hk' => cases hk.symm.trans hk'
  | binary hk _ _ ihl ihr =>
    cases h' with
    | binary hk' hl' hr' =>
      cases hk.symm.trans hk'
      rw [ihl hl', ihr hr']
    | _ hk' => cases hk.symm.trans hk'

/-- Only expressions have types. -/
theorem Infers.isExpression {type : InferredType} (h : f.Infers globals id type) :
    ∃ kind, f.kindOf? id = some kind ∧ Role.expression.fits kind = true := by
  cases h with
  | literal hk => exact ⟨_, hk, rfl⟩
  | location hk => exact ⟨_, hk, rfl⟩
  | call hk => exact ⟨_, hk, rfl⟩
  | unary hk => exact ⟨_, hk, rfl⟩
  | binary hk => exact ⟨_, hk, rfl⟩

end Forest

theorem Expr.type_binary (scopes : Scopes) (op : BinaryOp) (left right : Expr) (span : Span) :
    (Expr.binary op left right span).type scopes =
      op.typeOn (left.type scopes) (right.type scopes) := by
  rw [type]
  rcases left.type scopes with l | _
  · rcases right.type scopes with r | _
    · cases op <;> cases l <;> cases r <;> rfl
    · cases l <;> rfl
  · rfl

namespace Forest

/-- A node whose type cannot be found out is reported itself. -/
theorem verdict_reports_unknown (f : Forest) (types : Types) (id : NodeId)
    (span : Span) (kind : Kind) (h : (f.verdict types id span kind).type = some .unknown) :
    ∃ d ∈ (f.verdict types id span kind).log, d.span = span := by
  have hcall {kind : Kind} {name : String} {arguments : List NodeId}
      (h : (f.checkCall types id kind span name arguments).type = some .unknown) :
      ∃ d ∈ (f.checkCall types id kind span name arguments).log, d.span = span := by
    unfold checkCall at h ⊢
    split at h
    · cases h
    · split at h
      · cases h
      · split at h
        · exact ⟨_, List.mem_singleton_self _, rfl⟩
        · split at h
          · cases h
          · next hs =>
            rw [if_neg hs]
            exact ⟨_, List.mem_singleton_self _, rfl⟩
  cases kind with
  | binary op left right =>
    simp only [verdict, Verdict.ofBinary] at h ⊢
    cases hop : op.infer (types.get left) (types.get right) with
    | ok type =>
      rw [hop] at h
      cases h
    | error problem => exact ⟨_, List.mem_singleton_self _, rfl⟩
  | unary op operand =>
    have hoperand : types.get operand = .unknown := Option.some.inj h
    simp only [verdict, Verdict.ofUnary, hoperand]
    exact ⟨_, List.mem_singleton_self _, rfl⟩
  | call name arguments => exact hcall h
  | location name index =>
    simp only [verdict, checkLocation] at h ⊢
    split at h
    · cases h
    · split at h
      · cases h
      · exact ⟨_, List.mem_singleton_self _, rfl⟩
      · cases h
  | function name returns parameters body =>
    simp only [verdict, checkFunction] at h
    split at h
    · cases h
    · split at h <;> cases h
  | _ => cases h

variable {policy : Policy} {f : Forest} {t : Tree}

/-- The nodes of expressions get types and no others do. -/
theorem Built.isSome_type_judge (b : f.Built policy t) {above : List Tree} {x : Tree}
    (hp : t.Path above x) (types : Types) :
    (f.judge types x).type.isSome = Role.expression.fits x.kind := by
  cases hk : x.kind with
  | location name index =>
    rw [b.judge_location hp hk]
    cases (Tree.around policy above).find? name <;> rfl
  | call name arguments =>
    rw [judge, hk]
    simp only [verdict, b.checkCall_eq hp (by rw [hk]; rfl)]
    cases declared? (Tree.around policy above).globals name with
    | none => rfl
    | some s =>
      dsimp only
      split <;> rfl
  | function name returns parameters body =>
    rw [judge, hk]
    simp only [verdict, checkFunction]
    split
    · rfl
    · split <;> rfl
  | binary op left right =>
    rw [judge, hk]
    simp only [verdict, Verdict.ofBinary]
    split <;> rfl
  | _ =>
    rw [judge, hk]
    rfl

end Forest

theorem Program.exists_expression {p : Program} {x : Tree} (hx : x ∈ p.tree.subtrees)
    (hk : Role.expression.fits x.kind = true) : ∃ (e : Expr) (n : Nat), x = e.tree n := by
  obtain ⟨above, hp⟩ := Tree.exists_path hx
  rcases path_part hp with ⟨-, rfl⟩ | ⟨-, q, m, rfl⟩
  · cases hk
  · rcases q with g | ⟨_, _, _⟩ | v | s | e
    case expression => exact ⟨e, m, rfl⟩
    case statement => rcases s with _ | _ | ⟨_, _, _ | _, _⟩ | _ | _ | _ <;> cases hk
    all_goals cases hk

/-- The outermost scope around anything in a program is that of the program. -/
theorem Program.globals_around (policy : Policy) (p : Program) {above : List Tree} {x : Tree}
    (hp : p.tree.Path above x) : (Tree.around policy (x :: above)).globals = p.scope policy := by
  induction hp with
  | root =>
    rw [Tree.around_program]
    rfl
  | @child above y c hy hc ih =>
    have hne : Tree.around policy (y :: above) ≠ [] := Tree.around_ne_nil rfl hy
    rw [Tree.around]
    split
    · rw [Scopes.globals_cons hne, ih]
    · exact ih

namespace Forest

section Program

variable {policy : Policy} {f : Forest} {p : Program} {types : Types}
  (h : f.Checked policy p.tree types)

include h

/-- The type of an expression is inferred at its node, wherever it is. -/
theorem Checked.infers (e : Expr) (n : Nat) {above : List Tree}
    (hp : p.tree.Path above (e.tree n)) :
    f.Infers ⟨firsts (p.scope policy), none⟩ (e.tree n).id (e.type (Tree.around policy above)) := by
  have hkind {above : List Tree} {x : Tree} (hp : p.tree.Path above x) :
      f.kindOf? x.id = some x.kind :=
    h.carries.kind x hp.mem
  induction e generalizing n above with
  | literal value span => exact .literal (hkind hp)
  | location name index span =>
    rw [Expr.tree_location] at hp ⊢
    have hresolve := h.resolve_eq hp name
    rw [Tree.around_plain rfl] at hresolve
    have hinfers : f.Infers ⟨firsts (p.scope policy), none⟩ _ _ := .location (hkind hp)
    rw [hresolve] at hinfers
    rw [Expr.type]
    cases hfind : (Tree.around policy above).find? name <;> rw [hfind] at hinfers <;> exact hinfers
  | call name arguments span =>
    rw [Expr.tree_call] at hp ⊢
    have hinfers : f.Infers ⟨firsts (p.scope policy), none⟩ _ _ := .call (hkind hp)
    have hglobals := p.globals_around policy hp
    rw [Tree.around_plain rfl] at hglobals
    have hfind : Table.find? ⟨firsts (p.scope policy), none⟩ name =
        declared? (p.scope policy) name :=
      declared?_firsts _ name
    rw [hfind] at hinfers
    rw [Expr.type, hglobals]
    cases hd : declared? (p.scope policy) name with
    | none =>
      rw [hd] at hinfers
      exact hinfers
    | some s =>
      rw [hd, Option.filter_some] at hinfers
      cases hs : s.isFunction <;> simpa [hs, InferredType.ofSymbol?] using hinfers
  | unary op operand span ih =>
    have hoperand := ih n (hp.child (List.mem_singleton_self _))
    rw [Tree.around_plain rfl] at hoperand
    exact .unary (hkind hp) hoperand
  | binary op left right span ihl ihr =>
    have hl := ihl n (hp.child List.mem_cons_self)
    have hr := ihr _ (hp.child (List.mem_cons_of_mem _ (List.mem_singleton_self _)))
    rw [Tree.around_plain rfl] at hl hr
    rw [Expr.type_binary]
    exact .binary (hkind hp) hl hr

theorem Checked.isSome_lookup {x : Tree} (hx : x ∈ p.tree.subtrees) :
    (types.lookup x.id).isSome = Role.expression.fits x.kind := by
  obtain ⟨above, hp⟩ := Tree.exists_path hx
  rw [h.typed.fits x hx, h.isSome_type_judge hp]

/-- A node has the type that is inferred for it, and no type if none is inferred. -/
theorem Checked.lookup_eq_some_iff {id : NodeId} {type : InferredType} :
    types.lookup id = some type ↔ f.Infers ⟨firsts (p.scope policy), none⟩ id type := by
  have hfound {x : Tree} (hx : x ∈ p.tree.subtrees) (hk : Role.expression.fits x.kind = true) :
      ∃ type, types.lookup x.id = some type ∧ f.Infers ⟨firsts (p.scope policy),
        none⟩ x.id type := by
    obtain ⟨e, n, rfl⟩ := p.exists_expression hx hk
    obtain ⟨above, hp⟩ := Tree.exists_path hx
    obtain ⟨type, htype⟩ := Option.isSome_iff_exists.mp ((h.isSome_lookup hx).trans hk)
    have hget : types.get (e.tree n).id = e.type (Tree.around policy above) :=
      congrArg Prod.fst (h.agrees e n above hp).1
    rw [Types.get, htype, Option.getD_some] at hget
    exact ⟨type, htype, hget ▸ h.infers e n hp⟩
  constructor
  · intro hlookup
    have hid : id ∈ p.tree.ids := by
      by_contra hid
      cases (h.typed.inside id hid).symm.trans hlookup
    obtain ⟨x, hx, rfl⟩ := List.mem_map.mp hid
    have hk : Role.expression.fits x.kind = true := by rw [← h.isSome_lookup hx, hlookup,
      Option.isSome_some]
    obtain ⟨type', hlookup', hinfers⟩ := hfound hx hk
    cases hlookup.symm.trans hlookup'
    exact hinfers
  · intro hinfers
    obtain ⟨kind, hkind, hk⟩ := hinfers.isExpression
    obtain ⟨x, hx, rfl, rfl⟩ := h.carries.of_kindOf? hkind
    obtain ⟨type', hlookup, hinfers'⟩ := hfound hx hk
    rw [hlookup, hinfers.unique hinfers']

theorem Checked.unknown_reported {id : NodeId} (hid : types.lookup id = some .unknown) :
    ∃ d ∈ p.log policy, d.span = f.spanOf id := by
  have hmem : id ∈ p.tree.ids := by
    by_contra hmem
    cases (h.typed.inside id hmem).symm.trans hid
  obtain ⟨x, hx, rfl⟩ := List.mem_map.mp hmem
  obtain ⟨d, hd, hspan⟩ := f.verdict_reports_unknown types x.id x.span x.kind
    ((h.typed.fits x hx).symm.trans hid)
  refine ⟨d, List.mem_append_right _ ?_, hspan.trans (h.carries.span x hx).symm⟩
  rw [← h.program]
  exact List.mem_flatMap.mpr ⟨x, hx, hd⟩

end Program

end Forest

/-- The types that the analysis of a text gives the nodes of its forest `f`. -/
structure TypesInferred (f : Forest) (a : Analysis) : Prop where
  typed : ∀ id < f.size, ((Checker.mk a.types).typeOf? id).isSome = true ↔
    ∃ kind, f.kindOf? id = some kind ∧ Role.expression.fits kind = true
  inferred : ∃ root k globals, f.root = some root ∧ a.forest.tableOf? root = some k ∧
    a.forest.tables.get k = .ok globals ∧
    ∀ id type, (Checker.mk a.types).typeOf? id = some type ↔ a.forest.Infers globals id type
  reported : ∀ id, (Checker.mk a.types).typeOf? id = some .unknown →
      ∃ d ∈ a.log, d.span = f.spanOf id
  clean : a.log = [] → ∀ id, (Checker.mk a.types).typeOf? id ≠ some .unknown

/-- Checking a text gives the expressions in it, and nothing else, the types that are inferred for
them. An expression without a sensible type is reported, so a text without problems has none. -/
theorem types_inferred {source : String} {f : Forest} (hf : Forest.parse source = .ok f)
    (policy : Policy) :
    ∃ a, check policy source = .ok a ∧ TypesInferred f a := by
  obtain ⟨p, hp, rfl⟩ := Forest.parse_eq_ok_iff.mp hf
  obtain ⟨types, h, hcheck⟩ := check_of_parse_ok hp policy
  have hspan (id : NodeId) : (p.annotated policy).spanOf id = p.grown.spanOf id :=
    (p.grown.alike_withTables _).span id
  have hreported (id : NodeId) (hid : types.lookup id = some .unknown) :
      ∃ d ∈ p.log policy, d.span = p.grown.spanOf id :=
    hspan id ▸ h.unknown_reported hid
  refine ⟨_, hcheck, ?_, ?_, hreported, ?_⟩
  · intro id hid
    obtain ⟨x, hx, rfl⟩ := p.grown_carries.tree_of_lt hid
    have hsome : ((Checker.mk types).typeOf? x.id).isSome = Role.expression.fits x.kind :=
      h.isSome_lookup hx
    rw [hsome, p.grown_carries.kind x hx]
    simp
  · obtain ⟨hown, htable⟩ := h.holds.head
    rw [p.symbols_tree] at htable
    refine ⟨p.tree.id, 0, ⟨firsts (p.scope policy), none⟩, p.grown_carries.root, hown, ?_, ?_⟩
    · rw [Tables.get, htable]
    · exact fun id type => h.lookup_eq_some_iff
  · intro hempty id hid
    have hlog : p.log policy = [] := hempty
    obtain ⟨d, hd, -⟩ := hreported id hid
    rw [hlog] at hd
    cases hd

/-- An index that is not declared, an operation on different types, and a call of a variable. -/
theorem types_inferred_unknown :
    ∃ f, Forest.parse "int a[2]; def int main()\x7breturn -(a[b] + a()) < 1 == true;\x7d" = .ok f ∧
      ∃ a, check {} "int a[2]; def int main()\x7breturn -(a[b] + a()) < 1 == true;\x7d" = .ok a ∧
        TypesInferred f a ∧
        a.types = [(9, .unknown), (8, .known .bool), (7, .unknown), (6, .known .int), (5, .unknown),
          (4, .unknown), (3, .unknown), (2, .known .int), (1, .unknown)] := by
  have htypes :
      (check {} "int a[2]; def int main()\x7breturn -(a[b] + a()) < 1 == true;\x7d").toOption.map
      Analysis.types =
        some [(9, .unknown), (8, .known .bool), (7, .unknown), (6, .known .int), (5, .unknown),
          (4, .unknown), (3, .unknown), (2, .known .int), (1, .unknown)] := by
    decide +kernel
  apply exists_ok_of_isSome (by decide +kernel)
  intro f hf
  obtain ⟨a, ha, hinferred⟩ := types_inferred hf {}
  rw [ha] at htypes
  exact ⟨a, ha, hinferred, Option.some.inj htypes⟩

end DecafCheck
