import DecafCheck.Proofs.Scope.Entries
import DecafCheck.Proofs.Typing.Local

namespace DecafCheck

/-- Where a problem found at a node is reported: at the node itself, at a part of it, at a return of
a function, or at a function of the program. -/
inductive Site
  | own
  | part
  | ret
  | function
deriving DecidableEq

namespace Problem

def site : Problem → Site
  | .test _ _ => .part
  | .index _ => .part
  | .argument _ _ _ _ => .part
  | .multipleReturns _ => .ret
  | .voidReturn _ => .ret
  | .returnType _ _ _ => .ret
  | .mainReturns _ => .function
  | .mainParameters => .function
  | _ => .own

/-- What can be wrong with a call. -/
def isOfCall : Problem → Bool
  | .undeclaredFunction _ => true
  | .notFunction _ => true
  | .arity _ _ _ => true
  | .argument _ _ _ _ => true
  | _ => false

/-- What can be wrong with a declaration. -/
def isOfDeclaration : Problem → Bool
  | .declaredTwice _ => true
  | .voidVariable _ => true
  | .emptyArray _ => true
  | .localArray _ => true
  | _ => false

end Problem

/-- What can be wrong with a construct. -/
def Kind.finds : Kind → Problem → Bool
  | .program _ _, .missingMain => true
  | .program _ _, .mainReturns _ => true
  | .program _ _, .mainParameters => true
  | .function _ _ _ _, .functionConflict _ => true
  | .function _ _ _ _, .multipleReturns _ => true
  | .function _ _ _ _, .voidReturn _ => true
  | .function _ _ _ _, .returnType _ _ _ => true
  | .assignment _ _, .assignment _ _ => true
  | .conditional _ _ _, .test _ _ => true
  | .whileLoop _ _, .test _ _ => true
  | .jump _, .jumpOutsideLoop _ => true
  | .callStatement _ _, p => p.isOfCall
  | .binary _ _ _, .operandsDiffer _ _ _ => true
  | .binary _ _ _, .operandsNotInt _ _ => true
  | .unary _ _, .operand _ _ => true
  | .call _ _, p => p.isOfCall
  | .location _ _, .undeclared _ => true
  | .location _ _, .index _ => true
  | .location _ _, .notIndexable _ => true
  | _, _ => false

/-- Everything that is reported is a problem at a place as `Q` says. -/
def Findings (Q : Problem → Span → Prop) (log : List Diagnostic) : Prop :=
  ∀ d ∈ log, ∃ p span, d = Problem.on p span ∧ Q p span

section Findings

variable {Q : Problem → Span → Prop} {log log' : List Diagnostic} {p : Problem} {span : Span}

theorem findings_nil : Findings Q [] :=
  List.forall_mem_nil _

theorem findings_one (h : Q p span) : Findings Q [p.on span] :=
  List.forall_mem_singleton.mpr ⟨p, span, rfl, h⟩

theorem Findings.append (h : Findings Q log) (h' : Findings Q log') : Findings Q (log ++ log') :=
  List.forall_mem_append.mpr ⟨h, h'⟩

theorem findings_flatMap {α : Type} {xs : List α} {f : α → List Diagnostic}
    (h : ∀ x ∈ xs, Findings Q (f x)) :
    Findings Q (xs.flatMap f) := by
  intro d hd
  obtain ⟨x, hx, hd⟩ := List.mem_flatMap.mp hd
  exact h x hx d hd

theorem findings_require {condition : Bool} (h : Q p span) :
    Findings Q (Verdict.require condition p span) := by
  unfold Verdict.require
  split
  · exact findings_nil
  · exact findings_one h

theorem Findings.filter_eq_nil (h : Findings Q log) {select : Diagnostic → Bool}
    (hs : ∀ p span, Q p span → select (p.on span) = false) : log.filter select = [] := by
  rw [List.filter_eq_nil_iff]
  intro d hd
  obtain ⟨p, span, rfl, hp⟩ := h d hd
  simp [hs p span hp]

end Findings

theorem Entry.isOfDeclaration_of_problem? {policy : Policy} {earlier : List Entry}
    {e : Entry} {p : Problem} (h : e.problem? policy earlier = some p) :
    p.isOfDeclaration = true := by
  unfold problem? at h
  split at h
  · next q hq =>
    cases h
    unfold objection? at hq
    split at hq
    · cases hq
      rfl
    · cases hq
      rfl
    · split at hq
      · cases hq
        rfl
      · cases hq
    · cases hq
  · split at h
    · cases h
      rfl
    · cases h

theorem Entry.findings_rejected (policy : Policy) (earlier es : List Entry) :
    Findings (fun p _ => p.isOfDeclaration = true) ((rejected policy earlier es).map report) := by
  induction es generalizing earlier with
  | nil => exact findings_nil
  | cons e rest ih =>
    rw [rejected, List.map_append]
    refine Findings.append (fun d hd => ?_) (ih _)
    obtain ⟨r, hr, rfl⟩ := List.mem_map.mp hd
    obtain ⟨p, hp, rfl⟩ := List.mem_map.mp hr
    exact ⟨p, e.span, rfl, isOfDeclaration_of_problem? (Option.mem_toList.mp hp)⟩

/-- Building scopes reports problems with declarations. -/
theorem Program.scopeLog_findings (policy : Policy) (p : Program) :
    Findings (fun q _ => q.isOfDeclaration = true) (p.scopeLog policy) :=
  p.report_entries policy ▸ Entry.findings_rejected policy [] p.entries

/-- Where the problems of a site are, given the span of the node, what is seen of its parts, and its
returns. -/
def Site.Holds (span : Span) (parts : List (InferredType × Span))
    (returned : List (Option InferredType × Span)) :
    Site → Span → Prop
  | .own, s => s = span
  | .part, s => s ∈ parts.map Prod.snd
  | .ret, s => s ∈ returned.map Prod.snd
  | .function, _ => False

section Verdict

variable {scopes : Scopes} {parts : List (InferredType × Span)} {span : Span}
  {Q : Problem → Span → Prop}

theorem Expr.argumentLog_findings {name : String} {position : Nat} {parameters : List DataType}
    (h : ∀ a ∈ parts, ∀ position parameter, Q (.argument position name parameter a.1) a.2) :
    Findings Q (argumentLog name position parts parameters) := by
  induction parts generalizing position parameters with
  | nil => exact findings_nil
  | cons a as ih =>
    obtain ⟨ha, has⟩ := List.forall_mem_cons.mp h
    cases parameters with
    | nil => exact findings_nil
    | cons p ps => exact (findings_require (ha position p)).append (ih has)

theorem Verdict.ofCall_findings {name : String}
    (hown : ∀ p : Problem, p.isOfCall = true → p.site = .own → Q p span)
    (hpart : ∀ p : Problem, p.isOfCall = true → p.site = .part → ∀ a ∈ parts, Q p a.2) :
    Findings Q (ofCall scopes name parts span).log := by
  unfold ofCall
  split
  · exact findings_one (hown _ rfl rfl)
  · split
    · exact (findings_require (hown _ rfl rfl)).append
        (Expr.argumentLog_findings fun a ha _ _ => hpart _ rfl rfl a ha)
    · exact findings_one (hown _ rfl rfl)

theorem Verdict.ofBinary_findings {op : BinaryOp} {left right : InferredType}
    (hdiffer : ∀ op left right, Q (.operandsDiffer op left right) span)
    (hint : ∀ op found, Q (.operandsNotInt op found) span) :
    Findings Q (ofBinary op left right span).log := by
  unfold ofBinary BinaryOp.infer
  split
  · exact findings_nil
  · next p hp =>
    split at hp
    · cases hp
      exact findings_one (hdiffer _ _ _)
    · split at hp
      · cases hp
        exact findings_one (hint _ _)
      · cases hp

theorem Function.returnLog_findings {name : String} {returns : DataType}
    {value : Option InferredType} {span : Span} (hvoid : Q (.voidReturn name) span)
    (htype : ∀ found, Q (.returnType name returns found) span) :
    Findings Q (returnLog name returns value span) := by
  unfold returnLog
  split
  · exact findings_one hvoid
  · exact findings_nil
  · exact findings_require (htype _)

theorem Function.returnsLog_findings {name : String} {returns : DataType}
    {returned : List (Option InferredType × Span)}
    (h : ∀ p : Problem, p.site = .ret → ∀ r ∈ returned, Q p r.2) :
    Findings Q (returnsLog name returns returned) := by
  have hreturn {r : Option InferredType × Span} (hr : r ∈ returned) :
      Findings Q (returnLog name returns r.1 r.2) :=
    returnLog_findings (h _ rfl r hr) fun _ => h _ rfl r hr
  cases returned with
  | nil => exact findings_nil
  | cons r rest =>
    refine (hreturn List.mem_cons_self).append (findings_flatMap fun q hq => ?_)
    have hq := List.mem_cons_of_mem r hq
    exact (findings_one (h _ rfl q hq)).append (hreturn hq)

end Verdict

/-- A verdict reports what can be wrong with the construct, at the places where this is reported. -/
theorem Kind.findings (scopes : Scopes) (inBody : Bool) (parts : List (InferredType × Span))
    (returned : List (Option InferredType × Span)) (span : Span) (k : Kind) :
    Findings (fun p s => k.finds p = true ∧ p.site.Holds span parts returned s)
      (k.verdict scopes inBody parts returned span).log := by
  have hpart {a : InferredType × Span} (ha : a ∈ parts) : Site.part.Holds span parts returned a.2 :=
    List.mem_map_of_mem ha
  have htest {k : Kind} {place : Test} (hk : ∀ found, k.finds (.test place found) = true) :
      Findings (fun p s => k.finds p = true ∧ p.site.Holds span parts returned s)
        (parts.head?.toList.flatMap (Verdict.test place)) :=
    findings_flatMap fun a ha =>
      findings_require ⟨hk _, hpart (List.mem_of_head? (Option.mem_toList.mp ha))⟩
  have hcall {k : Kind} {name : String} (hk : ∀ p : Problem, p.isOfCall = true → k.finds p = true) :
      Findings (fun p s => k.finds p = true ∧ p.site.Holds span parts returned s)
        (Verdict.ofCall scopes name parts span).log :=
    Verdict.ofCall_findings (fun p hp hs => ⟨hk p hp, hs ▸ rfl⟩) fun p hp hs a ha =>
      ⟨hk p hp, hs ▸ hpart ha⟩
  cases k with
  | function name returns parameters body =>
    refine (findings_require ⟨rfl, rfl⟩).append
      (Function.returnsLog_findings fun p hs r hr => ⟨?_, ?_⟩)
    · cases p <;> cases hs <;> rfl
    · rw [hs]
      exact List.mem_map_of_mem hr
  | assignment target value =>
    rcases parts with _ | ⟨a, _ | ⟨b, _ | _⟩⟩
    case cons.cons.nil => exact findings_require ⟨rfl, rfl⟩
    all_goals exact findings_nil
  | conditional condition yes no => exact htest fun _ => rfl
  | whileLoop guard body => exact htest fun _ => rfl
  | jump j => exact findings_require ⟨rfl, rfl⟩
  | callStatement name arguments => exact hcall fun _ => id
  | call name arguments => exact hcall fun _ => id
  | binary op left right =>
    rcases parts with _ | ⟨a, _ | ⟨b, _ | _⟩⟩
    case cons.cons.nil =>
      exact Verdict.ofBinary_findings (fun _ _ _ => ⟨rfl, rfl⟩) fun _ _ => ⟨rfl, rfl⟩
    all_goals exact findings_nil
  | unary op operand =>
    rcases parts with _ | ⟨a, _ | _⟩
    case cons.nil => exact findings_require ⟨rfl, rfl⟩
    all_goals exact findings_nil
  | location name index =>
    rw [verdict, Verdict.ofLocation]
    split
    · exact findings_one ⟨rfl, rfl⟩
    · refine findings_flatMap fun a ha => ?_
      unfold Expr.indexLog
      split
      · exact findings_one ⟨rfl, hpart ha⟩
      · exact findings_require ⟨rfl, rfl⟩
  | _ => exact findings_nil

/-- The problems of a program are reported at itself or at its functions. -/
theorem Forest.checkProgram_findings (f : Forest) (functions : List NodeId) (span : Span) :
    Findings (fun p s => p = .missingMain ∧ s = span ∨
      ((Kind.program [] []).finds p = true ∧ p.site = .function ∧
        ∃ id ∈ functions, s = f.spanOf id))
      (f.checkProgram functions span).log := by
  refine Findings.append (fun d hd => ?_) (findings_require (.inl ⟨rfl, rfl⟩))
  obtain ⟨log, hlog, hd⟩ := List.mem_flatten.mp hd
  obtain ⟨id, hid, hmain⟩ := List.mem_filterMap.mp hlog
  unfold main? at hmain
  split at hmain
  · next name returns parameters body s _ _ hn =>
    have hspan : s = f.spanOf id := by simp [spanOf, hn]
    split at hmain
    · cases hmain
      refine Findings.append ?_ ?_ d hd
      · exact findings_require (.inr ⟨rfl, rfl, id, hid, hspan⟩)
      · exact findings_require (.inr ⟨rfl, rfl, id, hid, hspan⟩)
    · cases hmain
  · cases hmain

end DecafCheck
