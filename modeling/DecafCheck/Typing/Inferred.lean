import DecafCheck.Program.Basic

namespace DecafCheck

/-- An expression without a sensible type is `unknown`, which agrees with nothing, not even with
itself. -/
inductive InferredType
  | known (type : DataType)
  | unknown
deriving DecidableEq, Repr

namespace InferredType

def name : InferredType → String
  | known type => type.name
  | unknown => "<unknown>"

def isUnknown (t : InferredType) : Bool :=
  t == unknown

/-- Both are known and the same. -/
def agrees (s t : InferredType) : Bool :=
  !s.isUnknown && s == t

/-- Exactly the declared type. -/
def is (t : InferredType) (declared : DataType) : Bool :=
  t.agrees (known declared)

theorem agrees_known (s t : DataType) : (known s).agrees (known t) = (s == t) := by
  cases s <;> cases t <;> rfl

theorem unknown_agrees (t : InferredType) : unknown.agrees t = false := rfl

end InferredType

end DecafCheck
