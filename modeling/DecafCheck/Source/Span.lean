import DecafCheck.Text.Outline

namespace DecafCheck

/-- The bytes that characters take in UTF-8. -/
def bytes : List Char → Nat
  | [] => 0
  | c :: cs => c.utf8Size + bytes cs

theorem bytes_append (cs ds : List Char) : bytes (cs ++ ds) = bytes cs + bytes ds := by
  induction cs with
  | nil => simp [bytes]
  | cons c cs ih => simp [bytes, ih, Nat.add_assoc]

/-- A half-open range of byte offsets into a source text. -/
structure Span where
  start : Nat
  stop : Nat
deriving DecidableEq, Repr, Inhabited

namespace Span

/-- The last offset: they are words of 64 bits. -/
def lastOffset : Nat :=
  0xffffffffffffffff

/-- The smallest span that covers both. -/
def merge (a b : Span) : Span :=
  ⟨min a.start b.start, max a.stop b.stop⟩

/-- A span that ends before it starts has length zero. -/
def length (s : Span) : Nat :=
  s.stop - s.start

def isEmpty (s : Span) : Bool :=
  s.length == 0

def text (s : Span) : String :=
  toString s.start ++ ".." ++ toString s.stop

def outline (s : Span) : Outline :=
  .record "Span" [.field "start" (.atom (toString s.start)), .field "end" (.atom (toString s.stop))]

theorem merge_comm (a b : Span) : a.merge b = b.merge a := by
  simp [merge, Nat.min_comm, Nat.max_comm]

theorem merge_assoc (a b c : Span) : (a.merge b).merge c = a.merge (b.merge c) := by
  simp [merge, Nat.min_assoc, Nat.max_assoc]

end Span

end DecafCheck
