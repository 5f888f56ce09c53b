import DecafCheck.Source.Span

namespace DecafCheck

/-- A line starts at byte 0 and after every line feed, and holds the line feed that ends it. -/
structure Line where
  start : Nat
  chars : List Char
deriving DecidableEq, Repr

namespace Line

/-- The lines of `cs`, of which the first starts at byte `start` with the characters `done`, in
reverse. -/
def linesFrom (start : Nat) (done : List Char) : List Char → List Line
  | [] => [⟨start, done.reverse⟩]
  | c :: cs =>
    if c == '\n' then
      ⟨start, (c :: done).reverse⟩ :: linesFrom (start + bytes (c :: done)) [] cs
    else
      linesFrom start (c :: done) cs

def ofChars (cs : List Char) : List Line :=
  linesFrom 0 [] cs

/-- The index of the last line that starts no later than `offset`. -/
def indexAt (lines : List Line) (offset : Nat) : Nat :=
  (lines.filter fun l => l.start ≤ offset).length - 1

/-- How many characters end no later than `offset`, of those that start at byte `start`. -/
def charsBefore (offset start : Nat) : List Char → Nat
  | [] => 0
  | c :: cs =>
    if start + c.utf8Size ≤ offset then charsBefore offset (start + c.utf8Size) cs + 1 else 0

/-- The column of an offset, counted in characters from one. -/
def column (l : Line) (offset : Nat) : Nat :=
  charsBefore offset l.start l.chars + 1

/-- The characters without line feeds, carriage returns and zeros at the end. -/
def visible (l : Line) : List Char :=
  (l.chars.reverse.dropWhile fun c => c == '\n' || c == '\r' || c == '\x00').reverse

end Line

end DecafCheck
