import DecafCheck.Report.Basic
import DecafCheck.Source.Line
import DecafCheck.Text.Width

namespace DecafCheck

namespace Snippet

/-- A character as it is shown: where it starts in its line, and how many columns it takes. -/
structure Cell where
  byte : Nat
  char : Char
  width : Nat

/-- Tabs reach to the next multiple of four columns. -/
def cellsFrom (byte column : Nat) : List Char → List Cell
  | [] => []
  | c :: cs =>
    let width := if c == '\t' then 4 - column % 4 else Text.width c
    ⟨byte, c, width⟩ :: cellsFrom (byte + c.utf8Size) (column + width) cs

def cells (cs : List Char) : List Cell :=
  cellsFrom 0 0 cs

def repeated (n : Nat) (c : Char) : String :=
  String.ofList (List.replicate n c)

def Cell.text (c : Cell) : String :=
  if c.char == '\t' then repeated c.width ' ' else c.char.toString

def sourceText (cs : List Char) : String :=
  String.join ((cells cs).map Cell.text)

/-- A caret below each column of the label, blanks before it, nothing after it. -/
def Cell.mark (start stop : Nat) (c : Cell) : String :=
  if max start c.byte < min stop (c.byte + c.char.utf8Size) then repeated c.width '^'
  else if c.byte < stop then repeated c.width ' '
  else ""

/-- The underline of the bytes from `start` to `stop`, of which there is at least one. The end of
the line counts as one more column. -/
def underline (cs : List Char) (start stop : Nat) : String :=
  let stop := max stop (start + 1)
  let lineEnd : Cell := ⟨bytes cs, '\x00', 1⟩
  String.join ((cells cs ++ [lineEnd]).map (Cell.mark start stop))

/-- A horizontal stroke below the characters that start before `stop`, and a caret. -/
def stroke (cs : List Char) (stop : Nat) : String :=
  String.join (((cells cs).takeWhile fun c => c.byte < stop).map fun c => repeated c.width '─') ++
    "^"

/-- The bytes of the blanks that a line begins with. -/
def indentation (cs : List Char) : Nat :=
  bytes (cs.takeWhile Text.isBlank)

def trailing (message : String) : String :=
  if message.isEmpty then "" else " " ++ message

/-- The part a line plays for a label over several lines. The offsets are counted from the line's
start. -/
inductive Role
  | first (offset : Nat)
  | between
  | last (offset : Nat) (message : String)
  | aside

/-- The lines to show, by index, and the gaps between them. -/
inductive Row
  | line (index : Nat) (role : Role)
  | gap

/-- The rows between the first and the last line of a label. Of more than five lines only the first
three and the last are shown. -/
def rowsBetween (first last : Nat) : List Row :=
  let inner := (List.range' (first + 1) (last - first - 1)).map fun i => Row.line i .between
  if inner.length ≤ 5 then inner else inner.take 3 ++ [.gap] ++ inner.drop (inner.length - 1)

/-- The rows between the ends of a label that ends on an earlier line than it starts. -/
def rowsApart (last first : Nat) : List Row :=
  match first - last - 1 with
  | 0 => []
  | 1 => [.line (last + 1) .aside]
  | _ => [.gap]

/-- The rows of a label over several lines, from top to bottom. -/
def rows (first last : Nat) (start stop : Nat) (message : String) : List Row :=
  if first < last then
    .line first (.first start) :: rowsBetween first last ++ [.line last (.last stop message)]
  else
    .line last (.last stop message) :: rowsApart last first ++ [.line first (.first start)]

/-- The left edge, as wide as the largest line number. -/
structure Margin where
  width : Nat

namespace Margin

def blank (m : Margin) : String :=
  repeated m.width ' '

def numbered (m : Margin) (index : Nat) : String :=
  let number := toString (index + 1)
  repeated (m.width - number.length) ' ' ++ number

end Margin

def line (m : Margin) (l : Line) (index : Nat) : Role → String
  | .first offset =>
    if offset ≤ indentation l.visible then
      m.numbered index ++ " │ ╭ " ++ sourceText l.visible ++ "\n"
    else
      m.numbered index ++ " │   " ++ sourceText l.visible ++ "\n"
        ++ m.blank ++ " │ ╭" ++ stroke l.visible (offset + 1) ++ "\n"
  | .between => m.numbered index ++ " │ │ " ++ sourceText l.visible ++ "\n"
  | .last offset message =>
    m.numbered index ++ " │ │ " ++ sourceText l.visible ++ "\n"
      ++ m.blank ++ " │ ╰" ++ stroke l.visible offset ++ trailing message ++ "\n"
  | .aside => m.numbered index ++ " │   " ++ sourceText l.visible ++ "\n"

def row (m : Margin) (lines : List Line) : Row → String
  | .line index role => line m (lines.getD index ⟨0, []⟩) index role
  | .gap => m.blank ++ " · │\n"

/-- The snippet of a label within the line `l`. -/
def single (m : Margin) (l : Line) (index : Nat) (label : Label) : String :=
  m.blank ++ " │\n"
    ++ m.numbered index ++ " │ " ++ sourceText l.visible ++ "\n"
    ++ m.blank ++ " │ " ++ underline l.visible (label.span.start - l.start)
    (label.span.stop - l.start)
    ++ trailing label.message ++ "\n"

/-- The snippet of a label from line `first` to line `last`. -/
def multiple (m : Margin) (lines : List Line) (first last : Nat) (label : Label) : String :=
  let start := label.span.start - (lines.getD first ⟨0, []⟩).start
  let stop := label.span.stop - (lines.getD last ⟨0, []⟩).start
  m.blank ++ " │  \n" ++ String.join ((rows first last start stop label.message).map (row m lines))

/-- The place a label starts at, and its snippet. -/
def render (file : SourceFile) (label : Label) : String :=
  let lines := Line.ofChars file.text.toList
  let first := Line.indexAt lines label.span.start
  let last := Line.indexAt lines label.span.stop
  let m : Margin := ⟨(toString (max first last + 1)).length⟩
  let column := (lines.getD first ⟨0, []⟩).column label.span.start
  m.blank ++ " ┌─ " ++ file.name ++ ":" ++ toString (first + 1) ++ ":" ++ toString column ++ "\n"
    ++ (if first = last then single m (lines.getD first ⟨0, []⟩) first label
        else multiple m lines first last label)

/-- Whether a label cannot be underlined, for want of an offset behind its start. -/
def isBeyond (file : SourceFile) (label : Label) : Bool :=
  let lines := Line.ofChars file.text.toList
  let first := Line.indexAt lines label.span.start
  first == Line.indexAt lines label.span.stop
    && Span.lastOffset ≤ label.span.start - (lines.getD first ⟨0, []⟩).start

end Snippet

/-- The text of a report on one of some files. Nothing is written about a file that is not there. -/
def Report.render (files : List SourceFile) (file : Nat) (r : Report) : String :=
  match r.label with
  | none => r.headline ++ "\n"
  | some label =>
    match files[file]? with
    | none => ""
    | some source => r.headline ++ Snippet.render source label ++ "\n"

/-- The text of a report whose label may lie anywhere, also outside the file. -/
def Report.renderAnywhere (files : List SourceFile) (file : Nat) (r : Report) :
    Except Fault String :=
  match r.label, files[file]? with
  | some label, some source =>
    if Snippet.isBeyond source label then .error .beyondOffsets else .ok (r.render files file)
  | _, _ => .ok (r.render files file)

end DecafCheck
