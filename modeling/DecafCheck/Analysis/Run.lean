import DecafCheck.Analysis.Basic
import DecafCheck.Report.Snippet
import DecafCheck.Forest.Dump
import DecafCheck.Token.Dump

namespace DecafCheck

structure Options where
  dumpTokens : Bool := false
  dumpTree : Bool := false
  dumpSymbols : Bool := false
  verbose : Bool := false
  policy : Policy := {}
deriving DecidableEq, Repr

/-- What a run writes, and what it comes to. -/
structure Run (α : Type) where
  written : String
  result : Except Stop α

namespace Run

def pure {α : Type} (a : α) : Run α :=
  ⟨"", .ok a⟩

/-- Goes on with the result of a run that was not stopped. -/
def bind {α β : Type} (r : Run α) (next : α → Run β) : Run β :=
  match r.result with
  | .ok a =>
    let after := next a
    ⟨r.written ++ after.written, after.result⟩
  | .error stop => ⟨r.written, .error stop⟩

instance : Monad Run where
  pure := Run.pure
  bind := Run.bind

def write (text : String) : Run Unit :=
  ⟨text, .ok ()⟩

def writeIf (condition : Bool) (text : String) : Run Unit :=
  write (if condition then text else "")

/-- Takes a step that may stop the run. What stops it is reported on the file. -/
def step {α : Type} (file : SourceFile) : Except Stop α → Run α
  | .ok a => pure a
  | .error stop => ⟨stop.failure.report.render [file] 0, .error stop⟩

end Run

/-- A dump between its two headings. -/
def framed (title ending body : String) : String :=
  "=== " ++ title ++ " ===\n" ++ body ++ "=== End " ++ ending ++ " ===\n\n"

/-- The value of a pass, or what stopped it. -/
def Outcome.result {α : Type} (o : Outcome α) : Except Stop α :=
  match o.stop with
  | some stop => .error stop
  | none => .ok o.value

def dumpTokens (file : SourceFile) : Run Unit := do
  let dump ← Run.step file ((Scan.ofString file.text).dump.mapError Stop.lexical)
  Run.write (framed "Decaf Tokens" "Tokens" dump)

def dumpSymbols (file : SourceFile) (f : Forest) : Run Unit := do
  let dump ← Run.step file (f.dumpSymbols.mapError Stop.fault)
  Run.write (framed "Symbol Tables" "Symbol Tables" dump)

/-- Checks a file and tells about it as the options ask. -/
def run (options : Options) (file : SourceFile) : Run Analysis := do
  if options.dumpTokens then
    dumpTokens file
  Run.writeIf options.verbose ("Parsing " ++ file.name ++ "...\n")
  let forest ← Run.step file (Forest.parse file.text)
  Run.writeIf options.dumpTree (framed "Decaf AST" "AST" (forest.outline.indented 0 ++ "\n"))
  Run.writeIf options.verbose "Building scopes...\n"
  let scopes := forest.buildScopes options.policy
  let annotated ← Run.step file scopes.result
  Run.writeIf options.verbose ("  " ++ toString scopes.log.length ++ " scope diagnostic(s)\n")
  if options.dumpSymbols then
    dumpSymbols file annotated
  Run.writeIf options.verbose "Type checking...\n"
  let types := annotated.checkTypes []
  let known ← Run.step file types.result
  Run.writeIf options.verbose ("  " ++ toString types.log.length ++ " type diagnostic(s)\n")
  let log := scopes.log ++ types.log
  Run.write (String.join (log.map fun d => d.report.render [file] 0))
  return ⟨annotated, known, log⟩

end DecafCheck
