import DecafCheck.Analysis.Run

namespace DecafCheck.Command

inductive Flag
  | verbose | dumpTokens | dumpTree | dumpSymbols | globalArraysOnly
deriving DecidableEq, Repr

namespace Flag

def all : List Flag :=
  [verbose, dumpTokens, dumpTree, dumpSymbols, globalArraysOnly]

def long : Flag → String
  | verbose => "--verbose"
  | dumpTokens => "--dump-tokens"
  | dumpTree => "--dump-ast"
  | dumpSymbols => "--dump-symbols"
  | globalArraysOnly => "--global-arrays-only"

end Flag

/-- Why arguments are rejected. -/
inductive UsageError
  | unknown (argument : String)
  | repeated (f : Flag)
  | extra (argument : String)
  | emptyInput
  | noInput
deriving DecidableEq, Repr

def UsageError.message : UsageError → String
  | unknown argument => "unexpected argument '" ++ argument ++ "' found"
  | repeated f => "the argument '" ++ f.long ++ "' cannot be used multiple times"
  | extra argument => "unexpected argument '" ++ argument ++ "' found"
  | emptyInput => "a value is required for '<INPUT>' but none was supplied"
  | noInput => "the following required arguments were not provided: <INPUT>"

/-- What the command line asks for. -/
inductive Request
  | check (options : Options) (input : String)
  | version
  | help
deriving DecidableEq, Repr

/-- The arguments read so far. After `--` every argument is an input. -/
structure Arguments where
  flags : List Flag := []
  input : Option String := none
  inputsOnly : Bool := false

namespace Arguments

def options (a : Arguments) : Options where
  dumpTokens := a.flags.contains .dumpTokens
  dumpTree := a.flags.contains .dumpTree
  dumpSymbols := a.flags.contains .dumpSymbols
  verbose := a.flags.contains .verbose
  policy := ⟨a.flags.contains .globalArraysOnly⟩

def finish (a : Arguments) : Except UsageError Request :=
  match a.input with
  | some input => .ok (.check a.options input)
  | none => .error .noInput

def addFlag (a : Arguments) (f : Flag) : Except UsageError Arguments :=
  if a.flags.contains f then .error (.repeated f) else .ok { a with flags := f :: a.flags }

def addInput (a : Arguments) (input : String) : Except UsageError Arguments :=
  match a.input with
  | some _ => .error (.extra input)
  | none => if input.isEmpty then .error .emptyInput else .ok { a with input := some input }

/-- An argument changes what has been read, or settles the request at once. -/
abbrev Reading := Except UsageError (Arguments ⊕ Request)

/-- The letters behind a single dash. -/
def short (a : Arguments) : List Char → Reading
  | [] => .ok (.inl a)
  | 'v' :: rest => do (← a.addFlag .verbose).short rest
  | 'V' :: _ => .ok (.inr .version)
  | 'h' :: _ => .ok (.inr .help)
  | c :: _ => .error (.unknown ("-" ++ c.toString))

/-- A word that begins with two dashes. -/
def long (a : Arguments) (word : String) : Reading :=
  if word = "--version" then .ok (.inr .version)
  else if word = "--help" then .ok (.inr .help)
  else
    match Flag.all.find? fun f => f.long == word with
    | some f => return .inl (← a.addFlag f)
    | none => .error (.unknown word)

def argument (a : Arguments) (word : String) : Reading :=
  if a.inputsOnly then return .inl (← a.addInput word)
  else
    match word.toList with
    | ['-', '-'] => return .inl { a with inputsOnly := true }
    | '-' :: '-' :: _ => a.long word
    | '-' :: c :: rest => a.short (c :: rest)
    | _ => return .inl (← a.addInput word)

/-- Reads arguments from the left, up to one that settles the request. -/
def read (a : Arguments) : List String → Except UsageError Request
  | [] => a.finish
  | word :: rest => do
    match ← a.argument word with
    | .inl a => a.read rest
    | .inr request => return request

end Arguments

def Request.ofArguments (words : List String) : Except UsageError Request :=
  ({} : Arguments).read words

end DecafCheck.Command
