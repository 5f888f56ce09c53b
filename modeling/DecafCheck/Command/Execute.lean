import DecafCheck.Command.Arguments
import DecafCheck.Command.Directory

namespace DecafCheck.Command

/-- What the command leaves behind. -/
structure Reply where
  exit : Nat
  output : String := ""
  errors : String := ""
deriving DecidableEq, Repr

def versionText : String :=
  "decafc 0.1.0\n"

def helpText : String :=
  "Semantic checker for the Decaf teaching language\n\n"
    ++ "Usage: decafc [OPTIONS] <INPUT>\n\n"
    ++ "Arguments:\n"
    ++ "  <INPUT>  Input source file (.decaf)\n\n"
    ++ "Options:\n"
    ++ "  -v, --verbose             Verbose output\n"
    ++ "      --dump-tokens         Dump tokens (for debugging)\n"
    ++ "      --dump-ast            Dump AST (for debugging)\n"
    ++ "      --dump-symbols        Dump symbol tables (for debugging)\n"
    ++ "      --global-arrays-only  Reject arrays declared inside functions\n"
    ++ "  -h, --help                Print help\n"
    ++ "  -V, --version             Print version\n"

/-- The reply to a check that came to an end. -/
def conclude (options : Options) (input : String) (a : Analysis) : Reply :=
  if a.isOk then
    { exit := 0, errors := if options.verbose then input ++ ": no errors\n" else "" }
  else
    { exit := 1, errors := input ++ ": " ++ toString a.log.length ++ " error(s)\n" }

/-- Checks an input whose text could be read. -/
def checkText (options : Options) (input text : String) : Reply :=
  let opening := if options.verbose then "Checking " ++ input ++ "\n" else ""
  let r := run options ⟨input, text⟩
  match r.result with
  | .error _ => { exit := 1, errors := opening ++ r.written }
  | .ok a =>
    let reply := conclude options input a
    { reply with errors := opening ++ r.written ++ reply.errors }

def checkInput (options : Options) (input : String) (text : Except ReadError String) : Reply :=
  match text with
  | .ok text => checkText options input text
  | .error e =>
    { exit := 1, errors := "error: failed to read " ++ input ++ ": " ++ e.message ++ "\n" }

/-- The reply to the arguments, or the input that has to be read first. -/
def prepare (words : List String) : Except Reply (Options × String) :=
  match Request.ofArguments words with
  | .error e =>
    .error
      { exit := 2, errors := "error: " ++ e.message ++ "\n\nUsage: decafc [OPTIONS] <INPUT>\n" }
  | .ok .version => .error { exit := 0, output := versionText }
  | .ok .help => .error { exit := 0, output := helpText }
  | .ok (.check options input) => .ok (options, input)

/-- The command line as a function of its arguments and of the texts that can be read. -/
def execute (read : String → Except ReadError String) (words : List String) : Reply :=
  match prepare words with
  | .error reply => reply
  | .ok (options, input) => checkInput options input (read input)

end DecafCheck.Command
