import DecafCheck.Diagnostic.Basic
import DecafCheck.Failure

namespace DecafCheck

inductive Severity
  | bug | error
deriving DecidableEq, Repr

def Severity.name : Severity → String
  | bug => "bug"
  | error => "error"

structure Label where
  span : Span
  message : String
deriving DecidableEq, Repr

structure Report where
  severity : Severity
  code : Option Code
  title : String
  label : Option Label
deriving DecidableEq, Repr

structure SourceFile where
  name : String
  text : String
deriving DecidableEq, Repr

def Diagnostic.report (d : Diagnostic) : Report :=
  ⟨.error, some d.code, d.code.description, some ⟨d.span, d.message⟩⟩

def Failure.report : Failure → Report
  | lexical message span => ⟨.error, none, "Lexer error", some ⟨span, message⟩⟩
  | grammar message span => ⟨.error, none, "Syntax error", some ⟨span, message⟩⟩
  | malformed message => ⟨.bug, none, "malformed AST: " ++ message, none⟩
  | input message => ⟨.error, none, "IO error: " ++ message, none⟩

def Report.headline (r : Report) : String :=
  let code := match r.code with
    | some c => "[" ++ c.id ++ "]"
    | none => ""
  r.severity.name ++ code ++ ": " ++ r.title ++ "\n"

end DecafCheck
