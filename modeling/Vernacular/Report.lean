import Vernacular.Fault

set_option autoImplicit false

namespace Vernacular

inductive Severity where
  | error
  | warning
deriving DecidableEq

namespace Severity

def ofCode? : Int → Option Severity
  | 0 => some .error
  | 1 => some .warning
  | _ => none

def name : Severity → String
  | .error => "error"
  | .warning => "warning"

end Severity

/-- One message, about a declaration if `subject` is not empty, with advice if `hint` is not. -/
structure Diagnostic where
  severity : Severity
  message : String
  position : Position
  subject : String
  hint : String

abbrev Report := List Diagnostic

/-- The warning that a declaration was replaced because of a failure. A fault contributes its
position, and the text of its kind and description. -/
def Diagnostic.recovered (subject : String) (e : Failure) : Diagnostic :=
  { severity := .warning
    message := match e.fault? with
      | some f => f.summary
      | none => e.message
    position := match e.fault? with
      | some f => f.position
      | none => {}
    subject
    hint := "translated as an axiom" }

def Diagnostic.format (moduleName : String) (d : Diagnostic) : String :=
  d.severity.name ++ "[" ++ moduleName ++ ":" ++ toString d.position.line ++ ":" ++
    toString d.position.column ++ "]: " ++
    (if d.subject = "" then "" else d.subject ++ ": ") ++ d.message ++
    (if d.hint = "" then "" else "\n  hint: " ++ d.hint)

namespace Report

def warnings (r : Report) : Nat :=
  r.countP (·.severity = .warning)

def format (r : Report) (moduleName : String) : String :=
  "\n".intercalate (r.map (·.format moduleName))

end Report

end Vernacular
