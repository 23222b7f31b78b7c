/-!
Faults of the surface program: what is wrong, and where. A fault keeps the first position it is
given, which is that of the innermost node it arose in. A failure is a fault, or some other
trouble, together with the activities it interrupted.
-/

set_option autoImplicit false

namespace Vernacular

/-- A place in the surface program; line zero says that it is not known. -/
structure Position where
  line : Int := 0
  column : Int := 0
deriving DecidableEq, Inhabited

/-- The kinds of faults. Kinds outside the known ones have only a code. -/
inductive FaultKind where
  | unsupported
  | malformed
  | rejectedRecursion
  | other (code : Int)
deriving DecidableEq

namespace FaultKind

def ofCode : Int → FaultKind
  | 0 => .unsupported
  | 1 => .malformed
  | 2 => .rejectedRecursion
  | n => .other n

def name : FaultKind → String
  | .unsupported => "unsupported"
  | .malformed => "malformed"
  | .rejectedRecursion => "rejected recursion"
  | .other _ => "unknown"

end FaultKind

inductive Defect where
  | unknownLiteral
  | unknownOverloadedLiteral
  | unknownType
  | unknownPattern
  | unknownExpression
  | unknownGuard
  | unknownGroup (code : Int)
  | lambdaWithoutPattern
  | alternativeWithoutPattern
  | alternativeWithManyPatterns
  | noAlternatives
  | incompleteGuards
  | bindingWithoutEquations
  | repeatedVariable
  | differingArity
  | functionWithoutEquations
deriving DecidableEq

def Defect.description : Defect → String
  | .unknownLiteral => "unknown literal kind"
  | .unknownOverloadedLiteral => "unknown overloaded literal kind"
  | .unknownType => "unknown type form"
  | .unknownPattern => "unknown pattern form"
  | .unknownExpression => "unknown expression form"
  | .unknownGuard => "unknown guard form"
  | .unknownGroup code => "unknown group kind " ++ toString code
  | .lambdaWithoutPattern => "no-pattern lambda"
  | .alternativeWithoutPattern => "no-pattern case alternative"
  | .alternativeWithManyPatterns => "multi-pattern case alternative"
  | .noAlternatives => "empty guard list"
  | .incompleteGuards => "possibly incomplete guards"
  | .bindingWithoutEquations => "binding without equations"
  | .repeatedVariable => "malformed multi-match variable definition"
  | .differingArity => "equations with differing numbers of arguments"
  | .functionWithoutEquations => "function without equations"

structure Fault where
  kind : FaultKind
  description : String
  position : Position := {}
deriving DecidableEq

namespace Fault

def unsupported (description : String) : Fault :=
  { kind := .unsupported, description }

def malformed (defect : Defect) : Fault :=
  { kind := .malformed, description := defect.description }

def rejected (description : String) : Fault :=
  { kind := .rejectedRecursion, description }

/-- Gives a fault a position, unless it has one. -/
def located (p : Position) (f : Fault) : Fault :=
  if f.position.line = 0 then { f with position := p } else f

def locating {α : Type} (p : Position) (r : Except Fault α) : Except Fault α :=
  r.mapError (located p)

def summary (f : Fault) : String :=
  f.kind.name ++ ": " ++ f.description

/-- The full text of a fault; only positions on a positive line are shown. -/
def message (f : Fault) : String :=
  if 0 < f.position.line then
    f.kind.name ++ " (line " ++ toString f.position.line ++ ", col " ++
      toString f.position.column ++ "): " ++ f.description
  else f.summary

end Fault

inductive Cause where
  | fault (fault : Fault)
  | plain (text : String)
deriving DecidableEq

/-- A cause, and the activities it interrupted, the outermost first. -/
structure Failure where
  context : List String := []
  cause : Cause
deriving DecidableEq

namespace Failure

def ofFault (f : Fault) : Failure :=
  { cause := .fault f }

def plain (text : String) : Failure :=
  { cause := .plain text }

def within (activity : String) (e : Failure) : Failure :=
  { e with context := activity :: e.context }

def fault? (e : Failure) : Option Fault :=
  match e.cause with
  | .fault f => some f
  | .plain _ => none

def message (e : Failure) : String :=
  let text := match e.cause with
    | .fault f => f.message
    | .plain text => text
  e.context.foldr (fun activity rest => activity ++ ": " ++ rest) text

def isDueTo (e : Failure) (kind : FaultKind) (description : String) : Bool :=
  match e.fault? with
  | some f => f.kind = kind && f.description = description
  | none => false

end Failure

end Vernacular
