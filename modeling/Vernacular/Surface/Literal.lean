import Vernacular.Fault
import Vernacular.Term.Basic

set_option autoImplicit false

namespace Vernacular.Surface

inductive LiteralForm where
  | char
  | charPrim
  | stringPrim
  | intPrim
  | wordPrim
  | int64Prim
  | word64Prim
  | rational
  | floatPrim
  | doublePrim
deriving DecidableEq

def LiteralForm.description : LiteralForm → String
  | .char => "character literals"
  | .charPrim => "`Char#' literals"
  | .stringPrim => "`Addr#' literals"
  | .intPrim => "`Int#' literals"
  | .wordPrim => "`Word#' literals"
  | .int64Prim => "`Int64#' literals"
  | .word64Prim => "`Word64#' literals"
  | .rational => "`Rational' literals"
  | .floatPrim => "`Float#' literals"
  | .doublePrim => "`Double#' literals"

/-- A literal of a fixed type. The value of a number may be missing. -/
inductive Literal where
  | string (text : String)
  | int (value : Option Int)
  | integer (value : Option Int)
  | unsupported (form : LiteralForm)
  | unknown
deriving DecidableEq

inductive OverLiteral where
  | integral (value : Option Int)
  | fractional
  | string (text : String)
  | unknown
deriving DecidableEq

/-- The value of a numeral, which must be given and not negative. -/
def numeral (what : String) (value : Option Int) : Except Fault Int :=
  match value with
  | none => .error (.unsupported ("negative " ++ what))
  | some n => if n < 0 then .error (.unsupported ("negative " ++ what)) else .ok n

def Literal.lower : Literal → Except Fault Term
  | .string text => .ok (.str text)
  | .int n => (numeral "`Int' literals" n).map fun n => .num (some n)
  | .integer n => (numeral "`Integer' literals" n).map fun n => .num (some n)
  | .unsupported form => .error (.unsupported form.description)
  | .unknown => .error (.malformed .unknownLiteral)

def Literal.lowerPattern : Literal → Except Fault Vernacular.Pattern
  | .string text => .ok (.str text)
  | .int n => (numeral "integer literal patterns" n).map fun n => .num (some n)
  | .integer n => (numeral "integer literal patterns" n).map fun n => .num (some n)
  | .unsupported form => .error (.unsupported (form.description ++ " in patterns"))
  | .unknown => .error (.malformed .unknownLiteral)

def OverLiteral.lower : OverLiteral → Except Fault Term
  | .integral n => (numeral "integer literals" n).map fun n => .num (some n)
  | .fractional => .error (.unsupported "fractional literals")
  | .string text => .ok (.str text)
  | .unknown => .error (.malformed .unknownOverloadedLiteral)

def OverLiteral.lowerPattern : OverLiteral → Except Fault Vernacular.Pattern
  | .integral n => (numeral "integer literal patterns" n).map fun n => .num (some n)
  | .string text => .ok (.str text)
  | .fractional | .unknown => .error (.unsupported "fractional literal patterns")

end Vernacular.Surface
