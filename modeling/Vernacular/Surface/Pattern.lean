import Vernacular.Surface.Literal
import Vernacular.Table

set_option autoImplicit false

namespace Vernacular.Surface

inductive PatternForm where
  | successor
  | deferred
  | list
  | tuple
  | parallelArray
  | view
  | signature
  | splice
deriving DecidableEq

def PatternForm.description : PatternForm → String
  | .successor => "n+k patterns"
  | .deferred => "lazy patterns"
  | .list => "list patterns"
  | .tuple => "tuple patterns"
  | .parallelArray => "parallel array patterns"
  | .view => "view patterns"
  | .signature => "pattern type signatures"
  | .splice => "Template Haskell pattern splices"

inductive ConStyle where
  | ordinary
  | between
  | record
deriving DecidableEq

/-- A pattern. Forms that are never accepted carry none of their parts. -/
inductive Pattern where
  | wild (pos : Position)
  | var (pos : Position) (name : String)
  | paren (pos : Position) (inner : Pattern)
  | strict (pos : Position) (inner : Pattern)
  | named (pos : Position) (name : String) (inner : Pattern)
  | con (pos : Position) (name : String) (style : ConStyle) (args : List Pattern)
  | literal (pos : Position) (value : Literal)
  | overloaded (pos : Position) (negated : Bool) (value : OverLiteral)
  | unsupported (pos : Position) (form : PatternForm)
  | unknown (pos : Position)
deriving Inhabited

mutual

def Pattern.lower (table : Table) : Pattern → Except Fault Vernacular.Pattern
  | .wild _ => .ok .wild
  | .var _ x => .ok (.var (table.valueName x))
  | .paren pos p => Fault.locating pos (p.lower table)
  | .strict pos p => Fault.locating pos (p.lower table)
  | .named pos x p => Fault.locating pos do
    let inner ← p.lower table
    return .named inner (table.valueName x)
  | .con pos c style ps => Fault.locating pos do
    match style with
    | .between => throw (.unsupported "infix constructor patterns")
    | .record => throw (.unsupported "record constructor patterns")
    | .ordinary =>
      let args ← Pattern.lowerAll table ps
      return .con (table.valueName c) args
  | .literal pos l => Fault.locating pos l.lowerPattern
  | .overloaded pos negated l => Fault.locating pos do
    if negated then throw (.unsupported "negative literal patterns") else l.lowerPattern
  | .unsupported pos form => Fault.locating pos (.error (.unsupported form.description))
  | .unknown pos => Fault.locating pos (.error (.malformed .unknownPattern))

def Pattern.lowerAll (table : Table) : List Pattern → Except Fault (List Vernacular.Pattern)
  | [] => .ok []
  | p :: ps => do
    let first ← p.lower table
    let rest ← Pattern.lowerAll table ps
    return first :: rest

end

end Vernacular.Surface
