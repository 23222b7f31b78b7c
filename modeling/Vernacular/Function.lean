import Vernacular.Sentence
import Vernacular.Term.Names
import Vernacular.Term.Rename

/-!
Function literals from equations: the arguments get names that occur nowhere in the equations, and
are matched against the patterns. A single equation over plain variables needs no match: its
variables become the arguments.
-/

set_option autoImplicit false

namespace Vernacular

/-- The first `n` argument names, each kept off a list by underscores. -/
def freshArguments (n : Nat) (avoid : List String) : List String :=
  (List.range n).map fun i => Identifier.fresh avoid ("arg_" ++ toString i ++ "__")

/-- The renaming of pattern variables to arguments, if all patterns are variables or wildcards. Of
a repeated variable the last position counts. -/
def variableRenaming? : List Pattern → List String → Option Renaming
  | [], [] => some []
  | .var x :: ps, a :: as => (variableRenaming? ps as).map (· ++ [(x, a)])
  | .wild :: ps, _ :: as => variableRenaming? ps as
  | _, _ => none

structure FunctionLiteral where
  binders : List Binder
  body : Term

namespace FunctionLiteral

def term (f : FunctionLiteral) : Term :=
  .lam f.binders f.body

/-- The names of the arguments for a list of arms, as many as the first arm has patterns. -/
def argumentsFor (arms : List Arm) : List String :=
  freshArguments ((arms.head?.map (·.patterns.length)).getD 0) (Term.namesArms arms)

def bodyFor (args : List String) (arms : List Arm) : Term :=
  match arms with
  | [.mk ps body] =>
    match variableRenaming? ps args with
    | some m => body.rename m
    | none => .caseOf (args.map .var) arms
  | _ => .caseOf (args.map .var) arms

def ofArms (arms : List Arm) : FunctionLiteral :=
  { binders := (argumentsFor arms).map .plain
    body := bodyFor (argumentsFor arms) arms }

/-- The function as the body of a definition: a fixpoint if it refers to the defined name. -/
def recursive (f : FunctionLiteral) (name : String) : Term :=
  if name ∈ f.term.free then .fix name f.binders none f.body else f.term

end FunctionLiteral

end Vernacular
