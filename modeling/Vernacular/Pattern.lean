import Vernacular.Identifier

set_option autoImplicit false

namespace Vernacular

def parenthesized (atomic : Bool) (text : String) : String :=
  if atomic then text else "(" ++ text ++ ")"

/-- A number in decimal digits; one that was never filled in is shown as such. -/
def decimal : Option Int → String
  | none => "<nil>"
  | some n => toString n

/-- A match pattern; `missing` stands where a pattern was never filled in. -/
inductive Pattern where
  | missing
  | wild
  | var (name : String)
  | named (pattern : Pattern) (name : String)
  | con (name : String) (args : List Pattern)
  | num (value : Option Int)
  | str (value : String)
deriving Inhabited

namespace Pattern

mutual

def constructors : Pattern → List String
  | .named p _ => p.constructors
  | .con c ps => c :: constructorsAll ps
  | _ => []

def constructorsAll : List Pattern → List String
  | [] => []
  | p :: ps => p.constructors ++ constructorsAll ps

end

mutual

def bound : Pattern → List String
  | .var x => [x]
  | .named p x => p.bound ++ [x]
  | .con _ ps => boundAll ps
  | _ => []

def boundAll : List Pattern → List String
  | [] => []
  | p :: ps => p.bound ++ boundAll ps

end

mutual

/-- Renames the constructors of a pattern; the variables it binds stay. -/
def rename (m : Renaming) : Pattern → Pattern
  | .named p x => .named (p.rename m) x
  | .con c ps => .con (m.apply c) (renameAll m ps)
  | p => p

def renameAll (m : Renaming) : List Pattern → List Pattern
  | [] => []
  | p :: ps => p.rename m :: renameAll m ps

end

def isAtom : Pattern → Bool
  | .named _ _ => false
  | .con _ args => args.isEmpty
  | _ => true

mutual

def print : Pattern → String
  | .missing => "<<nil>>"
  | .wild => "_"
  | .var x => x
  | .named p x => parenthesized p.isAtom p.print ++ " as " ++ x
  | .con c ps => c ++ printArgs ps
  | .num n => decimal n
  | .str s => "\"" ++ s ++ "\""

def printArgs : List Pattern → String
  | [] => ""
  | p :: ps => " " ++ parenthesized p.isAtom p.print ++ printArgs ps

end

end Pattern

end Vernacular
