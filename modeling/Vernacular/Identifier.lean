import Std.Data.TreeSet

set_option autoImplicit false

namespace Vernacular

namespace Identifier

def reserved : List String :=
  ["as", "at", "cofix", "else", "end", "exists", "exists2", "fix", "for", "forall", "fun", "if",
    "IF", "in", "let", "match", "mod", "return", "then", "using", "where", "with", "Prop", "Set",
    "Type", "SProp", "Definition", "Inductive", "CoInductive", "Variant", "Fixpoint", "CoFixpoint",
    "Notation", "Axiom", "Axioms", "Parameter", "Variable", "Hypothesis", "Theorem", "Lemma",
    "Record", "Structure", "Class", "Instance", "Module", "Section", "End", "Require", "Import",
    "Export", "Open", "Scope", "Local", "Global", "Let", "Proof", "Qed", "Defined", "Admitted"]

def isReserved (x : String) : Bool :=
  reserved.contains x

/-- An identifier without its final underscores. -/
def stem (x : String) : String :=
  String.ofList (x.toList.reverse.dropWhile (· = '_')).reverse

/-- Adds an underscore to a reserved word, and to a reserved word with underscores after it, so
that different identifiers stay different. -/
def escape (x : String) : String :=
  if isReserved (stem x) then x ++ "_" else x

def underscored (x : String) (n : Nat) : String :=
  x ++ String.ofList (List.replicate n '_')

/-- The name followed by the fewest underscores that keep it off a list. One of the first
`avoid.length + 1` candidates is free. -/
def fresh (avoid : List String) (x : String) : String :=
  underscored x (((List.range (avoid.length + 1)).find? (underscored x · ∉ avoid)).getD 0)

/-- The names of a list in ascending order of code points, once each. -/
def sorted (names : List String) : List String :=
  (Std.TreeSet.ofList names).toList

end Identifier

/-- A finite renaming: pairs of an old and a new name, of which the first for an old name counts. -/
abbrev Renaming := List (String × String)

namespace Renaming

def apply (m : Renaming) (x : String) : String :=
  (m.lookup x).getD x

def without (m : Renaming) (names : List String) : Renaming :=
  m.filter (·.1 ∉ names)

end Renaming

end Vernacular
