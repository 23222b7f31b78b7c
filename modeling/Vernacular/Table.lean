import Std.Data.TreeMap
import Vernacular.Identifier
import Vernacular.Text.Quoted

/-!
The renaming table: for each namespace and source identifier at most one target name, the last one
written. Identifiers without a target keep their name, escaped.
-/

set_option autoImplicit false

namespace Vernacular

inductive Namespace where
  | value
  | type
deriving DecidableEq

namespace Namespace

def ofCode? : Int → Option Namespace
  | 0 => some .value
  | 1 => some .type
  | _ => none

def code : Namespace → Int
  | .value => 0
  | .type => 1

def name : Namespace → String
  | .value => "expression"
  | .type => "type"

/-- Reads the name of a namespace; the value namespace has two short names besides. -/
def parse? (s : String) : Option Namespace :=
  if s = "expression" ∨ s = "expr" ∨ s = "value" then some .value
  else if s = "type" then some .type
  else none

def unknownMessage (s : String) : String :=
  "unknown namespace " ++ Text.quoted s

end Namespace

/-- What a table has one target for: an identifier in a namespace. -/
structure Slot where
  source : String
  space : Namespace
deriving DecidableEq

structure Targets where
  value : Option String := none
  type : Option String := none

namespace Targets

def get? (r : Targets) : Namespace → Option String
  | .value => r.value
  | .type => r.type

def set (r : Targets) (target : String) : Namespace → Targets
  | .value => { r with value := some target }
  | .type => { r with type := some target }

/-- The slots of an identifier that have a target, the value before the type. -/
def entries (r : Targets) (source : String) : List (Slot × String) :=
  [Namespace.value, Namespace.type].filterMap fun space =>
    (r.get? space).map fun target => (⟨source, space⟩, target)

end Targets

structure Table where
  records : Std.TreeMap String Targets

namespace Table

def empty : Table :=
  ⟨∅⟩

/-- Writes the target of an identifier in a namespace. Its target in the other one stays. -/
def rename (t : Table) (space : Namespace) (source target : String) : Table :=
  ⟨t.records.insert source ((t.records[source]?.getD {}).set target space)⟩

def builtins : List (Slot × String) :=
  [(⟨"*", .type⟩, "Type"), (⟨"Type", .type⟩, "Type"), (⟨"Bool", .type⟩, "bool"),
    (⟨"True", .value⟩, "true"), (⟨"False", .value⟩, "false"), (⟨"Int", .type⟩, "Z"),
    (⟨"Integer", .type⟩, "Z"), (⟨"Maybe", .type⟩, "option"), (⟨"Just", .value⟩, "Some"),
    (⟨"Nothing", .value⟩, "None"), (⟨"String", .type⟩, "string"), (⟨"[]", .type⟩, "list"),
    (⟨"[]", .value⟩, "nil"), (⟨"()", .type⟩, "unit"), (⟨"()", .value⟩, "tt"),
    (⟨"(,)", .type⟩, "prod"), (⟨"(,)", .value⟩, "pair")]

def initial : Table :=
  builtins.foldl (fun t e => t.rename e.1.space e.1.source e.2) empty

/-- The target of an identifier, or the escaped identifier when it has none. -/
def lookup (t : Table) (space : Namespace) (source : String) : String :=
  (t.records[source]?.bind (·.get? space)).getD (Identifier.escape source)

def valueName (t : Table) (source : String) : String :=
  t.lookup .value source

def typeName (t : Table) (source : String) : String :=
  t.lookup .type source

/-- The target name of a data constructor, in which a mark in front keeps constructors apart from
types. -/
def constructorName (con : String) : String :=
  "Mk_" ++ con

def registerConstructor (t : Table) (con : String) : Table :=
  t.rename .value con (constructorName con)

/-- The written slots with their targets, ordered by identifier and then namespace. -/
def entries (t : Table) : List (Slot × String) :=
  t.records.toList.flatMap fun e => e.2.entries e.1

def isTypeTarget (t : Table) (target : String) : Bool :=
  t.records.toList.any fun e => e.2.type = some target

end Table

end Vernacular
