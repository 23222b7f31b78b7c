import Vernacular.Declaration
import Vernacular.Graph.Component

set_option autoImplicit false

namespace Vernacular

inductive GroupKind where
  | inductives
  | synonym
  | synonyms
  | mixed
  | other (code : Int)
deriving DecidableEq

namespace GroupKind

def ofCode : Int → GroupKind
  | 0 => .inductives
  | 1 => .synonym
  | 2 => .synonyms
  | 3 => .mixed
  | n => .other n

def name : GroupKind → String
  | .inductives => "inductives"
  | .synonym => "synonym"
  | .synonyms => "synonyms"
  | .mixed => "mixed"
  | .other _ => "unknown"

def addInductive (empty : Bool) (kind : GroupKind) : GroupKind :=
  if empty then .inductives
  else
    match kind with
    | .synonym => .mixed
    | .synonyms => .mixed
    | kind => kind

def addSynonym (empty : Bool) (kind : GroupKind) : GroupKind :=
  if empty then .synonym
  else
    match kind with
    | .synonym => .synonyms
    | .inductives => .mixed
    | kind => kind

end GroupKind

structure Group where
  kind : GroupKind
  inductives : List InductiveBody
  synonyms : List Synonym

namespace Declaration

/-- The graph of references among declarations. Of declarations with the same name only the first
one is referred to. -/
def references (ds : List Declaration) : Graph ds.length :=
  fun u => (List.finRange ds.length).filter fun v =>
    ds[v].name ∈ ds[u].free ∧ ds.findIdx (·.name = ds[v].name) = v

end Declaration

namespace Group

def isEmpty (g : Group) : Bool :=
  g.inductives.isEmpty && g.synonyms.isEmpty

def add (g : Group) : Declaration → Group
  | .data b =>
    { g with kind := g.kind.addInductive g.isEmpty, inductives := g.inductives ++ [b] }
  | .synonym s =>
    { g with kind := g.kind.addSynonym g.isEmpty, synonyms := g.synonyms ++ [s] }

def ofMembers (ds : List Declaration) : Group :=
  ds.foldl add { kind := .inductives, inductives := [], synonyms := [] }

/-- The groups of a list of declarations, each after those it refers to. -/
def ofDeclarations (ds : List Declaration) : List Group :=
  (Declaration.references ds).components.map fun members => ofMembers (members.map (ds[·]))

def names (g : Group) : List String :=
  g.inductives.map InductiveBody.name ++ g.synonyms.map Synonym.name

end Group

end Vernacular
