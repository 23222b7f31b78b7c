import Vernacular.Declaration
import Vernacular.Surface.Lower

set_option autoImplicit false

namespace Vernacular.Surface

structure DataConstructor where
  pos : Position
  name : String
  vars : List TyVar
  context : List Ty
  style : ConStyle
  fields : List Ty

structure DataType where
  name : String
  params : List TyVar
  kind : Option Ty
  constructors : List DataConstructor

structure TypeSynonym where
  name : String
  params : List TyVar
  body : Ty

structure Value where
  binding : Binding
  signature : Option Ty

/-- A declaration; `foreign` is one of another producer, of which only the kind is known. -/
inductive Declaration where
  | data (decl : DataType)
  | synonym (decl : TypeSynonym)
  | value (decl : Value)
  | foreign (kind : String)

structure Module where
  name : String
  declarations : List Declaration

def DataConstructor.lower (table : Table) (result : Term) (c : DataConstructor) :
    Except Fault Constructor := do
  if !c.context.isEmpty then
    throw ((Fault.unsupported "constructor contexts").located c.pos)
  if c.style = .record then
    throw ((Fault.unsupported "record syntax in data declarations").located c.pos)
  let binders ← TyVar.lowerAll table c.vars
  let fields ← Ty.lowerAll table c.fields
  return {
    name := table.valueName c.name
    binders := binders.map Binder.hidden
    type := .arrows fields result }

namespace DataType

def register (table : Table) (d : DataType) : Table :=
  d.constructors.foldl (fun t c => t.registerConstructor c.name) table

/-- The inductive type of a data type, over a table in which its constructors are registered. -/
def lower (table : Table) (d : DataType) : Except Fault InductiveBody := do
  let params ← TyVar.lowerAll table d.params
  let type ← match d.kind with
    | none => pure .typeSort
    | some kind => kind.lower table
  let name := table.typeName d.name
  let result := (Term.var name).apply (params.map fun p => .var p.name)
  let constructors ← d.constructors.mapM (·.lower table result)
  return { name, params, type, constructors }

end DataType

def TypeSynonym.lower (table : Table) (d : TypeSynonym) : Except Fault Synonym := do
  let params ← TyVar.lowerAll table d.params
  let body ← d.body.lower table
  return { name := table.typeName d.name, params, kind := none, body }

end Vernacular.Surface
