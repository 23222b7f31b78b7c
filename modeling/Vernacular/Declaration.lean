import Vernacular.Sentence
import Vernacular.Term.Names

set_option autoImplicit false

namespace Vernacular

/-- A type synonym; its parameters scope over its kind and its definition. -/
structure Synonym where
  name : String
  params : List Binder
  kind : Option Term
  body : Term

inductive Declaration where
  | data (body : InductiveBody)
  | synonym (body : Synonym)

def Constructor.free (c : Constructor) : List String :=
  Term.freeUnder c.binders c.type.free

def InductiveBody.free (b : InductiveBody) : List String :=
  Term.freeUnder b.params (b.type.free ++ b.constructors.flatMap Constructor.free)

def Synonym.free (s : Synonym) : List String :=
  Term.freeUnder s.params (Term.freeType s.kind ++ s.body.free)

namespace Declaration

def name : Declaration → String
  | .data b => b.name
  | .synonym s => s.name

def params : Declaration → List Binder
  | .data b => b.params
  | .synonym s => s.params

def free : Declaration → List String
  | .data b => b.free
  | .synonym s => s.free

end Declaration

end Vernacular
