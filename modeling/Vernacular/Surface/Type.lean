import Vernacular.Surface.Literal
import Vernacular.Table
import Vernacular.Term.Names
import Vernacular.Text.Lowercase

set_option autoImplicit false

namespace Vernacular.Surface

inductive TypeForm where
  | classContext
  | operator
  | equality
  | record
  | quasiquote
  | splice
deriving DecidableEq

def TypeForm.description : TypeForm → String
  | .classContext => "type class contexts"
  | .operator => "binary type operators"
  | .equality => "type equality"
  | .record => "record types"
  | .quasiquote => "Template Haskell type quasiquoters"
  | .splice => "Template Haskell type splices"

inductive TupleSort where
  | boxed
  | unboxed
  | constraint
deriving DecidableEq

mutual

/-- A type or kind. Forms that are never accepted carry none of their parts. -/
inductive Ty where
  | var (pos : Position) (name : String)
  | app (pos : Position) (head arg : Ty)
  | arrow (pos : Position) (arg result : Ty)
  | paren (pos : Position) (inner : Ty)
  | kinded (pos : Position) (type kind : Ty)
  | number (pos : Position) (value : OverLiteral)
  | text (pos : Position) (value : String)
  | wildcard (pos : Position)
  | list (pos : Position) (elem : Ty)
  | tuple (pos : Position) (sort : TupleSort) (elems : List Ty)
  | quantified (pos : Position) (implicit : Bool) (vars : List TyVar) (body : Ty)
  | strict (pos : Position) (inner : Ty)
  | unsupported (pos : Position) (form : TypeForm)
  | unknown (pos : Position)

inductive TyVar where
  | mk (name : String) (kind : Option Ty)

end

instance : Inhabited Ty := ⟨.unknown {}⟩

instance : Inhabited TyVar := ⟨.mk "" none⟩

/-- Whether a name looks like a variable: it starts with an underscore or a lowercase letter. -/
def isVariableName (x : String) : Bool :=
  match x.toList with
  | [] => false
  | c :: _ => c = '_' || Text.isLowercase c

/-- The names that `generalize` binds: the free names that look like variables and are not the
target of a type. -/
def generalized (table : Table) (t : Term) : List String :=
  (Identifier.sorted t.free).filter fun x => !table.isTypeTarget x && isVariableName x

/-- Binds the type variables that are free in a type as implicit binders, in ascending order. -/
def generalize (table : Table) (t : Term) : Term :=
  .forAll ((generalized table t).map fun x => .mk x none true) t

/-- The target of a tuple type: pairs nested to the left. -/
def tupleTerm (table : Table) : List Term → Term
  | [] => .var (table.typeName "()")
  | t :: ts => ts.foldl (fun front u => .app (.var (table.typeName "(,)")) [front, u]) t

mutual

def Ty.lower (table : Table) : Ty → Except Fault Term
  | .var _ x => .ok (.var (table.typeName x))
  | .app pos f a => Fault.locating pos do
    let head ← f.lower table
    let arg ← a.lower table
    return head.apply [arg]
  | .arrow pos a r => Fault.locating pos do
    let dom ← a.lower table
    let cod ← r.lower table
    return .arrow dom cod
  | .paren pos t => Fault.locating pos do
    let inner ← t.lower table
    return .parens inner
  | .kinded pos t k => Fault.locating pos do
    let type ← t.lower table
    let kind ← k.lower table
    return .ascribed type kind
  | .number pos n => Fault.locating pos n.lower
  | .text _ s => .ok (.str s)
  | .wildcard _ => .ok .hole
  | .list pos e => Fault.locating pos do
    let elem ← e.lower table
    return (Term.var (table.typeName "[]")).apply [elem]
  | .tuple pos sort ts => Fault.locating pos do
    match sort with
    | .unboxed => throw (.unsupported "unboxed tuples")
    | .constraint => throw (.unsupported "constraint tuples")
    | .boxed =>
      let elems ← Ty.lowerAll table ts
      return tupleTerm table elems
  | .quantified pos implicit vs t => Fault.locating pos do
    let body ← t.lower table
    if implicit && vs.isEmpty then
      return generalize table body
    else
      let binders ← TyVar.lowerAll table vs
      return .forAll binders body
  | .strict pos t => Fault.locating pos (t.lower table)
  | .unsupported pos form => Fault.locating pos (.error (.unsupported form.description))
  | .unknown pos => Fault.locating pos (.error (.malformed .unknownType))

def Ty.lowerAll (table : Table) : List Ty → Except Fault (List Term)
  | [] => .ok []
  | t :: ts => do
    let first ← t.lower table
    let rest ← Ty.lowerAll table ts
    return first :: rest

def TyVar.lowerAll (table : Table) : List TyVar → Except Fault (List Binder)
  | [] => .ok []
  | .mk x none :: vs => do
    let rest ← TyVar.lowerAll table vs
    return .mk (table.typeName x) none false :: rest
  | .mk x (some k) :: vs => do
    let kind ← k.lower table
    let rest ← TyVar.lowerAll table vs
    return .mk (table.typeName x) (some kind) false :: rest

end

end Vernacular.Surface
