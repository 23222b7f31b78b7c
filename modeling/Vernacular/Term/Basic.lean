import Vernacular.Pattern

set_option autoImplicit false

namespace Vernacular

mutual

/-- A term. `missing` stands where a part was never filled in, and `foreign` for a term of
another producer, of which only the kind is known. -/
inductive Term where
  | missing
  | foreign (kind : String)
  | var (name : String)
  | app (head : Term) (args : List Term)
  | lam (binders : List Binder) (body : Term)
  | fix (name : String) (binders : List Binder) (type : Option Term) (body : Term)
  | caseOf (scrutinees : List Term) (arms : List Arm)
  | num (value : Option Int)
  | str (value : String)
  | parens (term : Term)
  | pi (binders : List Binder) (body : Term)
  | arrow (dom cod : Term)
  | ite (cond yes no : Term)
  | letIn (name : String) (binders : List Binder) (type : Option Term) (value body : Term)
  | ascribed (term type : Term)
  | hole
  | sort (name : String)

inductive Binder where
  | mk (name : String) (type : Option Term) (implicit : Bool)

inductive Arm where
  | mk (patterns : List Pattern) (body : Term)

end

instance : Inhabited Term := ⟨.missing⟩

instance : Inhabited Binder := ⟨.mk "" none false⟩

namespace Binder

def name : Binder → String
  | .mk x _ _ => x

def type : Binder → Option Term
  | .mk _ t _ => t

/-- Whether a binder is left out at use sites. -/
def implicit : Binder → Bool
  | .mk _ _ i => i

def plain (x : String) : Binder :=
  .mk x none false

def hidden : Binder → Binder
  | .mk x t _ => .mk x t true

end Binder

namespace Arm

def patterns : Arm → List Pattern
  | .mk ps _ => ps

def body : Arm → Term
  | .mk _ t => t

end Arm

namespace Term

def typeSort : Term :=
  .sort "Type"

/-- Application to a list of arguments, merged into an application at the head. -/
def apply (f : Term) (args : List Term) : Term :=
  match f, args with
  | f, [] => f
  | .app g front, args => .app g (front ++ args)
  | f, args => .app f args

def arrows (doms : List Term) (cod : Term) : Term :=
  doms.foldr .arrow cod

/-- A function literal, or its body when there is nothing to bind. -/
def lambda (binders : List Binder) (body : Term) : Term :=
  if binders.isEmpty then body else .lam binders body

def forAll (binders : List Binder) (body : Term) : Term :=
  if binders.isEmpty then body else .pi binders body

def splitForAll : Term → List Binder × Term
  | .pi binders body => (binders, body)
  | t => ([], t)

end Term

end Vernacular
