import Vernacular.Term.Basic

/-!
The names of a term: those that are free in it, and all that occur in it. Binder types see the
earlier binders of their telescope, and what a telescope scopes over sees all of them. A fixpoint's
name scopes over its whole literal, a local definition's name over the body only, and the variables
of a match arm over that arm's body.
-/

set_option autoImplicit false

namespace Vernacular.Term

mutual

/-- The free names of a term, in no particular order and with repetitions. Constructors in
patterns count as free. -/
def free : Term → List String
  | .var x => [x]
  | .app f ts => f.free ++ freeAll ts
  | .lam bs t => freeUnder bs t.free
  | .fix x bs ty t => (freeUnder bs (freeType ty ++ t.free)).filter (· ≠ x)
  | .caseOf ts as => freeAll ts ++ freeArms as
  | .parens t => t.free
  | .pi bs t => freeUnder bs t.free
  | .arrow t u => t.free ++ u.free
  | .ite c t u => c.free ++ t.free ++ u.free
  | .letIn x bs ty v t => freeUnder bs (freeType ty ++ v.free) ++ t.free.filter (· ≠ x)
  | .ascribed t u => t.free ++ u.free
  | _ => []

def freeAll : List Term → List String
  | [] => []
  | t :: ts => t.free ++ freeAll ts

def freeType : Option Term → List String
  | none => []
  | some t => t.free

/-- The free names of a telescope that scopes over something with the free names `inner`. -/
def freeUnder : List Binder → List String → List String
  | [], inner => inner
  | .mk x ty _ :: bs, inner => freeType ty ++ (freeUnder bs inner).filter (· ≠ x)

def freeArms : List Arm → List String
  | [] => []
  | .mk ps t :: as =>
    Pattern.constructorsAll ps ++ t.free.filter (· ∉ Pattern.boundAll ps) ++ freeArms as

end

mutual

def names : Term → List String
  | .var x => [x]
  | .app f ts => f.names ++ namesAll ts
  | .lam bs t => namesBinders bs ++ t.names
  | .fix x bs ty t => x :: namesBinders bs ++ namesType ty ++ t.names
  | .caseOf ts as => namesAll ts ++ namesArms as
  | .parens t => t.names
  | .pi bs t => namesBinders bs ++ t.names
  | .arrow t u => t.names ++ u.names
  | .ite c t u => c.names ++ t.names ++ u.names
  | .letIn x bs ty v t => x :: namesBinders bs ++ namesType ty ++ v.names ++ t.names
  | .ascribed t u => t.names ++ u.names
  | _ => []

def namesAll : List Term → List String
  | [] => []
  | t :: ts => t.names ++ namesAll ts

def namesType : Option Term → List String
  | none => []
  | some t => t.names

def namesBinders : List Binder → List String
  | [] => []
  | .mk x ty _ :: bs => x :: namesType ty ++ namesBinders bs

def namesArms : List Arm → List String
  | [] => []
  | .mk ps t :: as =>
    Pattern.constructorsAll ps ++ Pattern.boundAll ps ++ t.names ++ namesArms as

end

end Vernacular.Term
