import Vernacular.Surface.Lower

/-!
Scopes of the surface language. An identifier is exposed where it occurs outside the scopes of the
binders that hide it. The variables of an equation's patterns scope over its right-hand side, and
the names of a local group over what it is attached to and over all right-hand sides of the group.
-/

set_option autoImplicit false

namespace Vernacular.Surface

mutual

def Pattern.constructors : Pattern → List String
  | .paren _ p => p.constructors
  | .strict _ p => p.constructors
  | .named _ _ p => p.constructors
  | .con _ c _ ps => c :: Pattern.constructorsAll ps
  | _ => []

def Pattern.constructorsAll : List Pattern → List String
  | [] => []
  | p :: ps => p.constructors ++ Pattern.constructorsAll ps

end

mutual

def Pattern.bound : Pattern → List String
  | .var _ x => [x]
  | .paren _ p => p.bound
  | .strict _ p => p.bound
  | .named _ x p => p.bound ++ [x]
  | .con _ _ _ ps => Pattern.boundAll ps
  | _ => []

def Pattern.boundAll : List Pattern → List String
  | [] => []
  | p :: ps => p.bound ++ Pattern.boundAll ps

end

def LocalBinds.names : LocalBinds → List String
  | .mk _ _ bindings _ => bindings.map Binding.name

mutual

/-- Whether `y` occurs outside the scopes of the binders that hide it. The conditions that hold by
their form and those of a last alternative are left out of the target, so they do not count. -/
def Expr.exposes (hides : String → Bool) (y : String) : Expr → Bool
  | .var _ x => x = y
  | .app _ f a => f.exposes hides y || a.exposes hides y
  | .paren _ e => e.exposes hides y
  | .ite _ _ c t e => c.exposes hides y || t.exposes hides y || e.exposes hides y
  | .caseOf _ e alts => e.exposes hides y || Equation.exposesAny hides y alts
  | .letIn _ binds e =>
    !binds.names.any hides && (binds.exposes hides y || e.exposes hides y)
  | .ascribed _ e _ => e.exposes hides y
  | .lambda _ qs => Equation.exposesAny hides y qs
  | .lambdaCase _ qs => Equation.exposesAny hides y qs
  | .tick _ _ e => e.exposes hides y
  | _ => false

def Equation.exposesAny (hides : String → Bool) (y : String) : List Equation → Bool
  | [] => false
  | .mk _ ps rhs :: qs =>
    (Pattern.constructorsAll ps).contains y ||
      !(Pattern.boundAll ps).any hides && rhs.exposes hides y || Equation.exposesAny hides y qs

def Rhs.exposes (hides : String → Bool) (y : String) : Rhs → Bool
  | .mk alts binds =>
    !binds.names.any hides && (binds.exposes hides y || Alternative.exposesAny hides y alts)

def Alternative.exposesAny (hides : String → Bool) (y : String) : List Alternative → Bool
  | [] => false
  | .mk _ guards e :: alts =>
    !alts.isEmpty && Guard.exposesAny hides y guards || e.exposes hides y ||
      Alternative.exposesAny hides y alts

def Guard.exposesAny (hides : String → Bool) (y : String) : List Guard → Bool
  | [] => false
  | .bool _ e :: guards => !e.isTrueMarker && e.exposes hides y || Guard.exposesAny hides y guards
  | _ :: guards => Guard.exposesAny hides y guards

def LocalBinds.exposes (hides : String → Bool) (y : String) : LocalBinds → Bool
  | .mk _ _ bindings _ => Binding.exposesAny hides y bindings

def Binding.exposesAny (hides : String → Bool) (y : String) : List Binding → Bool
  | [] => false
  | .mk _ _ qs :: bindings => Equation.exposesAny hides y qs || Binding.exposesAny hides y bindings

end

mutual

def Expr.unsigned : Expr → Bool
  | .app _ f a => f.unsigned && a.unsigned
  | .paren _ e => e.unsigned
  | .ite _ _ c t e => c.unsigned && t.unsigned && e.unsigned
  | .caseOf _ e alts => e.unsigned && Equation.unsignedAll alts
  | .letIn _ binds e => binds.unsigned && e.unsigned
  | .ascribed _ e _ => e.unsigned
  | .lambda _ qs => Equation.unsignedAll qs
  | .lambdaCase _ qs => Equation.unsignedAll qs
  | .tick _ _ e => e.unsigned
  | _ => true

def Equation.unsignedAll : List Equation → Bool
  | [] => true
  | .mk _ _ rhs :: qs => rhs.unsigned && Equation.unsignedAll qs

def Rhs.unsigned : Rhs → Bool
  | .mk alts binds => binds.unsigned && Alternative.unsignedAll alts

def Alternative.unsignedAll : List Alternative → Bool
  | [] => true
  | .mk _ guards e :: alts => Guard.unsignedAll guards && e.unsigned && Alternative.unsignedAll alts

def Guard.unsignedAll : List Guard → Bool
  | [] => true
  | .bool _ e :: guards => e.unsigned && Guard.unsignedAll guards
  | _ :: guards => Guard.unsignedAll guards

def LocalBinds.unsigned : LocalBinds → Bool
  | .mk _ _ bindings signatures => signatures.isEmpty && Binding.unsignedAll bindings

def Binding.unsignedAll : List Binding → Bool
  | [] => true
  | .mk _ _ qs :: bindings => Equation.unsignedAll qs && Binding.unsignedAll bindings

end

end Vernacular.Surface
