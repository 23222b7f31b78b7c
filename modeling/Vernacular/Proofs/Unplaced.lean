import Vernacular.Surface.Declaration

set_option autoImplicit false

namespace Vernacular.Surface

mutual

def Ty.unplaced : Ty → Ty
  | .var _ x => .var {} x
  | .app _ f a => .app {} f.unplaced a.unplaced
  | .arrow _ a r => .arrow {} a.unplaced r.unplaced
  | .paren _ t => .paren {} t.unplaced
  | .kinded _ t k => .kinded {} t.unplaced k.unplaced
  | .number _ n => .number {} n
  | .text _ s => .text {} s
  | .wildcard _ => .wildcard {}
  | .list _ e => .list {} e.unplaced
  | .tuple _ sort ts => .tuple {} sort (Ty.unplacedAll ts)
  | .quantified _ implicit vs t => .quantified {} implicit (TyVar.unplacedAll vs) t.unplaced
  | .strict _ t => .strict {} t.unplaced
  | .unsupported _ form => .unsupported {} form
  | .unknown _ => .unknown {}

def Ty.unplacedAll : List Ty → List Ty
  | [] => []
  | t :: ts => t.unplaced :: Ty.unplacedAll ts

def TyVar.unplacedAll : List TyVar → List TyVar
  | [] => []
  | .mk x none :: vs => .mk x none :: TyVar.unplacedAll vs
  | .mk x (some k) :: vs => .mk x (some k.unplaced) :: TyVar.unplacedAll vs

end

mutual

def Pattern.unplaced : Pattern → Pattern
  | .wild _ => .wild {}
  | .var _ x => .var {} x
  | .paren _ p => .paren {} p.unplaced
  | .strict _ p => .strict {} p.unplaced
  | .named _ x p => .named {} x p.unplaced
  | .con _ c style ps => .con {} c style (Pattern.unplacedAll ps)
  | .literal _ l => .literal {} l
  | .overloaded _ negated l => .overloaded {} negated l
  | .unsupported _ form => .unsupported {} form
  | .unknown _ => .unknown {}

def Pattern.unplacedAll : List Pattern → List Pattern
  | [] => []
  | p :: ps => p.unplaced :: Pattern.unplacedAll ps

end

mutual

def Expr.unplaced : Expr → Expr
  | .var _ x => .var {} x
  | .app _ f a => .app {} f.unplaced a.unplaced
  | .paren _ e => .paren {} e.unplaced
  | .ite _ rebindable c t e => .ite {} rebindable c.unplaced t.unplaced e.unplaced
  | .caseOf _ e qs => .caseOf {} e.unplaced (Equation.unplacedAll qs)
  | .literal _ l => .literal {} l
  | .overloaded _ l => .overloaded {} l
  | .letIn _ binds e => .letIn {} binds.unplaced e.unplaced
  | .ascribed _ e sig => .ascribed {} e.unplaced sig.unplaced
  | .lambda _ qs => .lambda {} (Equation.unplacedAll qs)
  | .lambdaCase _ qs => .lambdaCase {} (Equation.unplacedAll qs)
  | .tick _ label e => .tick {} label e.unplaced
  | .unsupported _ form => .unsupported {} form
  | .unknown _ => .unknown {}

def Equation.unplaced : Equation → Equation
  | .mk _ ps rhs => .mk {} (Pattern.unplacedAll ps) rhs.unplaced

def Equation.unplacedAll : List Equation → List Equation
  | [] => []
  | q :: qs => q.unplaced :: Equation.unplacedAll qs

def Rhs.unplaced : Rhs → Rhs
  | .mk alts binds => .mk (Alternative.unplacedAll alts) binds.unplaced

def Alternative.unplaced : Alternative → Alternative
  | .mk _ guards e => .mk {} (Guard.unplacedAll guards) e.unplaced

def Alternative.unplacedAll : List Alternative → List Alternative
  | [] => []
  | a :: alts => a.unplaced :: Alternative.unplacedAll alts

def Guard.unplaced : Guard → Guard
  | .bool _ e => .bool {} e.unplaced
  | .unsupported _ form => .unsupported {} form
  | .unknown _ => .unknown {}

def Guard.unplacedAll : List Guard → List Guard
  | [] => []
  | guard :: guards => guard.unplaced :: Guard.unplacedAll guards

def LocalBinds.unplaced : LocalBinds → LocalBinds
  | .mk _ implicitParams bs signatures =>
    .mk {} implicitParams (Binding.unplacedAll bs) (signatures.map fun s => (s.1, s.2.unplaced))

def Binding.unplaced : Binding → Binding
  | .mk _ x qs => .mk {} x (Equation.unplacedAll qs)

def Binding.unplacedAll : List Binding → List Binding
  | [] => []
  | b :: bs => b.unplaced :: Binding.unplacedAll bs

end

def DataConstructor.unplaced (c : DataConstructor) : DataConstructor :=
  { c with
    pos := {}
    vars := TyVar.unplacedAll c.vars
    context := Ty.unplacedAll c.context
    fields := Ty.unplacedAll c.fields }

def DataType.unplaced (d : DataType) : DataType :=
  { d with
    params := TyVar.unplacedAll d.params
    kind := d.kind.map Ty.unplaced
    constructors := d.constructors.map DataConstructor.unplaced }

def TypeSynonym.unplaced (d : TypeSynonym) : TypeSynonym :=
  { d with
    params := TyVar.unplacedAll d.params
    body := d.body.unplaced }

theorem Equation.unplacedAll_eq_map (qs : List Equation) :
    Equation.unplacedAll qs = qs.map Equation.unplaced := by
  induction qs with
  | nil => rfl
  | cons q qs ih => rw [Equation.unplacedAll, ih, List.map_cons]

theorem Alternative.unplacedAll_eq_map (alts : List Alternative) :
    Alternative.unplacedAll alts = alts.map Alternative.unplaced := by
  induction alts with
  | nil => rfl
  | cons a alts ih => rw [Alternative.unplacedAll, ih, List.map_cons]

theorem Guard.unplacedAll_eq_map (guards : List Guard) :
    Guard.unplacedAll guards = guards.map Guard.unplaced := by
  induction guards with
  | nil => rfl
  | cons guard guards ih => rw [Guard.unplacedAll, ih, List.map_cons]

theorem Equation.isEmpty_unplacedAll (qs : List Equation) :
    (Equation.unplacedAll qs).isEmpty = qs.isEmpty := by
  cases qs <;> rfl

theorem Alternative.isEmpty_unplacedAll (alts : List Alternative) :
    (Alternative.unplacedAll alts).isEmpty = alts.isEmpty := by
  cases alts <;> rfl

theorem Equation.isEmpty_patterns_unplaced (q : Equation) :
    q.unplaced.patterns.isEmpty = q.patterns.isEmpty := by
  obtain ⟨pos, ps, rhs⟩ := q
  cases ps <;> rfl

theorem Equation.all_isEmpty_unplacedAll (qs : List Equation) :
    (Equation.unplacedAll qs).all (·.patterns.isEmpty) = qs.all (·.patterns.isEmpty) := by
  rw [Equation.unplacedAll_eq_map, List.all_map]
  exact congrArg qs.all (funext Equation.isEmpty_patterns_unplaced)

theorem Expr.isTrueMarker_unplaced : ∀ e : Expr, e.unplaced.isTrueMarker = e.isTrueMarker
  | .paren _ e => Expr.isTrueMarker_unplaced e
  | .tick _ _ e => Expr.isTrueMarker_unplaced e
  | .var .. | .app .. | .ite .. | .caseOf .. | .literal .. | .overloaded .. | .letIn ..
  | .ascribed .. | .lambda .. | .lambdaCase .. | .unsupported .. | .unknown .. => rfl

theorem Guard.isTrueMarker_unplaced (guard : Guard) :
    guard.unplaced.isTrueMarker = guard.isTrueMarker := by
  cases guard with
  | bool pos e => exact e.isTrueMarker_unplaced
  | unsupported pos form => rfl
  | unknown pos => rfl

end Vernacular.Surface
