import Vernacular.Function
import Vernacular.Surface.Expr

set_option autoImplicit false

namespace Vernacular.Surface

/-- The conjunction of the conditions of a guard, nested to the left. -/
def conjunction : List Term → Term
  | [] => .var "true"
  | c :: cs => cs.foldl (fun front d => .app (.var "andb") [front, d]) c

def lowerSignature (table : Table) : Option Ty → Except Fault (List Binder × Option Term)
  | none => .ok ([], none)
  | some sig => do
    let type ← sig.lower table
    return (type.splitForAll.1.map Binder.hidden, some type.splitForAll.2)

mutual

def Expr.lower (table : Table) : Expr → Except Fault Term
  | .var _ x => .ok (.var (table.valueName x))
  | .app pos f a => Fault.locating pos do
    let head ← f.lower table
    let arg ← a.lower table
    return head.apply [arg]
  | .paren pos e => Fault.locating pos do
    let inner ← e.lower table
    return .parens inner
  | .ite pos rebindable c t e => Fault.locating pos do
    if rebindable then
      throw (.unsupported "overloaded if-then-else")
    else
      let cond ← c.lower table
      let yes ← t.lower table
      let no ← e.lower table
      return .ite cond yes no
  | .caseOf pos e alts => Fault.locating pos do
    let scrutinee ← e.lower table
    let arms ← Equation.lowerAlternatives table alts
    return .caseOf [scrutinee] arms
  | .literal pos l => Fault.locating pos l.lower
  | .overloaded pos l => Fault.locating pos l.lower
  | .letIn pos binds e => Fault.locating pos do
    let body ← e.lower table
    let definitions ← binds.lower table
    return definitions.foldr Definition.letIn body
  | .ascribed pos e sig => Fault.locating pos do
    let inner ← e.lower table
    let type ← sig.lower table
    return .ascribed inner type
  | .lambda pos eqs => Fault.locating pos do
    eqs.forM Equation.checkLambda
    let arms ← Equation.lowerAll table eqs
    return (FunctionLiteral.ofArms arms).term
  | .lambdaCase pos alts => Fault.locating pos do
    alts.forM Equation.checkAlternative
    let arms ← Equation.lowerAll table alts
    return (FunctionLiteral.ofArms arms).term
  | .tick pos _ e => Fault.locating pos (e.lower table)
  | .unsupported pos form => Fault.locating pos (.error (.unsupported form.description))
  | .unknown pos => Fault.locating pos (.error (.malformed .unknownExpression))

def Equation.lowerAlternatives (table : Table) : List Equation → Except Fault (List Arm)
  | [] => .ok []
  | .mk pos ps rhs :: alts => do
    Equation.checkAlternative (.mk pos ps rhs)
    let patterns ← Pattern.lowerAll table ps
    let body ← rhs.lower table
    let arms ← Equation.lowerAlternatives table alts
    return .mk patterns body :: arms

def Equation.lowerAll (table : Table) : List Equation → Except Fault (List Arm)
  | [] => .error (.malformed .functionWithoutEquations)
  | .mk pos ps rhs :: eqs => do
    let patterns ← Pattern.lowerAll table ps
    let body ← Fault.locating pos (rhs.lower table)
    if eqs.isEmpty then
      return [.mk patterns body]
    else
      let arms ← Equation.lowerAll table eqs
      return .mk patterns body :: arms

/-- The target term of a right-hand side: a chain of conditionals inside the local bindings. -/
def Rhs.lower (table : Table) : Rhs → Except Fault Term
  | .mk alts binds => do
    Alternative.checkAll alts
    let body ← Alternative.lowerChain table alts
    let definitions ← binds.lower table
    return definitions.foldr Definition.letIn body

/-- The chain of conditionals that takes the first alternative whose guards hold. The last one is
taken without a condition. -/
def Alternative.lowerChain (table : Table) : List Alternative → Except Fault Term
  | [] => .error (.malformed .noAlternatives)
  | .mk _ guards e :: alts => do
    if alts.isEmpty then
      e.lower table
    else
      let conditions ← Guard.lowerAll table guards
      let body ← e.lower table
      let others ← Alternative.lowerChain table alts
      return .ite (conjunction conditions) body others

/-- The condition of a guard, which is not looked at when it holds by its form. -/
def Guard.lower (table : Table) : Guard → Except Fault Term
  | .bool _ e => if e.isTrueMarker then .ok (.var "true") else e.lower table
  | .unsupported pos form => Fault.locating pos (.error (.unsupported form.description))
  | .unknown pos => Fault.locating pos (.error (.malformed .unknownGuard))

def Guard.lowerAll (table : Table) : List Guard → Except Fault (List Term)
  | [] => .ok []
  | guard :: guards => do
    let condition ← guard.lower table
    let conditions ← Guard.lowerAll table guards
    return condition :: conditions

def LocalBinds.lower (table : Table) : LocalBinds → Except Fault (List Definition)
  | .mk pos implicitParams bindings signatures =>
    if implicitParams then
      Fault.locating pos (.error (.unsupported "implicit parameter bindings"))
    else
      Binding.lowerAll table signatures bindings

def Binding.lowerAll (table : Table) (signatures : List (String × Ty)) :
    List Binding → Except Fault (List Definition)
  | [] => .ok []
  | .mk pos x eqs :: bindings => do
    let definition ← Binding.lower table (signatures.lookup x) (.mk pos x eqs)
    let definitions ← Binding.lowerAll table signatures bindings
    return definition :: definitions

/-- The definition that a binding and its optional signature give. A binding without patterns is a
single equation; one with patterns is a function. -/
def Binding.lower (table : Table) (signature : Option Ty) : Binding → Except Fault Definition
  | .mk pos x eqs => Fault.locating pos do
    let (binders, type) ← lowerSignature table signature
    let body ← (match eqs with
      | [] => .error (.malformed .bindingWithoutEquations)
      | [.mk _ [] rhs] => rhs.lower table
      | eq :: others =>
        if (eq :: others).all (·.patterns.isEmpty) then
          .error (.malformed .repeatedVariable)
        else if eq.patterns.isEmpty then
          .error (.malformed .differingArity)
        else
          (Equation.lowerAll table (eq :: others)).map fun arms =>
            (FunctionLiteral.ofArms arms).recursive (table.valueName x))
    return { name := table.valueName x, binders, type, body }

end

end Vernacular.Surface
