import Vernacular.Surface.Pattern
import Vernacular.Surface.Type

set_option autoImplicit false

namespace Vernacular.Surface

inductive ExprForm where
  | operator
  | negation
  | operatorSection
  | tuple
  | list
  | parallelArray
  | sequence
  | recordConstruction
  | recordUpdate
  | multiwayIf
  | doBlock
  | bracket
  | splice
  | quasiquote
  | command
  | static
  | viewPattern
  | lazyPattern
  | namedPattern
deriving DecidableEq

def ExprForm.description : ExprForm → String
  | .operator => "binary operators"
  | .negation => "negation"
  | .operatorSection => "sections"
  | .tuple => "tuples"
  | .list => "explicit lists"
  | .parallelArray => "explicit parallel arrays"
  | .sequence => "arithmetic sequences"
  | .recordConstruction => "record constructors"
  | .recordUpdate => "record updates"
  | .multiwayIf => "multi-way if"
  | .doBlock => "do-notation"
  | .bracket => "Template Haskell brackets"
  | .splice => "Template Haskell splices"
  | .quasiquote => "quasiquoters"
  | .command => "arrow commands"
  | .static => "static pointers"
  | .viewPattern => "view patterns in expression position"
  | .lazyPattern => "lazy patterns in expression position"
  | .namedPattern => "as-patterns in expression position"

inductive GuardForm where
  | pattern
  | binding
deriving DecidableEq

def GuardForm.description : GuardForm → String
  | .pattern => "pattern guards"
  | .binding => "`let' statements in guards"

mutual

/-- An expression. Forms that are never accepted carry none of their parts. -/
inductive Expr where
  | var (pos : Position) (name : String)
  | app (pos : Position) (head arg : Expr)
  | paren (pos : Position) (inner : Expr)
  | ite (pos : Position) (rebindable : Bool) (cond yes no : Expr)
  | caseOf (pos : Position) (scrutinee : Expr) (alternatives : List Equation)
  | literal (pos : Position) (value : Literal)
  | overloaded (pos : Position) (value : OverLiteral)
  | letIn (pos : Position) (binds : LocalBinds) (body : Expr)
  | ascribed (pos : Position) (inner : Expr) (type : Ty)
  | lambda (pos : Position) (equations : List Equation)
  | lambdaCase (pos : Position) (alternatives : List Equation)
  | tick (pos : Position) (label : String) (inner : Expr)
  | unsupported (pos : Position) (form : ExprForm)
  | unknown (pos : Position)

inductive Equation where
  | mk (pos : Position) (patterns : List Pattern) (rhs : Rhs)

/-- A right-hand side: alternatives tried in order, and bindings that scope over all of them. One
without alternatives is absent. -/
inductive Rhs where
  | mk (alternatives : List Alternative) (binds : LocalBinds)

/-- An alternative of a right-hand side, taken when all its guards hold. -/
inductive Alternative where
  | mk (pos : Position) (guards : List Guard) (body : Expr)

inductive Guard where
  | bool (pos : Position) (cond : Expr)
  | unsupported (pos : Position) (form : GuardForm)
  | unknown (pos : Position)

inductive LocalBinds where
  | mk (pos : Position) (implicitParams : Bool) (bindings : List Binding)
      (signatures : List (String × Ty))

inductive Binding where
  | mk (pos : Position) (name : String) (equations : List Equation)

end

def LocalBinds.none : LocalBinds :=
  .mk {} false [] []

instance : Inhabited Expr := ⟨.unknown {}⟩

instance : Inhabited LocalBinds := ⟨.none⟩

instance : Inhabited Rhs := ⟨.mk [] .none⟩

instance : Inhabited Equation := ⟨.mk {} [] default⟩

instance : Inhabited Guard := ⟨.unknown {}⟩

instance : Inhabited Binding := ⟨.mk {} "" []⟩

def Equation.patterns : Equation → List Pattern
  | .mk _ ps _ => ps

def Equation.pos : Equation → Position
  | .mk p _ _ => p

def Binding.name : Binding → String
  | .mk _ x _ => x

/-- Whether an expression is one of the names for a condition that always holds, seen through
parentheses and ticks. -/
def Expr.isTrueMarker : Expr → Bool
  | .var _ x => x = "otherwise" || x = "True"
  | .paren _ e => e.isTrueMarker
  | .tick _ _ e => e.isTrueMarker
  | _ => false

def Guard.isTrueMarker : Guard → Bool
  | .bool _ e => e.isTrueMarker
  | _ => false

def Guard.check : Guard → Except Fault Unit
  | .bool _ _ => .ok ()
  | .unsupported pos form => Fault.locating pos (.error (.unsupported form.description))
  | .unknown pos => Fault.locating pos (.error (.malformed .unknownGuard))

/-- Accepts alternatives of a right-hand side that have only boolean guards and of which the last
one is always taken. -/
def Alternative.checkAll (alternatives : List Alternative) : Except Fault Unit := do
  alternatives.forM fun | .mk _ guards _ => guards.forM Guard.check
  match alternatives.getLast? with
  | none => throw (.malformed .noAlternatives)
  | some (.mk pos guards _) =>
    if guards.all Guard.isTrueMarker then return
    else Fault.locating pos (throw (.malformed .incompleteGuards))

def Equation.checkAlternative (e : Equation) : Except Fault Unit :=
  match e.patterns with
  | [] => Fault.locating e.pos (.error (.malformed .alternativeWithoutPattern))
  | [_] => .ok ()
  | _ => Fault.locating e.pos (.error (.malformed .alternativeWithManyPatterns))

def Equation.checkLambda (e : Equation) : Except Fault Unit :=
  match e.patterns with
  | [] => Fault.locating e.pos (.error (.malformed .lambdaWithoutPattern))
  | _ => .ok ()

end Vernacular.Surface
