import Vernacular.Surface.Lower

set_option autoImplicit false

namespace Vernacular.Surface

inductive Literal.Supported : Literal → Prop
  | string {text : String} : Supported (.string text)
  | int {n : Int} (natural : 0 ≤ n) : Supported (.int (some n))
  | integer {n : Int} (natural : 0 ≤ n) : Supported (.integer (some n))

inductive OverLiteral.Supported : OverLiteral → Prop
  | integral {n : Int} (natural : 0 ≤ n) : Supported (.integral (some n))
  | string {text : String} : Supported (.string text)

mutual

inductive Ty.Supported : Ty → Prop
  | var {pos x} : Ty.Supported (.var pos x)
  | app {pos f a} (head : f.Supported) (arg : a.Supported) : Ty.Supported (.app pos f a)
  | arrow {pos a r} (arg : a.Supported) (result : r.Supported) : Ty.Supported (.arrow pos a r)
  | paren {pos t} (inner : t.Supported) : Ty.Supported (.paren pos t)
  | kinded {pos t k} (type : t.Supported) (kind : k.Supported) : Ty.Supported (.kinded pos t k)
  | number {pos n} (value : n.Supported) : Ty.Supported (.number pos n)
  | text {pos s} : Ty.Supported (.text pos s)
  | wildcard {pos} : Ty.Supported (.wildcard pos)
  | list {pos e} (elem : e.Supported) : Ty.Supported (.list pos e)
  | tuple {pos ts} (elems : ∀ t ∈ ts, t.Supported) : Ty.Supported (.tuple pos .boxed ts)
  | quantified {pos implicit vs t} (vars : ∀ v ∈ vs, v.Supported) (body : t.Supported) :
      Ty.Supported (.quantified pos implicit vs t)
  | strict {pos t} (inner : t.Supported) : Ty.Supported (.strict pos t)

inductive TyVar.Supported : TyVar → Prop
  | plain {x} : TyVar.Supported (.mk x none)
  | kinded {x k} (kind : k.Supported) : TyVar.Supported (.mk x (some k))

end

inductive Pattern.Supported : Pattern → Prop
  | wild {pos} : Supported (.wild pos)
  | var {pos x} : Supported (.var pos x)
  | paren {pos p} (inner : Supported p) : Supported (.paren pos p)
  | strict {pos p} (inner : Supported p) : Supported (.strict pos p)
  | named {pos x p} (inner : Supported p) : Supported (.named pos x p)
  | con {pos c ps} (args : ∀ p ∈ ps, Supported p) : Supported (.con pos c .ordinary ps)
  | literal {pos l} (value : l.Supported) : Supported (.literal pos l)
  | overloaded {pos l} (value : l.Supported) : Supported (.overloaded pos false l)

def Alternative.guards : Alternative → List Guard
  | .mk _ guards _ => guards

def Alternative.body : Alternative → Expr
  | .mk _ _ body => body

mutual

inductive Expr.Supported : Expr → Prop
  | var {pos x} : Expr.Supported (.var pos x)
  | app {pos f a} (head : f.Supported) (arg : a.Supported) : Expr.Supported (.app pos f a)
  | paren {pos e} (inner : e.Supported) : Expr.Supported (.paren pos e)
  | ite {pos c t e} (cond : c.Supported) (yes : t.Supported) (no : e.Supported) :
      Expr.Supported (.ite pos false c t e)
  | caseOf {pos e alts} (scrutinee : e.Supported) (single : ∀ q ∈ alts, q.patterns.length = 1)
      (alternatives : ∀ q ∈ alts, q.Supported) : Expr.Supported (.caseOf pos e alts)
  | literal {pos l} (value : l.Supported) : Expr.Supported (.literal pos l)
  | overloaded {pos l} (value : l.Supported) : Expr.Supported (.overloaded pos l)
  | letIn {pos binds e} (group : binds.Supported) (body : e.Supported) :
      Expr.Supported (.letIn pos binds e)
  | ascribed {pos e sig} (inner : e.Supported) (type : sig.Supported) :
      Expr.Supported (.ascribed pos e sig)
  | lambda {pos qs} (nonempty : qs ≠ []) (patterns : ∀ q ∈ qs, q.patterns ≠ [])
      (equations : ∀ q ∈ qs, q.Supported) : Expr.Supported (.lambda pos qs)
  | lambdaCase {pos qs} (nonempty : qs ≠ []) (single : ∀ q ∈ qs, q.patterns.length = 1)
      (alternatives : ∀ q ∈ qs, q.Supported) : Expr.Supported (.lambdaCase pos qs)
  | tick {pos label e} (inner : e.Supported) : Expr.Supported (.tick pos label e)

inductive Equation.Supported : Equation → Prop
  | mk {pos ps rhs} (patterns : ∀ p ∈ ps, p.Supported) (right : rhs.Supported) :
      Equation.Supported (.mk pos ps rhs)

/-- Right-hand sides with at least one alternative, of which the last one is always taken. -/
inductive Rhs.Supported : Rhs → Prop
  | mk {alts last binds} (alternatives : ∀ a ∈ alts ++ [last], a.Supported)
      (total : ∀ guard ∈ last.guards, guard.isTrueMarker) (group : binds.Supported) :
      Rhs.Supported (.mk (alts ++ [last]) binds)

inductive Alternative.Supported : Alternative → Prop
  | mk {pos guards e} (conditions : ∀ guard ∈ guards, guard.Supported) (body : e.Supported) :
      Alternative.Supported (.mk pos guards e)

inductive Guard.Supported : Guard → Prop
  | bool {pos e} (cond : e.Supported) : Guard.Supported (.bool pos e)

/-- Groups of ordinary bindings; of the signatures only those of the bound names count. -/
inductive LocalBinds.Supported : LocalBinds → Prop
  | mk {pos bindings signatures} (members : ∀ b ∈ bindings, b.Supported)
      (signed : ∀ b ∈ bindings, ∀ sig, signatures.lookup b.name = some sig → sig.Supported) :
      LocalBinds.Supported (.mk pos false bindings signatures)

/-- Bindings by a single equation without patterns, or by equations of which the first has some. -/
inductive Binding.Supported : Binding → Prop
  | value {pos x place rhs} (right : rhs.Supported) :
      Binding.Supported (.mk pos x [.mk place [] rhs])
  | function {pos x q qs} (patterns : q.patterns ≠ []) (equations : ∀ r ∈ q :: qs, r.Supported) :
      Binding.Supported (.mk pos x (q :: qs))

end

end Vernacular.Surface
