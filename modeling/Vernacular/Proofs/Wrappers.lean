import Vernacular.Proofs.Outcome

set_option autoImplicit false

namespace Vernacular.Surface

mutual

def Ty.unwrapped : Ty → Ty
  | .app pos f a => .app pos f.unwrapped a.unwrapped
  | .arrow pos a r => .arrow pos a.unwrapped r.unwrapped
  | .paren pos t => .paren pos t.unwrapped
  | .kinded pos t k => .kinded pos t.unwrapped k.unwrapped
  | .list pos e => .list pos e.unwrapped
  | .tuple pos sort ts => .tuple pos sort (Ty.unwrappedAll ts)
  | .quantified pos implicit vs t => .quantified pos implicit (TyVar.unwrappedAll vs) t.unwrapped
  | .strict _ t => t.unwrapped
  | t => t

def Ty.unwrappedAll : List Ty → List Ty
  | [] => []
  | t :: ts => t.unwrapped :: Ty.unwrappedAll ts

def TyVar.unwrappedAll : List TyVar → List TyVar
  | [] => []
  | .mk x none :: vs => .mk x none :: TyVar.unwrappedAll vs
  | .mk x (some k) :: vs => .mk x (some k.unwrapped) :: TyVar.unwrappedAll vs

end

mutual

def Pattern.unwrapped : Pattern → Pattern
  | .paren _ p => p.unwrapped
  | .strict _ p => p.unwrapped
  | .named pos x p => .named pos x p.unwrapped
  | .con pos c style ps => .con pos c style (Pattern.unwrappedAll ps)
  | p => p

def Pattern.unwrappedAll : List Pattern → List Pattern
  | [] => []
  | p :: ps => p.unwrapped :: Pattern.unwrappedAll ps

end

mutual

/-- An expression without ticks, and without the wrappers of the patterns and types in it. -/
def Expr.unwrapped : Expr → Expr
  | .app pos f a => .app pos f.unwrapped a.unwrapped
  | .paren pos e => .paren pos e.unwrapped
  | .ite pos rebindable c y n => .ite pos rebindable c.unwrapped y.unwrapped n.unwrapped
  | .caseOf pos e qs => .caseOf pos e.unwrapped (Equation.unwrappedAll qs)
  | .letIn pos binds e => .letIn pos binds.unwrapped e.unwrapped
  | .ascribed pos e sig => .ascribed pos e.unwrapped sig.unwrapped
  | .lambda pos qs => .lambda pos (Equation.unwrappedAll qs)
  | .lambdaCase pos qs => .lambdaCase pos (Equation.unwrappedAll qs)
  | .tick _ _ e => e.unwrapped
  | e => e

def Equation.unwrapped : Equation → Equation
  | .mk pos ps rhs => .mk pos (Pattern.unwrappedAll ps) rhs.unwrapped

def Equation.unwrappedAll : List Equation → List Equation
  | [] => []
  | q :: qs => q.unwrapped :: Equation.unwrappedAll qs

def Rhs.unwrapped : Rhs → Rhs
  | .mk alts binds => .mk (Alternative.unwrappedAll alts) binds.unwrapped

def Alternative.unwrapped : Alternative → Alternative
  | .mk pos guards e => .mk pos (Guard.unwrappedAll guards) e.unwrapped

def Alternative.unwrappedAll : List Alternative → List Alternative
  | [] => []
  | a :: alts => a.unwrapped :: Alternative.unwrappedAll alts

def Guard.unwrapped : Guard → Guard
  | .bool pos e => .bool pos e.unwrapped
  | guard => guard

def Guard.unwrappedAll : List Guard → List Guard
  | [] => []
  | guard :: guards => guard.unwrapped :: Guard.unwrappedAll guards

def LocalBinds.unwrapped : LocalBinds → LocalBinds
  | .mk pos implicitParams bs signatures =>
    .mk pos implicitParams (Binding.unwrappedAll bs) (signatures.map fun s => (s.1, s.2.unwrapped))

def Binding.unwrapped : Binding → Binding
  | .mk pos x qs => .mk pos x (Equation.unwrappedAll qs)

def Binding.unwrappedAll : List Binding → List Binding
  | [] => []
  | b :: bs => b.unwrapped :: Binding.unwrappedAll bs

end

section Reported

variable {α β : Type}

/-- What a computation gives: its result, or the kind and the description of its fault. -/
def reported (r : Except Fault α) : Except (FaultKind × String) α :=
  r.mapError fun f => (f.kind, f.description)

theorem reported_locating (pos : Position) (r : Except Fault α) :
    reported (Fault.locating pos r) = reported r := by
  cases r with
  | ok a => rfl
  | error f =>
    unfold reported Fault.locating Fault.located
    simp only [Except.mapError]
    split <;> rfl

theorem reported_bind (r : Except Fault α) (k : α → Except Fault β) :
    reported (r >>= k) = reported r >>= fun a => reported (k a) := by
  cases r <;> rfl

theorem reported_map (r : Except Fault α) (k : α → β) :
    reported (r.map k) = (reported r).map k := by
  cases r <;> rfl

end Reported

/-! What is looked at apart from the parts: markers, and how many patterns and alternatives. -/

theorem Expr.isTrueMarker_unwrapped : ∀ e : Expr, e.unwrapped.isTrueMarker = e.isTrueMarker
  | .paren _ e => Expr.isTrueMarker_unwrapped e
  | .tick _ _ e => Expr.isTrueMarker_unwrapped e
  | .var .. | .app .. | .ite .. | .caseOf .. | .literal .. | .overloaded .. | .letIn ..
  | .ascribed .. | .lambda .. | .lambdaCase .. | .unsupported .. | .unknown .. => rfl

theorem Guard.isTrueMarker_unwrapped (guard : Guard) :
    guard.unwrapped.isTrueMarker = guard.isTrueMarker := by
  cases guard with
  | bool pos e => exact e.isTrueMarker_unwrapped
  | unsupported pos form => rfl
  | unknown pos => rfl

theorem Guard.unwrappedAll_eq_map (guards : List Guard) :
    Guard.unwrappedAll guards = guards.map Guard.unwrapped := by
  induction guards with
  | nil => rfl
  | cons guard guards ih => rw [Guard.unwrappedAll, ih, List.map_cons]

theorem Alternative.unwrappedAll_eq_map (alts : List Alternative) :
    Alternative.unwrappedAll alts = alts.map Alternative.unwrapped := by
  induction alts with
  | nil => rfl
  | cons a alts ih => rw [Alternative.unwrappedAll, ih, List.map_cons]

theorem Equation.unwrappedAll_eq_map (qs : List Equation) :
    Equation.unwrappedAll qs = qs.map Equation.unwrapped := by
  induction qs with
  | nil => rfl
  | cons q qs ih => rw [Equation.unwrappedAll, ih, List.map_cons]

theorem TyVar.isEmpty_unwrappedAll (vs : List TyVar) :
    (TyVar.unwrappedAll vs).isEmpty = vs.isEmpty := by
  rcases vs with _ | ⟨⟨x, _ | k⟩, vs⟩ <;> rfl

theorem Equation.isEmpty_patterns_unwrapped (q : Equation) :
    q.unwrapped.patterns.isEmpty = q.patterns.isEmpty := by
  obtain ⟨pos, ps, rhs⟩ := q
  cases ps <;> rfl

theorem Equation.all_isEmpty_unwrappedAll (qs : List Equation) :
    (Equation.unwrappedAll qs).all (·.patterns.isEmpty) = qs.all (·.patterns.isEmpty) := by
  rw [Equation.unwrappedAll_eq_map, List.all_map]
  exact congrArg qs.all (funext Equation.isEmpty_patterns_unwrapped)

theorem Equation.checkAlternative_unwrapped (q : Equation) :
    q.unwrapped.checkAlternative = q.checkAlternative := by
  obtain ⟨pos, ps, rhs⟩ := q
  rcases ps with _ | ⟨p, _ | ⟨r, ps⟩⟩ <;> rfl

theorem Equation.checkLambda_unwrapped (q : Equation) :
    q.unwrapped.checkLambda = q.checkLambda := by
  obtain ⟨pos, ps, rhs⟩ := q
  cases ps <;> rfl

theorem forM_unwrapped {α : Type} {xs : List α} {f : α → Except Fault Unit} {unwrap : α → α}
    (each : ∀ x, f (unwrap x) = f x) : (xs.map unwrap).forM f = xs.forM f := by
  induction xs with
  | nil => rfl
  | cons x xs ih =>
    change (f (unwrap x) >>= fun _ => (xs.map unwrap).forM f) = f x >>= fun _ => xs.forM f
    rw [each, ih]

theorem Alternative.checkAll_unwrapped (alts : List Alternative) :
    checkAll (Alternative.unwrappedAll alts) = checkAll alts := by
  rw [Alternative.unwrappedAll_eq_map, checkAll, checkAll, List.getLast?_map, forM_unwrapped]
  · rcases alts.getLast? with _ | ⟨pos, guards, e⟩
    · rfl
    · have markers : (Guard.unwrappedAll guards).all Guard.isTrueMarker =
          guards.all Guard.isTrueMarker := by
        rw [Guard.unwrappedAll_eq_map, List.all_map]
        exact congrArg guards.all (funext Guard.isTrueMarker_unwrapped)
      simp only [Option.map_some, Alternative.unwrapped, markers]
  · rintro ⟨pos, guards, e⟩
    rw [Alternative.unwrapped, Guard.unwrappedAll_eq_map]
    refine forM_unwrapped fun guard => ?_
    cases guard <;> rfl

section Types

variable (table : Table)

mutual

theorem Ty.reported_unwrapped :
    ∀ ty : Ty, reported (ty.unwrapped.lower table) = reported (ty.lower table)
  | .var _ _ => rfl
  | .app _ f a => by
    simp only [Ty.unwrapped, Ty.lower, reported_locating, reported_bind, Ty.reported_unwrapped f,
      Ty.reported_unwrapped a]
  | .arrow _ a r => by
    simp only [Ty.unwrapped, Ty.lower, reported_locating, reported_bind, Ty.reported_unwrapped a,
      Ty.reported_unwrapped r]
  | .paren _ ty => by
    simp only [Ty.unwrapped, Ty.lower, reported_locating, reported_bind, Ty.reported_unwrapped ty]
  | .kinded _ ty k => by
    simp only [Ty.unwrapped, Ty.lower, reported_locating, reported_bind, Ty.reported_unwrapped ty,
      Ty.reported_unwrapped k]
  | .number _ _ => rfl
  | .text _ _ => rfl
  | .wildcard _ => rfl
  | .list _ e => by
    simp only [Ty.unwrapped, Ty.lower, reported_locating, reported_bind, Ty.reported_unwrapped e]
  | .tuple _ sort ts => by
    cases sort with
    | boxed =>
      simp only [Ty.unwrapped, Ty.lower, reported_locating, reported_bind,
        Ty.reported_unwrappedAll ts]
    | unboxed => rfl
    | constraint => rfl
  | .quantified _ implicit vs ty => by
    simp only [Ty.unwrapped, Ty.lower, reported_locating, reported_bind, Ty.reported_unwrapped ty,
      TyVar.isEmpty_unwrappedAll, apply_ite reported, TyVar.reported_unwrappedAll vs]
  | .strict _ ty => by
    simp only [Ty.unwrapped, Ty.lower, reported_locating, Ty.reported_unwrapped ty]
  | .unsupported _ _ => rfl
  | .unknown _ => rfl

theorem Ty.reported_unwrappedAll :
    ∀ ts : List Ty, reported (Ty.lowerAll table (Ty.unwrappedAll ts)) =
      reported (Ty.lowerAll table ts)
  | [] => rfl
  | ty :: ts => by
    simp only [Ty.unwrappedAll, Ty.lowerAll, reported_bind, Ty.reported_unwrapped ty,
      Ty.reported_unwrappedAll ts]

theorem TyVar.reported_unwrappedAll :
    ∀ vs : List TyVar, reported (TyVar.lowerAll table (TyVar.unwrappedAll vs)) =
      reported (TyVar.lowerAll table vs)
  | [] => rfl
  | .mk x none :: vs => by
    simp only [TyVar.unwrappedAll, TyVar.lowerAll, reported_bind, TyVar.reported_unwrappedAll vs]
  | .mk x (some k) :: vs => by
    simp only [TyVar.unwrappedAll, TyVar.lowerAll, reported_bind, Ty.reported_unwrapped k,
      TyVar.reported_unwrappedAll vs]

end

mutual

theorem Pattern.reported_unwrapped :
    ∀ p : Pattern, reported (p.unwrapped.lower table) = reported (p.lower table)
  | .wild _ => rfl
  | .var _ _ => rfl
  | .paren _ p => by
    simp only [Pattern.unwrapped, Pattern.lower, reported_locating, Pattern.reported_unwrapped p]
  | .strict _ p => by
    simp only [Pattern.unwrapped, Pattern.lower, reported_locating, Pattern.reported_unwrapped p]
  | .named _ _ p => by
    simp only [Pattern.unwrapped, Pattern.lower, reported_locating, reported_bind,
      Pattern.reported_unwrapped p]
  | .con _ _ style ps => by
    cases style with
    | ordinary =>
      simp only [Pattern.unwrapped, Pattern.lower, reported_locating, reported_bind,
        Pattern.reported_unwrappedAll ps]
    | between => rfl
    | record => rfl
  | .literal _ _ => rfl
  | .overloaded _ _ _ => rfl
  | .unsupported _ _ => rfl
  | .unknown _ => rfl

theorem Pattern.reported_unwrappedAll :
    ∀ ps : List Pattern, reported (Pattern.lowerAll table (Pattern.unwrappedAll ps)) =
      reported (Pattern.lowerAll table ps)
  | [] => rfl
  | p :: ps => by
    simp only [Pattern.unwrappedAll, Pattern.lowerAll, reported_bind, Pattern.reported_unwrapped p,
      Pattern.reported_unwrappedAll ps]

end

theorem reported_lowerSignature (signature : Option Ty) :
    reported (lowerSignature table (signature.map Ty.unwrapped)) =
      reported (lowerSignature table signature) := by
  cases signature with
  | none => rfl
  | some sig =>
    simp only [Option.map_some, lowerSignature, reported_bind, Ty.reported_unwrapped table sig]

end Types

section Expressions

variable (table : Table)

mutual

theorem Expr.reported_unwrapped :
    ∀ e : Expr, reported (e.unwrapped.lower table) = reported (e.lower table)
  | .var _ _ => rfl
  | .app _ f a => by
    simp only [Expr.unwrapped, Expr.lower, reported_locating, reported_bind,
      Expr.reported_unwrapped f, Expr.reported_unwrapped a]
  | .paren _ e => by
    simp only [Expr.unwrapped, Expr.lower, reported_locating, reported_bind,
      Expr.reported_unwrapped e]
  | .ite _ rebindable c y n => by
    simp only [Expr.unwrapped, Expr.lower, reported_locating, reported_bind, apply_ite reported,
      Expr.reported_unwrapped c, Expr.reported_unwrapped y, Expr.reported_unwrapped n]
  | .caseOf _ e qs => by
    simp only [Expr.unwrapped, Expr.lower, reported_locating, reported_bind,
      Expr.reported_unwrapped e, Equation.reported_lowerAlternatives qs]
  | .literal _ _ => rfl
  | .overloaded _ _ => rfl
  | .letIn _ binds e => by
    simp only [Expr.unwrapped, Expr.lower, reported_locating, reported_bind,
      Expr.reported_unwrapped e, LocalBinds.reported_unwrapped binds]
  | .ascribed _ e sig => by
    simp only [Expr.unwrapped, Expr.lower, reported_locating, reported_bind,
      Expr.reported_unwrapped e, Ty.reported_unwrapped table sig]
  | .lambda _ qs => by
    have checks : (Equation.unwrappedAll qs).forM Equation.checkLambda =
        qs.forM Equation.checkLambda := by
      rw [Equation.unwrappedAll_eq_map, forM_unwrapped Equation.checkLambda_unwrapped]
    simp only [Expr.unwrapped, Expr.lower, reported_locating, reported_bind, checks,
      Equation.reported_lowerAll qs]
  | .lambdaCase _ qs => by
    have checks : (Equation.unwrappedAll qs).forM Equation.checkAlternative =
        qs.forM Equation.checkAlternative := by
      rw [Equation.unwrappedAll_eq_map, forM_unwrapped Equation.checkAlternative_unwrapped]
    simp only [Expr.unwrapped, Expr.lower, reported_locating, reported_bind, checks,
      Equation.reported_lowerAll qs]
  | .tick _ _ e => by
    simp only [Expr.unwrapped, Expr.lower, reported_locating, Expr.reported_unwrapped e]
  | .unsupported _ _ => rfl
  | .unknown _ => rfl

theorem Equation.reported_lowerAlternatives :
    ∀ qs : List Equation, reported (Equation.lowerAlternatives table (Equation.unwrappedAll qs)) =
      reported (Equation.lowerAlternatives table qs)
  | [] => rfl
  | .mk pos ps rhs :: qs => by
    have check := Equation.checkAlternative_unwrapped (.mk pos ps rhs)
    rw [Equation.unwrapped] at check
    simp only [Equation.unwrappedAll, Equation.unwrapped, Equation.lowerAlternatives, reported_bind,
      check, Pattern.reported_unwrappedAll table ps, Rhs.reported_unwrapped rhs,
      Equation.reported_lowerAlternatives qs]

theorem Equation.reported_lowerAll :
    ∀ qs : List Equation, reported (Equation.lowerAll table (Equation.unwrappedAll qs)) =
      reported (Equation.lowerAll table qs)
  | [] => rfl
  | .mk pos ps rhs :: qs => by
    have empty : (Equation.unwrappedAll qs).isEmpty = qs.isEmpty := by cases qs <;> rfl
    simp only [Equation.unwrappedAll, Equation.unwrapped, Equation.lowerAll, reported_bind, empty,
      reported_locating, apply_ite reported, Pattern.reported_unwrappedAll table ps,
      Rhs.reported_unwrapped rhs, Equation.reported_lowerAll qs]

theorem Rhs.reported_unwrapped :
    ∀ rhs : Rhs, reported (rhs.unwrapped.lower table) = reported (rhs.lower table)
  | .mk alts binds => by
    simp only [Rhs.unwrapped, Rhs.lower, reported_bind, Alternative.checkAll_unwrapped,
      Alternative.reported_lowerChain alts, LocalBinds.reported_unwrapped binds]

theorem Alternative.reported_lowerChain :
    ∀ alts : List Alternative,
      reported (Alternative.lowerChain table (Alternative.unwrappedAll alts)) =
        reported (Alternative.lowerChain table alts)
  | [] => rfl
  | .mk pos guards e :: alts => by
    have empty : (Alternative.unwrappedAll alts).isEmpty = alts.isEmpty := by cases alts <;> rfl
    simp only [Alternative.unwrappedAll, Alternative.unwrapped, Alternative.lowerChain, empty,
      apply_ite reported, reported_bind, Guard.reported_unwrappedAll guards,
      Expr.reported_unwrapped e, Alternative.reported_lowerChain alts]

theorem Guard.reported_unwrappedAll :
    ∀ guards : List Guard, reported (Guard.lowerAll table (Guard.unwrappedAll guards)) =
      reported (Guard.lowerAll table guards)
  | [] => rfl
  | .bool _ e :: guards => by
    simp only [Guard.unwrappedAll, Guard.unwrapped, Guard.lowerAll, Guard.lower, reported_bind,
      apply_ite reported, Expr.isTrueMarker_unwrapped, Expr.reported_unwrapped e,
      Guard.reported_unwrappedAll guards]
  | .unsupported _ _ :: guards => by
    simp only [Guard.unwrappedAll, Guard.unwrapped, Guard.lowerAll, reported_bind,
      Guard.reported_unwrappedAll guards]
  | .unknown _ :: guards => by
    simp only [Guard.unwrappedAll, Guard.unwrapped, Guard.lowerAll, reported_bind,
      Guard.reported_unwrappedAll guards]

theorem LocalBinds.reported_unwrapped :
    ∀ binds : LocalBinds, reported (binds.unwrapped.lower table) = reported (binds.lower table)
  | .mk _ implicitParams bs signatures => by
    simp only [LocalBinds.unwrapped, LocalBinds.lower, apply_ite reported,
      Binding.reported_lowerAll signatures bs]

theorem Binding.reported_lowerAll (signatures : List (String × Ty)) :
    ∀ bs : List Binding,
      reported (Binding.lowerAll table (signatures.map fun s => (s.1, s.2.unwrapped))
        (Binding.unwrappedAll bs)) = reported (Binding.lowerAll table signatures bs)
  | [] => rfl
  | .mk pos x qs :: bs => by
    have first := Binding.reported_unwrapped (signatures.lookup x) (.mk pos x qs)
    rw [Binding.unwrapped] at first
    simp only [Binding.unwrappedAll, Binding.unwrapped, Binding.lowerAll, reported_bind,
      lookup_map_types, first, Binding.reported_lowerAll signatures bs]

theorem Binding.reported_unwrapped (signature : Option Ty) :
    ∀ b : Binding, reported (b.unwrapped.lower table (signature.map Ty.unwrapped)) =
      reported (b.lower table signature)
  | .mk pos x [] => by
    rw [Binding.unwrapped, Equation.unwrappedAll, Binding.lower, Binding.lower]
    simp only [reported_locating, reported_bind, reported_lowerSignature]
  | .mk pos x [.mk place [] rhs] => by
    rw [Binding.unwrapped, Equation.unwrappedAll, Equation.unwrappedAll, Equation.unwrapped,
      Pattern.unwrappedAll, Binding.lower, Binding.lower]
    simp only [reported_locating, reported_bind, reported_lowerSignature,
      Rhs.reported_unwrapped rhs]
  | .mk pos x (.mk place [] rhs :: q :: qs) => by
    have arity := Equation.all_isEmpty_unwrappedAll (.mk place [] rhs :: q :: qs)
    simp only [Equation.unwrappedAll, Equation.unwrapped, Pattern.unwrappedAll] at arity
    rw [Binding.unwrapped, Equation.unwrappedAll, Equation.unwrappedAll, Equation.unwrapped,
      Pattern.unwrappedAll, Binding.lower, Binding.lower]
    · simp only [reported_locating, reported_bind, reported_lowerSignature, arity]
      rfl
    · nofun
    · nofun
  | .mk pos x (.mk place (p :: ps) rhs :: qs) => by
    have equations := Equation.reported_lowerAll (.mk place (p :: ps) rhs :: qs)
    rw [Equation.unwrappedAll, Equation.unwrapped, Pattern.unwrappedAll] at equations
    rw [Binding.unwrapped, Equation.unwrappedAll, Equation.unwrapped, Pattern.unwrappedAll,
      Binding.lower, Binding.lower]
    · simp only [reported_locating, reported_bind, reported_lowerSignature, List.all_cons,
        Equation.patterns, List.isEmpty_cons, Bool.false_and, Bool.false_eq_true, if_false,
        reported_map, equations]
    · nofun
    · nofun

end

end Expressions

/-- Ticks, parentheses and strictness marks of patterns, and strictness marks of types, anywhere in
an expression or in a binding with its signature, change neither what it is converted to nor the
kind and the description of its fault. -/
theorem lower_unwrapped (table : Table) :
    (∀ e : Expr, reported (e.unwrapped.lower table) = reported (e.lower table)) ∧
    ∀ (signature : Option Ty) (b : Binding),
      reported (b.unwrapped.lower table (signature.map Ty.unwrapped)) =
        reported (b.lower table signature) :=
  ⟨Expr.reported_unwrapped table, Binding.reported_unwrapped table⟩

-- a function literal with wrappers around its variable and its guard
example : (Expr.lambda {} [.mk {} [.paren {} (.strict {} (.var {} "x"))]
      (.mk [.mk {} [.bool {} (.tick {} "t" (.var {} "otherwise"))] (.var {} "x")]
        .none)]).unwrapped =
    .lambda {} [.mk {} [.var {} "x"]
      (.mk [.mk {} [.bool {} (.var {} "otherwise")] (.var {} "x")] .none)] := rfl

end Vernacular.Surface
