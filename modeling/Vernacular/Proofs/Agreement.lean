import Vernacular.Proofs.Listing
import Vernacular.Proofs.RunParts

set_option autoImplicit false

namespace Vernacular

namespace Table

def AgreeOn (space : Namespace) (t u : Table) : Prop :=
  ∀ x, t.target? ⟨x, space⟩ = u.target? ⟨x, space⟩

section AgreeOn

variable {t u : Table}

theorem AgreeOn.lookup {space : Namespace} (h : AgreeOn space t u) (x : String) :
    t.lookup space x = u.lookup space x := by
  rw [lookup_eq, lookup_eq, h x]

theorem AgreeOn.typeName (h : AgreeOn .type t u) : t.typeName = u.typeName :=
  funext h.lookup

theorem AgreeOn.valueName (h : AgreeOn .value t u) : t.valueName = u.valueName :=
  funext h.lookup

theorem AgreeOn.isTypeTarget (h : AgreeOn .type t u) : t.isTypeTarget = u.isTypeTarget := by
  funext x
  rw [Bool.eq_iff_iff, isTypeTarget_iff, isTypeTarget_iff]
  exact exists_congr fun source => by rw [h source]

theorem agreeOn_of_entries (h : t.entries = u.entries) (space : Namespace) :
    AgreeOn space t u := by
  intro x
  ext target
  rw [← mem_entries, h, mem_entries]

theorem entries_rename (h : t.entries = u.entries) (space : Namespace) (source target : String) :
    (t.rename space source target).entries = (u.rename space source target).entries := by
  refine entries_eq_of_target? fun slot => ?_
  rw [target?_rename, target?_rename, agreeOn_of_entries h slot.space slot.source]

end AgreeOn

end Table

namespace Surface

open Table (AgreeOn)

section Types

variable {t u : Table}

theorem generalize_congr (types : AgreeOn .type t u) : generalize t = generalize u := by
  funext term
  simp only [generalize, generalized, types.isTypeTarget]

theorem tupleTerm_congr (types : AgreeOn .type t u) : tupleTerm t = tupleTerm u := by
  funext ts
  cases ts with
  | nil => rw [tupleTerm, tupleTerm, types.typeName]
  | cons t ts => rw [tupleTerm, tupleTerm, types.typeName]

mutual

theorem Ty.lower_congr (types : AgreeOn .type t u) : ∀ ty : Ty, ty.lower t = ty.lower u
  | .var _ _ => by simp only [Ty.lower, types.typeName]
  | .app _ f a => by simp only [Ty.lower, Ty.lower_congr types f, Ty.lower_congr types a]
  | .arrow _ a r => by simp only [Ty.lower, Ty.lower_congr types a, Ty.lower_congr types r]
  | .paren _ ty => by simp only [Ty.lower, Ty.lower_congr types ty]
  | .kinded _ ty k => by simp only [Ty.lower, Ty.lower_congr types ty, Ty.lower_congr types k]
  | .number _ _ => by simp only [Ty.lower]
  | .text _ _ => by simp only [Ty.lower]
  | .wildcard _ => by simp only [Ty.lower]
  | .list _ e => by simp only [Ty.lower, Ty.lower_congr types e, types.typeName]
  | .tuple _ _ ts => by simp only [Ty.lower, Ty.lowerAll_congr types ts, tupleTerm_congr types]
  | .quantified _ _ vs ty => by
    simp only [Ty.lower, Ty.lower_congr types ty, TyVar.lowerAll_congr types vs,
      generalize_congr types]
  | .strict _ ty => by simp only [Ty.lower, Ty.lower_congr types ty]
  | .unsupported _ _ => by simp only [Ty.lower]
  | .unknown _ => by simp only [Ty.lower]

theorem Ty.lowerAll_congr (types : AgreeOn .type t u) :
    ∀ ts : List Ty, Ty.lowerAll t ts = Ty.lowerAll u ts
  | [] => rfl
  | ty :: ts => by simp only [Ty.lowerAll, Ty.lower_congr types ty, Ty.lowerAll_congr types ts]

theorem TyVar.lowerAll_congr (types : AgreeOn .type t u) :
    ∀ vs : List TyVar, TyVar.lowerAll t vs = TyVar.lowerAll u vs
  | [] => rfl
  | .mk _ none :: vs => by simp only [TyVar.lowerAll, TyVar.lowerAll_congr types vs, types.typeName]
  | .mk _ (some k) :: vs => by
    simp only [TyVar.lowerAll, Ty.lower_congr types k, TyVar.lowerAll_congr types vs,
      types.typeName]

end

theorem lowerSignature_congr (types : AgreeOn .type t u) (signature : Option Ty) :
    lowerSignature t signature = lowerSignature u signature := by
  cases signature with
  | none => rfl
  | some sig => rw [lowerSignature, lowerSignature, sig.lower_congr types]

theorem TypeSynonym.lower_congr (types : AgreeOn .type t u) (d : TypeSynonym) :
    d.lower t = d.lower u := by
  simp only [TypeSynonym.lower, TyVar.lowerAll_congr types, Ty.lower_congr types, types.typeName]

theorem DataConstructor.lower_congr (types : AgreeOn .type t u) (c : DataConstructor)
    (result : Term) (name : t.valueName c.name = u.valueName c.name) :
    c.lower t result = c.lower u result := by
  simp only [DataConstructor.lower, TyVar.lowerAll_congr types, Ty.lowerAll_congr types, name]

/-- Of the value namespace, a data type reads the targets of its own constructors. -/
theorem DataType.lower_congr (types : AgreeOn .type t u) (d : DataType)
    (names : ∀ c ∈ d.constructors, t.valueName c.name = u.valueName c.name) :
    d.lower t = d.lower u := by
  have kind : d.lowerKind t = d.lowerKind u := by
    unfold DataType.lowerKind
    cases d.kind with
    | none => rfl
    | some kind => exact kind.lower_congr types
  have each : ∀ result,
      d.constructors.mapM (·.lower t result) = d.constructors.mapM (·.lower u result) :=
    fun result => mapM_congr fun c hc => c.lower_congr types result (names c hc)
  simp only [DataType.lower_eq, TyVar.lowerAll_congr types, kind, types.typeName, each]

end Types

section Expressions

variable {t u : Table}

mutual

theorem Pattern.lower_congr (values : AgreeOn .value t u) : ∀ p : Pattern, p.lower t = p.lower u
  | .wild _ => by simp only [Pattern.lower]
  | .var _ _ => by simp only [Pattern.lower, values.valueName]
  | .paren _ p => by simp only [Pattern.lower, Pattern.lower_congr values p]
  | .strict _ p => by simp only [Pattern.lower, Pattern.lower_congr values p]
  | .named _ _ p => by simp only [Pattern.lower, Pattern.lower_congr values p, values.valueName]
  | .con _ _ _ ps => by
    simp only [Pattern.lower, Pattern.lowerAll_congr values ps, values.valueName]
  | .literal _ _ => by simp only [Pattern.lower]
  | .overloaded _ _ _ => by simp only [Pattern.lower]
  | .unsupported _ _ => by simp only [Pattern.lower]
  | .unknown _ => by simp only [Pattern.lower]

theorem Pattern.lowerAll_congr (values : AgreeOn .value t u) :
    ∀ ps : List Pattern, Pattern.lowerAll t ps = Pattern.lowerAll u ps
  | [] => rfl
  | p :: ps => by
    simp only [Pattern.lowerAll, Pattern.lower_congr values p, Pattern.lowerAll_congr values ps]

end

mutual

theorem Expr.lower_congr (agree : ∀ space, AgreeOn space t u) : ∀ e : Expr, e.lower t = e.lower u
  | .var _ _ => by simp only [Expr.lower, (agree .value).valueName]
  | .app _ f a => by simp only [Expr.lower, Expr.lower_congr agree f, Expr.lower_congr agree a]
  | .paren _ e => by simp only [Expr.lower, Expr.lower_congr agree e]
  | .ite _ _ c y n => by
    simp only [Expr.lower, Expr.lower_congr agree c, Expr.lower_congr agree y,
      Expr.lower_congr agree n]
  | .caseOf _ e qs => by
    simp only [Expr.lower, Expr.lower_congr agree e, Equation.lowerAlternatives_congr agree qs]
  | .literal _ _ => by simp only [Expr.lower]
  | .overloaded _ _ => by simp only [Expr.lower]
  | .letIn _ binds e => by
    simp only [Expr.lower, Expr.lower_congr agree e, LocalBinds.lower_congr agree binds]
  | .ascribed _ e sig => by
    simp only [Expr.lower, Expr.lower_congr agree e, Ty.lower_congr (agree .type) sig]
  | .lambda _ qs => by simp only [Expr.lower, Equation.lowerAll_congr agree qs]
  | .lambdaCase _ qs => by simp only [Expr.lower, Equation.lowerAll_congr agree qs]
  | .tick _ _ e => by simp only [Expr.lower, Expr.lower_congr agree e]
  | .unsupported _ _ => by simp only [Expr.lower]
  | .unknown _ => by simp only [Expr.lower]

theorem Equation.lowerAlternatives_congr (agree : ∀ space, AgreeOn space t u) :
    ∀ qs : List Equation, Equation.lowerAlternatives t qs = Equation.lowerAlternatives u qs
  | [] => rfl
  | .mk _ ps rhs :: qs => by
    simp only [Equation.lowerAlternatives, Pattern.lowerAll_congr (agree .value) ps,
      Rhs.lower_congr agree rhs, Equation.lowerAlternatives_congr agree qs]

theorem Equation.lowerAll_congr (agree : ∀ space, AgreeOn space t u) :
    ∀ qs : List Equation, Equation.lowerAll t qs = Equation.lowerAll u qs
  | [] => rfl
  | .mk _ ps rhs :: qs => by
    simp only [Equation.lowerAll, Pattern.lowerAll_congr (agree .value) ps,
      Rhs.lower_congr agree rhs, Equation.lowerAll_congr agree qs]

theorem Rhs.lower_congr (agree : ∀ space, AgreeOn space t u) :
    ∀ rhs : Rhs, rhs.lower t = rhs.lower u
  | .mk alts binds => by
    simp only [Rhs.lower, Alternative.lowerChain_congr agree alts,
      LocalBinds.lower_congr agree binds]

theorem Alternative.lowerChain_congr (agree : ∀ space, AgreeOn space t u) :
    ∀ alts : List Alternative, Alternative.lowerChain t alts = Alternative.lowerChain u alts
  | [] => rfl
  | .mk _ guards e :: alts => by
    simp only [Alternative.lowerChain, Guard.lowerAll_congr agree guards, Expr.lower_congr agree e,
      Alternative.lowerChain_congr agree alts]

theorem Guard.lowerAll_congr (agree : ∀ space, AgreeOn space t u) :
    ∀ guards : List Guard, Guard.lowerAll t guards = Guard.lowerAll u guards
  | [] => rfl
  | .bool _ e :: guards => by
    simp only [Guard.lowerAll, Guard.lower, Expr.lower_congr agree e,
      Guard.lowerAll_congr agree guards]
  | .unsupported _ _ :: guards => by
    simp only [Guard.lowerAll, Guard.lower, Guard.lowerAll_congr agree guards]
  | .unknown _ :: guards => by
    simp only [Guard.lowerAll, Guard.lower, Guard.lowerAll_congr agree guards]

theorem LocalBinds.lower_congr (agree : ∀ space, AgreeOn space t u) :
    ∀ binds : LocalBinds, binds.lower t = binds.lower u
  | .mk _ _ bs signatures => by
    simp only [LocalBinds.lower, Binding.lowerAll_congr agree signatures bs]

theorem Binding.lowerAll_congr (agree : ∀ space, AgreeOn space t u)
    (signatures : List (String × Ty)) :
    ∀ bs : List Binding, Binding.lowerAll t signatures bs = Binding.lowerAll u signatures bs
  | [] => rfl
  | .mk pos x qs :: bs => by
    simp only [Binding.lowerAll, Binding.lower_congr agree (signatures.lookup x) (.mk pos x qs),
      Binding.lowerAll_congr agree signatures bs]

theorem Binding.lower_congr (agree : ∀ space, AgreeOn space t u) (signature : Option Ty) :
    ∀ b : Binding, b.lower t signature = b.lower u signature
  | .mk pos x [] => by
    rw [Binding.lower, Binding.lower, lowerSignature_congr (agree .type), (agree .value).valueName]
  | .mk pos x [.mk place [] rhs] => by
    rw [Binding.lower, Binding.lower, lowerSignature_congr (agree .type), (agree .value).valueName,
      Rhs.lower_congr agree rhs]
  | .mk pos x (.mk place [] rhs :: q :: qs) => by
    rw [Binding.lower, Binding.lower, lowerSignature_congr (agree .type), (agree .value).valueName,
      Equation.lowerAll_congr agree (.mk place [] rhs :: q :: qs)]
    · nofun
    · nofun
  | .mk pos x (.mk place (p :: ps) rhs :: qs) => by
    rw [Binding.lower, Binding.lower, lowerSignature_congr (agree .type), (agree .value).valueName,
      Equation.lowerAll_congr agree (.mk place (p :: ps) rhs :: qs)]
    · nofun
    · nofun

end

theorem Value.lower_congr (agree : ∀ space, AgreeOn space t u) (d : Value) :
    d.lower t = d.lower u :=
  Binding.lower_congr agree d.signature d.binding

end Expressions

end Surface

end Vernacular
