import Vernacular.Proofs.Acceptance
import Vernacular.Proofs.TypeConversion

set_option autoImplicit false

namespace Vernacular.Surface

/-- What the nodes of a converted expression depend on: the equations of its functions, and the
types written in it. -/
inductive Fragment where
  | function (equations : List Equation)
  | type (type : Ty)

mutual

def Expr.fragments : Expr → List Fragment
  | .app _ f a => f.fragments ++ a.fragments
  | .paren _ e => e.fragments
  | .ite _ _ c t e => c.fragments ++ t.fragments ++ e.fragments
  | .caseOf _ e alts => e.fragments ++ Equation.fragmentsAll alts
  | .letIn _ binds e => binds.fragments ++ e.fragments
  | .ascribed _ e sig => .type sig :: e.fragments
  | .lambda _ qs => .function qs :: Equation.fragmentsAll qs
  | .lambdaCase _ qs => Equation.fragmentsAll qs
  | .tick _ _ e => e.fragments
  | _ => []

def Equation.fragmentsAll : List Equation → List Fragment
  | [] => []
  | .mk _ _ rhs :: qs => rhs.fragments ++ Equation.fragmentsAll qs

def Rhs.fragments : Rhs → List Fragment
  | .mk alts binds => Alternative.fragmentsAll alts ++ binds.fragments

def Alternative.fragmentsAll : List Alternative → List Fragment
  | [] => []
  | .mk _ guards e :: alts =>
    Guard.fragmentsAll guards ++ e.fragments ++ Alternative.fragmentsAll alts

def Guard.fragmentsAll : List Guard → List Fragment
  | [] => []
  | .bool _ e :: guards => e.fragments ++ Guard.fragmentsAll guards
  | _ :: guards => Guard.fragmentsAll guards

def LocalBinds.fragments : LocalBinds → List Fragment
  | .mk _ _ bindings signatures =>
    signatures.map (fun s => .type s.2) ++ Binding.fragmentsAll bindings

def Binding.fragmentsAll : List Binding → List Fragment
  | [] => []
  | b :: bindings => b.fragments ++ Binding.fragmentsAll bindings

def Binding.fragments : Binding → List Fragment
  | .mk _ _ qs => .function qs :: Equation.fragmentsAll qs

end

def SameArity (qs : List Equation) : Prop :=
  ∀ q ∈ qs, ∀ r ∈ qs, q.patterns.length = r.patterns.length

def Fragment.Admitted (uniform : Prop) (vars : String → Prop) : Fragment → Prop
  | .function qs => uniform → SameArity qs
  | .type ty => ∀ x ∈ ty.quantifiedNames, vars x

section Parts

variable {table : Table} {uniform : Prop} {vars : String → Prop}

theorem name_hidden (b : Binder) : b.hidden.name = b.name := by
  cases b
  rfl

theorem type_hidden (b : Binder) : b.hidden.type = b.type := by
  cases b
  rfl

theorem lowerSignature_made {signature : Option Ty} {bs : List Binder} {ty : Option Term}
    (admitted : ∀ sig ∈ signature, ∀ x ∈ sig.quantifiedNames, vars x)
    (h : lowerSignature table signature = .ok (bs, ty)) :
    (∀ x ∈ bs.map Binder.name, Term.QuantifiedName table vars x) ∧
      (∀ b ∈ bs, ∀ u ∈ b.type, u.Made table uniform vars) ∧
        ∀ u ∈ ty, u.Made table uniform vars := by
  cases signature with
  | none =>
    cases h
    exact ⟨List.forall_mem_nil _, List.forall_mem_nil _, nofun⟩
  | some sig =>
    simp only [lowerSignature, bind_eq_ok, pure_eq_ok] at h
    obtain ⟨type, converted, parts⟩ := h
    obtain ⟨names, kinds, rest⟩ := (Ty.made_lower sig (admitted sig rfl) converted).made.splitForAll
    cases parts
    refine ⟨?_, ?_, by rintro u ⟨⟩; exact rest⟩
    · rwa [List.map_map, show Binder.name ∘ Binder.hidden = Binder.name from funext name_hidden]
    · rw [List.forall_mem_map]
      intro b hb
      rw [type_hidden]
      exact kinds b hb

theorem made_conjunction {cs : List Term} (h : ∀ c ∈ cs, c.Made table uniform vars) :
    (conjunction cs).Made table uniform vars := by
  cases cs with
  | nil => exact Term.made_var _
  | cons c cs =>
    obtain ⟨first, rest⟩ := List.forall_mem_cons.1 h
    exact Term.made_foldl_app first rest

namespace Equation.LowersTo

variable {qs : List Equation} {arms : List Arm}

theorem patterns (h : List.Forall₂ (LowersTo table) qs arms) :
    ∀ ps ∈ arms.map Arm.patterns, ∀ p ∈ ps, p.Node table := by
  induction h with
  | nil => exact List.forall_mem_nil _
  | @cons q arm _ _ first _ ih =>
    obtain ⟨pos, ps, rhs⟩ := q
    obtain ⟨patterns, body⟩ := arm
    exact List.forall_mem_cons.2 ⟨(Pattern.node_lowerAll ps first.1).1, ih⟩

theorem lengths (h : List.Forall₂ (LowersTo table) qs arms) :
    arms.map (·.patterns.length) = qs.map (·.patterns.length) := by
  induction h with
  | nil => rfl
  | @cons q arm _ _ first _ ih =>
    obtain ⟨pos, ps, rhs⟩ := q
    obtain ⟨patterns, body⟩ := arm
    exact congrArg₂ List.cons (Pattern.node_lowerAll ps first.1).2 ih

theorem exists_length (h : List.Forall₂ (LowersTo table) qs arms) {arm : Arm} (mem : arm ∈ arms) :
    ∃ q ∈ qs, arm.patterns.length = q.patterns.length := by
  have listed : arm.patterns.length ∈ qs.map (·.patterns.length) :=
    lengths h ▸ List.mem_map_of_mem mem
  obtain ⟨q, hq, same⟩ := List.mem_map.1 listed
  exact ⟨q, hq, same.symm⟩

theorem fits (h : List.Forall₂ (LowersTo table) qs arms) (same : SameArity qs) :
    ∀ ps ∈ arms.map Arm.patterns, ps.length = (FunctionLiteral.argumentsFor arms).length := by
  rw [List.forall_mem_map]
  intro arm mem
  rw [FunctionLiteral.length_argumentsFor]
  cases arms with
  | nil => cases mem
  | cons first rest =>
    obtain ⟨q, hq, length⟩ := exists_length h mem
    obtain ⟨r, hr, arity⟩ := exists_length h (List.mem_cons_self ..)
    rw [length, List.head?_cons, Option.map_some, Option.getD_some, arity]
    exact same q hq r hr

theorem argumentsFor_ne_nil (h : List.Forall₂ (LowersTo table) qs arms)
    (first : ∃ q ∈ qs.head?, q.patterns ≠ []) : FunctionLiteral.argumentsFor arms ≠ [] := by
  obtain ⟨q, hq, some⟩ := first
  have arity := congrArg List.head? (lengths h)
  rw [List.head?_map, List.head?_map, Option.mem_def.1 hq] at arity
  rw [ne_eq, ← List.length_eq_zero_iff, FunctionLiteral.length_argumentsFor, arity]
  simpa using some

end Equation.LowersTo

theorem exists_head {qs : List Equation} {P : Equation → Prop} (nonempty : qs ≠ [])
    (h : ∀ q ∈ qs, P q) : ∃ q ∈ qs.head?, P q := by
  obtain ⟨q, rest, rfl⟩ := List.exists_cons_of_ne_nil nonempty
  exact ⟨q, rfl, h q (List.mem_cons_self ..)⟩

mutual

theorem Expr.made_lower : ∀ (e : Expr) {t : Term}, (∀ p ∈ e.fragments, p.Admitted uniform vars) →
    e.lower table = .ok t → t.Made table uniform vars
  | .var _ x, _, _, h => by
    cases h
    exact Term.made_var _
  | .app _ f a, _, admitted, h => by
    simp only [Expr.lower, locating_eq_ok, bind_eq_ok, pure_eq_ok] at h
    obtain ⟨head, hf, arg, ha, rfl⟩ := h
    obtain ⟨left, right⟩ := List.forall_mem_append.1 admitted
    exact (Expr.made_lower f left hf).apply
      (List.forall_mem_singleton.2 (Expr.made_lower a right ha))
  | .paren _ e, _, admitted, h => by
    simp only [Expr.lower, locating_eq_ok, bind_eq_ok, pure_eq_ok] at h
    obtain ⟨inner, he, rfl⟩ := h
    exact Term.every_parens.2 ⟨.parens, Expr.made_lower e admitted he⟩
  | .ite _ rebindable c t e, _, admitted, h => by
    cases rebindable with
    | true => cases locating_eq_ok.1 h
    | false =>
      simp only [Expr.lower, locating_eq_ok, Bool.false_eq_true, if_false, bind_eq_ok,
        pure_eq_ok] at h
      obtain ⟨cond, hc, yes, ht, no, he, rfl⟩ := h
      obtain ⟨front, last⟩ := List.forall_mem_append.1 admitted
      obtain ⟨first, second⟩ := List.forall_mem_append.1 front
      exact Term.every_ite.2 ⟨.ite, ⟨Expr.made_lower c first hc, Expr.made_lower t second ht⟩,
        Expr.made_lower e last he⟩
  | .caseOf _ e alts, _, admitted, h => by
    simp only [Expr.lower, locating_eq_ok, bind_eq_ok, pure_eq_ok] at h
    obtain ⟨scrutinee, he, arms, converted, rfl⟩ := h
    obtain ⟨left, right⟩ := List.forall_mem_append.1 admitted
    have each := Equation.lowersTo_of_lowerAlternatives converted
    -- alternatives have one pattern each, with or without a premise on arities
    have single := (Equation.lowerAlternatives_succeeds table alts).1 ⟨arms, converted⟩
    have fits : ∀ ps ∈ arms.map Arm.patterns, ps.length = [scrutinee].length := by
      rw [List.forall_mem_map]
      intro arm mem
      obtain ⟨q, hq, length⟩ := Equation.LowersTo.exists_length each mem
      exact length.trans (single q hq).1
    exact Term.every_caseOf.2
      ⟨.caseOf (List.cons_ne_nil _ _) (Equation.LowersTo.patterns each) fun _ => fits,
        List.forall_mem_singleton.2 (Expr.made_lower e left he),
        Equation.made_bodies alts right each⟩
  | .literal _ l, _, _, h => (made_literal (l.lower_cases (locating_eq_ok.1 h))).1
  | .overloaded _ l, _, _, h => (made_literal (l.lower_cases (locating_eq_ok.1 h))).1
  | .letIn _ binds e, _, admitted, h => by
    simp only [Expr.lower, locating_eq_ok, bind_eq_ok, pure_eq_ok] at h
    obtain ⟨body, he, ds, converted, rfl⟩ := h
    obtain ⟨left, right⟩ := List.forall_mem_append.1 admitted
    exact Definition.made_nest (LocalBinds.made_lower binds left converted)
      (Expr.made_lower e right he)
  | .ascribed _ e sig, _, admitted, h => by
    simp only [Expr.lower, locating_eq_ok, bind_eq_ok, pure_eq_ok] at h
    obtain ⟨inner, he, type, hsig, rfl⟩ := h
    obtain ⟨first, rest⟩ := List.forall_mem_cons.1 admitted
    exact Term.every_ascribed.2
      ⟨.ascribed, Expr.made_lower e rest he, (Ty.made_lower sig first hsig).made⟩
  | .lambda _ qs, _, admitted, h => by
    simp only [Expr.lower, locating_eq_ok, bind_eq_ok, pure_eq_ok] at h
    obtain ⟨_, checked, arms, converted, rfl⟩ := h
    obtain ⟨same, inner⟩ := List.forall_mem_cons.1 admitted
    have each := Equation.lowersTo_of_lowerAll converted
    -- the equations are checked before they are converted, so the function has arguments
    have some : ∀ q ∈ qs, q.patterns ≠ [] := fun q hq =>
      (Equation.checkLambda_succeeds q).1 (succeeds_forM.1 ⟨_, checked⟩ q hq)
    have nonempty := Equation.LowersTo.argumentsFor_ne_nil each
      (exists_head ((Equation.lowerAll_succeeds table qs).1 ⟨_, converted⟩).1 some)
    exact FunctionLiteral.made_ofArms nonempty
      ⟨Equation.LowersTo.patterns each, Equation.made_bodies qs inner each⟩
      fun h => Equation.LowersTo.fits each (same h)
  | .lambdaCase _ qs, _, admitted, h => by
    simp only [Expr.lower, locating_eq_ok, bind_eq_ok, pure_eq_ok] at h
    obtain ⟨_, checked, arms, converted, rfl⟩ := h
    have each := Equation.lowersTo_of_lowerAll converted
    have single : ∀ q ∈ qs, q.patterns.length = 1 := fun q hq =>
      (Equation.checkAlternative_succeeds q).1 (succeeds_forM.1 ⟨_, checked⟩ q hq)
    have nonempty := Equation.LowersTo.argumentsFor_ne_nil each
      (exists_head ((Equation.lowerAll_succeeds table qs).1 ⟨_, converted⟩).1
        fun q hq none => by simpa [none] using single q hq)
    exact FunctionLiteral.made_ofArms nonempty
      ⟨Equation.LowersTo.patterns each, Equation.made_bodies qs admitted each⟩
      fun _ => Equation.LowersTo.fits each fun q hq r hr => (single q hq).trans (single r hr).symm
  | .tick _ _ e, _, admitted, h => Expr.made_lower e admitted (locating_eq_ok.1 h)
  | .unsupported _ _, _, _, h => by cases locating_eq_ok.1 h
  | .unknown _, _, _, h => by cases locating_eq_ok.1 h

theorem Equation.made_bodies : ∀ (qs : List Equation) {arms : List Arm},
    (∀ p ∈ Equation.fragmentsAll qs, p.Admitted uniform vars) →
      List.Forall₂ (Equation.LowersTo table) qs arms → ∀ a ∈ arms, a.body.Made table uniform vars
  | [], _, _, .nil => List.forall_mem_nil _
  | .mk pos ps rhs :: qs, .mk patterns body :: arms, admitted, .cons ⟨_, hrhs⟩ rest => by
    obtain ⟨left, right⟩ := List.forall_mem_append.1 admitted
    exact List.forall_mem_cons.2
      ⟨Rhs.made_lower rhs left hrhs, Equation.made_bodies qs right rest⟩

theorem Rhs.made_lower : ∀ (rhs : Rhs) {t : Term},
    (∀ p ∈ rhs.fragments, p.Admitted uniform vars) → rhs.lower table = .ok t →
      t.Made table uniform vars
  | .mk alts binds, _, admitted, h => by
    simp only [Rhs.lower, bind_eq_ok, pure_eq_ok] at h
    obtain ⟨_, -, body, chain, ds, converted, rfl⟩ := h
    obtain ⟨left, right⟩ := List.forall_mem_append.1 admitted
    exact Definition.made_nest (LocalBinds.made_lower binds right converted)
      (Alternative.made_lowerChain alts left chain)

theorem Alternative.made_lowerChain : ∀ (alts : List Alternative) {t : Term},
    (∀ p ∈ Alternative.fragmentsAll alts, p.Admitted uniform vars) →
      Alternative.lowerChain table alts = .ok t → t.Made table uniform vars
  | [], _, _, h => by cases h
  | .mk _ guards e :: alts, _, admitted, h => by
    obtain ⟨front, rest⟩ := List.forall_mem_append.1 admitted
    obtain ⟨left, right⟩ := List.forall_mem_append.1 front
    rw [Alternative.lowerChain] at h
    split at h
    · exact Expr.made_lower e right h
    · simp only [bind_eq_ok, pure_eq_ok] at h
      obtain ⟨conditions, hg, body, he, others, chain, rfl⟩ := h
      have condition := made_conjunction (Guard.made_lowerAll guards left hg)
      exact Term.every_ite.2 ⟨.ite, ⟨condition, Expr.made_lower e right he⟩,
        Alternative.made_lowerChain alts rest chain⟩

theorem Guard.made_lowerAll : ∀ (guards : List Guard) {cs : List Term},
    (∀ p ∈ Guard.fragmentsAll guards, p.Admitted uniform vars) →
      Guard.lowerAll table guards = .ok cs → ∀ c ∈ cs, c.Made table uniform vars
  | [], _, _, h => by
    cases h
    exact List.forall_mem_nil _
  | .bool _ e :: guards, _, admitted, h => by
    simp only [Guard.lowerAll, Guard.lower, bind_eq_ok, pure_eq_ok] at h
    obtain ⟨c, first, cs, others, rfl⟩ := h
    obtain ⟨left, right⟩ := List.forall_mem_append.1 admitted
    refine List.forall_mem_cons.2 ⟨?_, Guard.made_lowerAll guards right others⟩
    split at first
    · cases first
      exact Term.made_var _
    · exact Expr.made_lower e left first
  | .unsupported _ _ :: _, _, _, h => by
    simp only [Guard.lowerAll, Guard.lower, bind_eq_ok, locating_eq_ok] at h
    obtain ⟨_, ⟨⟩, _⟩ := h
  | .unknown _ :: _, _, _, h => by
    simp only [Guard.lowerAll, Guard.lower, bind_eq_ok, locating_eq_ok] at h
    obtain ⟨_, ⟨⟩, _⟩ := h

theorem LocalBinds.made_lower : ∀ (binds : LocalBinds) {ds : List Definition},
    (∀ p ∈ binds.fragments, p.Admitted uniform vars) → binds.lower table = .ok ds →
      ∀ d ∈ ds, d.Made table uniform vars
  | .mk _ _ bs signatures, _, admitted, h => by
    obtain ⟨signed, inner⟩ := List.forall_mem_append.1 admitted
    exact Binding.made_lowerAll bs (List.forall_mem_map.1 signed) inner (LocalBinds.lower_parts h)

theorem Binding.made_lowerAll {signatures : List (String × Ty)} :
    ∀ (bs : List Binding) {ds : List Definition},
      (∀ s ∈ signatures, (Fragment.type s.2).Admitted uniform vars) →
        (∀ p ∈ Binding.fragmentsAll bs, p.Admitted uniform vars) →
          List.Forall₂ (fun b d => b.lower table (signatures.lookup b.name) = .ok d) bs ds →
            ∀ d ∈ ds, d.Made table uniform vars
  | [], _, _, _, .nil => List.forall_mem_nil _
  | .mk pos x qs :: bs, d :: ds, signed, admitted, .cons first rest => by
    obtain ⟨front, others⟩ := List.forall_mem_append.1 admitted
    refine List.forall_mem_cons.2 ⟨?_, Binding.made_lowerAll bs signed others rest⟩
    refine Binding.made_lower (.mk pos x qs) (fun sig found => ?_) front first
    obtain ⟨before, after, place, -⟩ := List.lookup_eq_some_iff.1 (Option.mem_def.1 found)
    exact signed (x, sig) (by simp [place, Binding.name])

theorem Binding.made_lower {signature : Option Ty} : ∀ (b : Binding) {d : Definition},
    (∀ sig ∈ signature, (Fragment.type sig).Admitted uniform vars) →
      (∀ p ∈ b.fragments, p.Admitted uniform vars) → b.lower table signature = .ok d →
        d.Made table uniform vars
  | .mk pos x qs, d, signed, admitted, h => by
    obtain ⟨same, inner⟩ := List.forall_mem_cons.1 admitted
    obtain ⟨name, signature, arms, each, body⟩ := Binding.lower_parts h
    obtain ⟨names, kinds, type⟩ := lowerSignature_made signed signature
    have bodies := Equation.made_bodies qs inner each
    refine ⟨⟨x, name⟩, names, kinds, type, ?_⟩
    rcases body with rfl | ⟨first, body⟩
    · exact bodies _ (List.mem_singleton_self _)
    · rw [body]
      exact FunctionLiteral.made_recursive x (Equation.LowersTo.argumentsFor_ne_nil each first)
        ⟨Equation.LowersTo.patterns each, bodies⟩ fun h => Equation.LowersTo.fits each (same h)

end

end Parts

end Vernacular.Surface
