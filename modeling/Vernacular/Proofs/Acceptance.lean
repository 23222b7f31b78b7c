import Mathlib.Logic.Basic
import Vernacular.Proofs.Grammar
import Vernacular.Proofs.Outcome

set_option autoImplicit false

namespace Vernacular.Surface

section Succeeds

variable {α β : Type}

def Succeeds (r : Except Fault α) : Prop :=
  ∃ a, r = .ok a

theorem succeeds_ok (a : α) : Succeeds (.ok a) :=
  ⟨a, rfl⟩

theorem not_succeeds_error (f : Fault) : ¬ Succeeds (.error f : Except Fault α) := by
  rintro ⟨a, h⟩
  cases h

theorem succeeds_locating {pos : Position} {r : Except Fault α} :
    Succeeds (Fault.locating pos r) ↔ Succeeds r :=
  exists_congr fun _ => locating_eq_ok

/-- What follows a computation succeeds or fails whatever its result is. -/
theorem succeeds_bind {r : Except Fault α} {k : α → Except Fault β} {p : Prop}
    (h : ∀ a, Succeeds (k a) ↔ p) : Succeeds (r >>= k) ↔ Succeeds r ∧ p := by
  cases r with
  | ok a => exact (h a).trans ⟨fun hp => ⟨succeeds_ok a, hp⟩, fun hp => hp.2⟩
  | error f =>
    constructor
    · exact fun hr => absurd hr (not_succeeds_error f)
    · exact fun hr => absurd hr.1 (not_succeeds_error f)

theorem succeeds_last {r : Except Fault α} {k : α → β} :
    Succeeds (r >>= fun a => pure (k a)) ↔ Succeeds r := by
  have last : ∀ a, Succeeds (pure (k a) : Except Fault β) ↔ True :=
    fun a => iff_true_intro (succeeds_ok (k a))
  rw [succeeds_bind last, and_true]

theorem succeeds_map {r : Except Fault α} {k : α → β} : Succeeds (r.map k) ↔ Succeeds r :=
  succeeds_last

theorem succeeds_forM {xs : List α} {f : α → Except Fault Unit} :
    Succeeds (xs.forM f) ↔ ∀ x ∈ xs, Succeeds (f x) := by
  induction xs with
  | nil => simp [List.forM, pure, Except.pure, succeeds_ok]
  | cons x xs ih =>
    change Succeeds (f x >>= fun _ => xs.forM f) ↔ _
    rw [succeeds_bind fun _ => ih, List.forall_mem_cons]

end Succeeds

theorem succeeds_numeral {what : String} {value : Option Int} :
    Succeeds (numeral what value) ↔ ∃ n, value = some n ∧ 0 ≤ n := by
  cases value with
  | none => simp [numeral, not_succeeds_error]
  | some n =>
    by_cases negative : n < 0
    · simp only [numeral, negative, if_true, not_succeeds_error, false_iff]
      rintro ⟨_, ⟨⟩, natural⟩
      omega
    · simp only [numeral, negative, if_false, succeeds_ok, true_iff]
      exact ⟨n, rfl, by omega⟩

theorem succeeds_map_numeral {α : Type} {what : String} {value : Option Int} {f : Int → α} :
    Succeeds ((numeral what value).map f) ↔ ∃ n, value = some n ∧ 0 ≤ n :=
  succeeds_map.trans succeeds_numeral

theorem Literal.supported_int_iff {value : Option Int} :
    (Literal.int value).Supported ↔ ∃ n, value = some n ∧ 0 ≤ n :=
  ⟨fun | .int natural => ⟨_, rfl, natural⟩, fun ⟨_, given, natural⟩ => given ▸ .int natural⟩

theorem Literal.supported_integer_iff {value : Option Int} :
    (Literal.integer value).Supported ↔ ∃ n, value = some n ∧ 0 ≤ n :=
  ⟨fun | .integer natural => ⟨_, rfl, natural⟩, fun ⟨_, given, natural⟩ => given ▸ .integer natural⟩

theorem OverLiteral.supported_integral_iff {value : Option Int} :
    (OverLiteral.integral value).Supported ↔ ∃ n, value = some n ∧ 0 ≤ n :=
  ⟨fun | .integral natural => ⟨_, rfl, natural⟩,
    fun ⟨_, given, natural⟩ => given ▸ .integral natural⟩

theorem Literal.lower_succeeds (l : Literal) : Succeeds l.lower ↔ l.Supported := by
  cases l with
  | string text => exact iff_of_true (succeeds_ok _) .string
  | int value => exact succeeds_map_numeral.trans supported_int_iff.symm
  | integer value => exact succeeds_map_numeral.trans supported_integer_iff.symm
  | unsupported form => exact iff_of_false (not_succeeds_error _) nofun
  | unknown => exact iff_of_false (not_succeeds_error _) nofun

theorem Literal.lowerPattern_succeeds (l : Literal) : Succeeds l.lowerPattern ↔ l.Supported := by
  cases l with
  | string text => exact iff_of_true (succeeds_ok _) .string
  | int value => exact succeeds_map_numeral.trans supported_int_iff.symm
  | integer value => exact succeeds_map_numeral.trans supported_integer_iff.symm
  | unsupported form => exact iff_of_false (not_succeeds_error _) nofun
  | unknown => exact iff_of_false (not_succeeds_error _) nofun

theorem OverLiteral.lower_succeeds (l : OverLiteral) : Succeeds l.lower ↔ l.Supported := by
  cases l with
  | integral value => exact succeeds_map_numeral.trans supported_integral_iff.symm
  | fractional => exact iff_of_false (not_succeeds_error _) nofun
  | string text => exact iff_of_true (succeeds_ok _) .string
  | unknown => exact iff_of_false (not_succeeds_error _) nofun

theorem OverLiteral.lowerPattern_succeeds (l : OverLiteral) :
    Succeeds l.lowerPattern ↔ l.Supported := by
  cases l with
  | integral value => exact succeeds_map_numeral.trans supported_integral_iff.symm
  | fractional => exact iff_of_false (not_succeeds_error _) nofun
  | string text => exact iff_of_true (succeeds_ok _) .string
  | unknown => exact iff_of_false (not_succeeds_error _) nofun

mutual

theorem Ty.lower_succeeds (table : Table) : ∀ t : Ty, Succeeds (t.lower table) ↔ t.Supported
  | .var _ _ => iff_of_true (succeeds_ok _) .var
  | .app _ f a => by
    rw [Ty.lower, succeeds_locating, succeeds_bind fun _ => succeeds_last,
      Ty.lower_succeeds table f, Ty.lower_succeeds table a]
    exact ⟨fun ⟨head, arg⟩ => .app head arg, fun | .app head arg => ⟨head, arg⟩⟩
  | .arrow _ a r => by
    rw [Ty.lower, succeeds_locating, succeeds_bind fun _ => succeeds_last,
      Ty.lower_succeeds table a, Ty.lower_succeeds table r]
    exact ⟨fun ⟨arg, result⟩ => .arrow arg result, fun | .arrow arg result => ⟨arg, result⟩⟩
  | .paren _ t => by
    rw [Ty.lower, succeeds_locating, succeeds_last, Ty.lower_succeeds table t]
    exact ⟨.paren, fun | .paren inner => inner⟩
  | .kinded _ t k => by
    rw [Ty.lower, succeeds_locating, succeeds_bind fun _ => succeeds_last,
      Ty.lower_succeeds table t, Ty.lower_succeeds table k]
    exact ⟨fun ⟨type, kind⟩ => .kinded type kind, fun | .kinded type kind => ⟨type, kind⟩⟩
  | .number _ n => by
    rw [Ty.lower, succeeds_locating, n.lower_succeeds]
    exact ⟨.number, fun | .number value => value⟩
  | .text _ _ => iff_of_true (succeeds_ok _) .text
  | .wildcard _ => iff_of_true (succeeds_ok _) .wildcard
  | .list _ e => by
    rw [Ty.lower, succeeds_locating, succeeds_last, Ty.lower_succeeds table e]
    exact ⟨.list, fun | .list elem => elem⟩
  | .tuple _ sort ts => by
    cases sort with
    | boxed =>
      rw [Ty.lower, succeeds_locating, succeeds_last, Ty.lowerAll_succeeds table ts]
      exact ⟨.tuple, fun | .tuple elems => elems⟩
    | unboxed => exact succeeds_locating.trans (iff_of_false (not_succeeds_error _) nofun)
    | constraint => exact succeeds_locating.trans (iff_of_false (not_succeeds_error _) nofun)
  | .quantified _ implicit vs t => by
    have rest : ∀ body, Succeeds (do
        if implicit && vs.isEmpty then
          return generalize table body
        else
          let binders ← TyVar.lowerAll table vs
          return .forAll binders body : Except Fault Term) ↔ ∀ v ∈ vs, v.Supported := by
      intro body
      by_cases none : implicit && vs.isEmpty
      · have empty : vs = [] := by simp_all
        rw [if_pos none]
        exact iff_of_true (succeeds_ok _) (by simp [empty])
      · rw [if_neg none, succeeds_last, TyVar.lowerAll_succeeds table vs]
    rw [Ty.lower, succeeds_locating, succeeds_bind rest, Ty.lower_succeeds table t]
    exact ⟨fun ⟨body, vars⟩ => .quantified vars body, fun | .quantified vars body => ⟨body, vars⟩⟩
  | .strict _ t => by
    rw [Ty.lower, succeeds_locating, Ty.lower_succeeds table t]
    exact ⟨.strict, fun | .strict inner => inner⟩
  | .unsupported _ _ => by
    rw [Ty.lower, succeeds_locating]
    exact iff_of_false (not_succeeds_error _) nofun
  | .unknown _ => by
    rw [Ty.lower, succeeds_locating]
    exact iff_of_false (not_succeeds_error _) nofun

theorem Ty.lowerAll_succeeds (table : Table) :
    ∀ ts : List Ty, Succeeds (Ty.lowerAll table ts) ↔ ∀ t ∈ ts, t.Supported
  | [] => iff_of_true (succeeds_ok _) (List.forall_mem_nil _)
  | t :: ts => by
    rw [Ty.lowerAll, succeeds_bind fun _ => succeeds_last, Ty.lower_succeeds table t,
      Ty.lowerAll_succeeds table ts, List.forall_mem_cons]

theorem TyVar.lowerAll_succeeds (table : Table) :
    ∀ vs : List TyVar, Succeeds (TyVar.lowerAll table vs) ↔ ∀ v ∈ vs, v.Supported
  | [] => iff_of_true (succeeds_ok _) (List.forall_mem_nil _)
  | .mk x none :: vs => by
    rw [TyVar.lowerAll, succeeds_last, TyVar.lowerAll_succeeds table vs, List.forall_mem_cons]
    exact ⟨fun rest => ⟨.plain, rest⟩, fun h => h.2⟩
  | .mk x (some k) :: vs => by
    rw [TyVar.lowerAll, succeeds_bind fun _ => succeeds_last, Ty.lower_succeeds table k,
      TyVar.lowerAll_succeeds table vs, List.forall_mem_cons]
    exact and_congr_left fun _ => ⟨.kinded, fun | .kinded kind => kind⟩

end

mutual

theorem Pattern.lower_succeeds (table : Table) :
    ∀ p : Pattern, Succeeds (p.lower table) ↔ p.Supported
  | .wild _ => iff_of_true (succeeds_ok _) .wild
  | .var _ _ => iff_of_true (succeeds_ok _) .var
  | .paren _ p => by
    rw [Pattern.lower, succeeds_locating, Pattern.lower_succeeds table p]
    exact ⟨.paren, fun | .paren inner => inner⟩
  | .strict _ p => by
    rw [Pattern.lower, succeeds_locating, Pattern.lower_succeeds table p]
    exact ⟨.strict, fun | .strict inner => inner⟩
  | .named _ x p => by
    rw [Pattern.lower, succeeds_locating, succeeds_last, Pattern.lower_succeeds table p]
    exact ⟨.named, fun | .named inner => inner⟩
  | .con _ c style ps => by
    cases style with
    | ordinary =>
      rw [Pattern.lower, succeeds_locating, succeeds_last, Pattern.lowerAll_succeeds table ps]
      exact ⟨.con, fun | .con args => args⟩
    | between => exact succeeds_locating.trans (iff_of_false (not_succeeds_error _) nofun)
    | record => exact succeeds_locating.trans (iff_of_false (not_succeeds_error _) nofun)
  | .literal _ l => by
    rw [Pattern.lower, succeeds_locating, l.lowerPattern_succeeds]
    exact ⟨.literal, fun | .literal value => value⟩
  | .overloaded _ negated l => by
    rw [Pattern.lower, succeeds_locating]
    cases negated with
    | true => exact iff_of_false (not_succeeds_error _) nofun
    | false => exact l.lowerPattern_succeeds.trans ⟨.overloaded, fun | .overloaded value => value⟩
  | .unsupported _ _ => by
    rw [Pattern.lower, succeeds_locating]
    exact iff_of_false (not_succeeds_error _) nofun
  | .unknown _ => by
    rw [Pattern.lower, succeeds_locating]
    exact iff_of_false (not_succeeds_error _) nofun

theorem Pattern.lowerAll_succeeds (table : Table) :
    ∀ ps : List Pattern, Succeeds (Pattern.lowerAll table ps) ↔ ∀ p ∈ ps, p.Supported
  | [] => iff_of_true (succeeds_ok _) (List.forall_mem_nil _)
  | p :: ps => by
    rw [Pattern.lowerAll, succeeds_bind fun _ => succeeds_last, Pattern.lower_succeeds table p,
      Pattern.lowerAll_succeeds table ps, List.forall_mem_cons]

end

theorem lowerSignature_succeeds (table : Table) (signature : Option Ty) :
    Succeeds (lowerSignature table signature) ↔ ∀ sig, signature = some sig → sig.Supported := by
  cases signature with
  | none => exact iff_of_true (succeeds_ok _) nofun
  | some sig =>
    rw [lowerSignature, succeeds_last, sig.lower_succeeds table]
    exact ⟨fun h _ given => Option.some.inj given ▸ h, fun h => h sig rfl⟩

theorem Expr.supported_of_isTrueMarker : ∀ {e : Expr}, e.isTrueMarker → e.Supported
  | .var _ _, _ => .var
  | .paren _ _, h => .paren (supported_of_isTrueMarker h)
  | .tick _ _ _, h => .tick (supported_of_isTrueMarker h)

theorem Guard.supported_of_isTrueMarker : ∀ {guard : Guard}, guard.isTrueMarker → guard.Supported
  | .bool _ _, h => .bool (Expr.supported_of_isTrueMarker h)

theorem Guard.check_of_supported : ∀ {guard : Guard}, guard.Supported → Succeeds guard.check
  | .bool _ _, _ => succeeds_ok ()

theorem Equation.checkAlternative_succeeds (q : Equation) :
    Succeeds q.checkAlternative ↔ q.patterns.length = 1 := by
  unfold checkAlternative
  split
  · rename_i none
    exact succeeds_locating.trans (iff_of_false (not_succeeds_error _) (by simp [none]))
  · rename_i one
    exact iff_of_true (succeeds_ok _) (by simp [one])
  · rename_i h k
    refine succeeds_locating.trans (iff_of_false (not_succeeds_error _) fun single => ?_)
    obtain ⟨p, one⟩ := List.length_eq_one_iff.1 single
    exact k p one

theorem Equation.checkLambda_succeeds (q : Equation) :
    Succeeds q.checkLambda ↔ q.patterns ≠ [] := by
  unfold checkLambda
  split
  · rename_i none
    exact succeeds_locating.trans (iff_of_false (not_succeeds_error _) (by simp [none]))
  · rename_i some
    exact iff_of_true (succeeds_ok _) some

theorem Alternative.checkAll_succeeds (front : List Alternative) (last : Alternative) :
    Succeeds (checkAll (front ++ [last])) ↔
      (∀ a ∈ front ++ [last], ∀ guard ∈ a.guards, Succeeds guard.check) ∧
        ∀ guard ∈ last.guards, guard.isTrueMarker := by
  obtain ⟨pos, guards, body⟩ := last
  have final : Succeeds (if guards.all Guard.isTrueMarker then pure ()
      else Fault.locating pos (throw (.malformed .incompleteGuards)) : Except Fault Unit) ↔
      ∀ guard ∈ guards, guard.isTrueMarker := by
    by_cases all : guards.all Guard.isTrueMarker
    · rw [if_pos all]
      exact iff_of_true (succeeds_ok _) (List.all_eq_true.1 all)
    · rw [if_neg all, succeeds_locating]
      exact iff_of_false (not_succeeds_error _) fun h => all (List.all_eq_true.2 h)
  rw [checkAll, succeeds_bind (p := ∀ guard ∈ guards, guard.isTrueMarker), succeeds_forM]
  · refine and_congr_left fun _ => forall₂_congr fun a _ => ?_
    obtain ⟨place, conditions, value⟩ := a
    exact succeeds_forM
  · intro _
    rw [List.getLast?_concat]
    exact final

theorem Alternative.supported_of_markers :
    ∀ {a : Alternative}, (∀ guard ∈ a.guards, guard.isTrueMarker) → a.body.Supported → a.Supported
  | .mk _ _ _, markers, body =>
    .mk (fun guard h => Guard.supported_of_isTrueMarker (markers guard h)) body

theorem Alternative.checks_of_supported :
    ∀ {a : Alternative}, a.Supported → ∀ guard ∈ a.guards, Succeeds guard.check
  | .mk _ _ _, .mk conditions _, guard, h => Guard.check_of_supported (conditions guard h)

theorem Alternative.body_supported : ∀ {a : Alternative}, a.Supported → a.body.Supported
  | .mk _ _ _, .mk _ body => body

mutual

theorem Expr.lower_succeeds (table : Table) : ∀ e : Expr, Succeeds (e.lower table) ↔ e.Supported
  | .var _ _ => iff_of_true (succeeds_ok _) .var
  | .app _ f a => by
    rw [Expr.lower, succeeds_locating, succeeds_bind fun _ => succeeds_last,
      Expr.lower_succeeds table f, Expr.lower_succeeds table a]
    exact ⟨fun ⟨head, arg⟩ => .app head arg, fun | .app head arg => ⟨head, arg⟩⟩
  | .paren _ e => by
    rw [Expr.lower, succeeds_locating, succeeds_last, Expr.lower_succeeds table e]
    exact ⟨.paren, fun | .paren inner => inner⟩
  | .ite _ rebindable c t e => by
    rw [Expr.lower, succeeds_locating]
    cases rebindable with
    | true => exact iff_of_false (not_succeeds_error _) nofun
    | false =>
      rw [if_neg Bool.false_ne_true,
        succeeds_bind fun _ => succeeds_bind fun _ => succeeds_last, Expr.lower_succeeds table c,
        Expr.lower_succeeds table t, Expr.lower_succeeds table e]
      exact ⟨fun ⟨cond, yes, no⟩ => .ite cond yes no, fun | .ite cond yes no => ⟨cond, yes, no⟩⟩
  | .caseOf _ e alts => by
    rw [Expr.lower, succeeds_locating, succeeds_bind fun _ => succeeds_last,
      Expr.lower_succeeds table e, Equation.lowerAlternatives_succeeds table alts]
    constructor
    · rintro ⟨scrutinee, alternatives⟩
      exact .caseOf scrutinee (fun q hq => (alternatives q hq).1) fun q hq => (alternatives q hq).2
    · intro h
      cases h with
      | caseOf scrutinee single alternatives =>
        exact ⟨scrutinee, fun q hq => ⟨single q hq, alternatives q hq⟩⟩
  | .literal _ l => by
    rw [Expr.lower, succeeds_locating, l.lower_succeeds]
    exact ⟨.literal, fun | .literal value => value⟩
  | .overloaded _ l => by
    rw [Expr.lower, succeeds_locating, l.lower_succeeds]
    exact ⟨.overloaded, fun | .overloaded value => value⟩
  | .letIn _ binds e => by
    rw [Expr.lower, succeeds_locating, succeeds_bind fun _ => succeeds_last,
      Expr.lower_succeeds table e, LocalBinds.lower_succeeds table binds]
    exact ⟨fun ⟨body, group⟩ => .letIn group body, fun | .letIn group body => ⟨body, group⟩⟩
  | .ascribed _ e sig => by
    rw [Expr.lower, succeeds_locating, succeeds_bind fun _ => succeeds_last,
      Expr.lower_succeeds table e, sig.lower_succeeds table]
    exact ⟨fun ⟨inner, type⟩ => .ascribed inner type, fun | .ascribed inner type => ⟨inner, type⟩⟩
  | .lambda _ qs => by
    rw [Expr.lower, succeeds_locating, succeeds_bind fun _ => succeeds_last, succeeds_forM,
      Equation.lowerAll_succeeds table qs]
    simp only [Equation.checkLambda_succeeds]
    exact ⟨fun ⟨patterns, nonempty, equations⟩ => .lambda nonempty patterns equations,
      fun | .lambda nonempty patterns equations => ⟨patterns, nonempty, equations⟩⟩
  | .lambdaCase _ qs => by
    rw [Expr.lower, succeeds_locating, succeeds_bind fun _ => succeeds_last, succeeds_forM,
      Equation.lowerAll_succeeds table qs]
    simp only [Equation.checkAlternative_succeeds]
    exact ⟨fun ⟨single, nonempty, alternatives⟩ => .lambdaCase nonempty single alternatives,
      fun | .lambdaCase nonempty single alternatives => ⟨single, nonempty, alternatives⟩⟩
  | .tick _ _ e => by
    rw [Expr.lower, succeeds_locating, Expr.lower_succeeds table e]
    exact ⟨.tick, fun | .tick inner => inner⟩
  | .unsupported _ _ => by
    rw [Expr.lower, succeeds_locating]
    exact iff_of_false (not_succeeds_error _) nofun
  | .unknown _ => by
    rw [Expr.lower, succeeds_locating]
    exact iff_of_false (not_succeeds_error _) nofun

theorem Equation.lowerAlternatives_succeeds (table : Table) :
    ∀ qs : List Equation, Succeeds (Equation.lowerAlternatives table qs) ↔
      ∀ q ∈ qs, q.patterns.length = 1 ∧ q.Supported
  | [] => iff_of_true (succeeds_ok _) (List.forall_mem_nil _)
  | .mk pos ps rhs :: qs => by
    rw [Equation.lowerAlternatives,
      succeeds_bind fun _ => succeeds_bind fun _ => succeeds_bind fun _ => succeeds_last,
      Equation.checkAlternative_succeeds, Pattern.lowerAll_succeeds, Rhs.lower_succeeds table rhs,
      Equation.lowerAlternatives_succeeds table qs, List.forall_mem_cons]
    exact ⟨fun ⟨single, patterns, right, rest⟩ => ⟨⟨single, .mk patterns right⟩, rest⟩,
      fun | ⟨⟨single, .mk patterns right⟩, rest⟩ => ⟨single, patterns, right, rest⟩⟩

theorem Equation.lowerAll_succeeds (table : Table) :
    ∀ qs : List Equation, Succeeds (Equation.lowerAll table qs) ↔ qs ≠ [] ∧ ∀ q ∈ qs, q.Supported
  | [] => iff_of_false (not_succeeds_error _) (by simp)
  | .mk pos ps rhs :: qs => by
    have rest : ∀ patterns body, Succeeds (do
        if qs.isEmpty then
          return [.mk patterns body]
        else
          let arms ← Equation.lowerAll table qs
          return .mk patterns body :: arms : Except Fault (List Arm)) ↔ ∀ q ∈ qs, q.Supported := by
      intro patterns body
      cases qs with
      | nil => exact iff_of_true (succeeds_ok _) (List.forall_mem_nil _)
      | cons q qs =>
        rw [if_neg (by simp), succeeds_last, Equation.lowerAll_succeeds table (q :: qs)]
        exact and_iff_right (List.cons_ne_nil q qs)
    rw [Equation.lowerAll,
      succeeds_bind fun patterns => succeeds_bind fun body => rest patterns body, succeeds_locating,
      Pattern.lowerAll_succeeds, Rhs.lower_succeeds table rhs,
      List.forall_mem_cons]
    exact ⟨fun ⟨patterns, right, rest⟩ => ⟨List.cons_ne_nil _ _, .mk patterns right, rest⟩,
      fun | ⟨_, .mk patterns right, rest⟩ => ⟨patterns, right, rest⟩⟩

theorem Rhs.lower_succeeds (table : Table) : ∀ rhs : Rhs, Succeeds (rhs.lower table) ↔ rhs.Supported
  | .mk alts binds => by
    rw [Rhs.lower, succeeds_bind fun _ => succeeds_bind fun _ => succeeds_last,
      Alternative.lowerChain_succeeds table alts, LocalBinds.lower_succeeds table binds]
    constructor
    · rintro ⟨checked, ⟨front, last, rfl, conditions, body⟩, group⟩
      have total := ((Alternative.checkAll_succeeds front last).1 checked).2
      refine .mk (fun a ha => ?_) total group
      rcases List.mem_append.1 ha with ha | ha
      · exact conditions a ha
      · rw [List.mem_singleton.1 ha]
        exact Alternative.supported_of_markers total body
    · rintro (⟨alternatives, total, group⟩)
      rename_i front last
      have checked := fun a ha => Alternative.checks_of_supported (alternatives a ha)
      refine ⟨(Alternative.checkAll_succeeds front last).2 ⟨checked, total⟩, ?_, group⟩
      exact ⟨front, last, rfl, fun a ha => alternatives a (List.mem_append_left _ ha),
        Alternative.body_supported (alternatives last (by simp))⟩

theorem Alternative.lowerChain_succeeds (table : Table) :
    ∀ alts : List Alternative, Succeeds (Alternative.lowerChain table alts) ↔
      ∃ front last, alts = front ++ [last] ∧ (∀ a ∈ front, a.Supported) ∧ last.body.Supported
  | [] => iff_of_false (not_succeeds_error _) (by simp)
  | [.mk pos guards e] => by
    rw [Alternative.lowerChain, if_pos List.isEmpty_nil, Expr.lower_succeeds table e]
    constructor
    · exact fun body => ⟨[], .mk pos guards e, rfl, List.forall_mem_nil _, body⟩
    · rintro ⟨front, last, split, -, body⟩
      cases front with
      | nil =>
        obtain rfl : Alternative.mk pos guards e = last := by simpa using split
        exact body
      | cons a front => simp at split
  | .mk pos guards e :: b :: alts => by
    rw [Alternative.lowerChain, if_neg (by simp),
      succeeds_bind fun _ => succeeds_bind fun _ => succeeds_last,
      Guard.lowerAll_succeeds table guards, Expr.lower_succeeds table e,
      Alternative.lowerChain_succeeds table (b :: alts)]
    constructor
    · rintro ⟨conditions, body, front, last, split, others, final⟩
      refine ⟨.mk pos guards e :: front, last, by rw [split, List.cons_append], ?_, final⟩
      exact List.forall_mem_cons.2 ⟨.mk conditions body, others⟩
    · rintro ⟨front, last, split, others, final⟩
      cases front with
      | nil => simp at split
      | cons a front =>
        obtain ⟨rfl, rest⟩ := List.cons.inj split
        obtain ⟨first, others⟩ := List.forall_mem_cons.1 others
        cases first with
        | mk conditions body => exact ⟨conditions, body, front, last, rest, others, final⟩

theorem Guard.lower_succeeds (table : Table) :
    ∀ guard : Guard, Succeeds (guard.lower table) ↔ guard.Supported
  | .bool pos e => by
    rw [Guard.lower]
    by_cases marker : e.isTrueMarker
    · rw [if_pos marker]
      exact iff_of_true (succeeds_ok _) (.bool (Expr.supported_of_isTrueMarker marker))
    · rw [if_neg marker, Expr.lower_succeeds table e]
      exact ⟨.bool, fun | .bool cond => cond⟩
  | .unsupported pos form => by
    rw [Guard.lower, succeeds_locating]
    exact iff_of_false (not_succeeds_error _) nofun
  | .unknown pos => by
    rw [Guard.lower, succeeds_locating]
    exact iff_of_false (not_succeeds_error _) nofun

theorem Guard.lowerAll_succeeds (table : Table) :
    ∀ guards : List Guard,
      Succeeds (Guard.lowerAll table guards) ↔ ∀ guard ∈ guards, guard.Supported
  | [] => iff_of_true (succeeds_ok _) (List.forall_mem_nil _)
  | guard :: guards => by
    rw [Guard.lowerAll, succeeds_bind fun _ => succeeds_last, Guard.lower_succeeds table guard,
      Guard.lowerAll_succeeds table guards, List.forall_mem_cons]

theorem LocalBinds.lower_succeeds (table : Table) :
    ∀ binds : LocalBinds, Succeeds (binds.lower table) ↔ binds.Supported
  | .mk pos true bindings signatures => by
    rw [LocalBinds.lower, if_pos rfl, succeeds_locating]
    exact iff_of_false (not_succeeds_error _) nofun
  | .mk pos false bindings signatures => by
    rw [LocalBinds.lower, if_neg Bool.false_ne_true,
      Binding.lowerAll_succeeds table signatures bindings]
    exact ⟨fun h => .mk (fun b hb => (h b hb).2) fun b hb => (h b hb).1,
      fun | .mk members signed => fun b hb => ⟨signed b hb, members b hb⟩⟩

theorem Binding.lowerAll_succeeds (table : Table) (signatures : List (String × Ty)) :
    ∀ bs : List Binding, Succeeds (Binding.lowerAll table signatures bs) ↔
      ∀ b ∈ bs, (∀ sig, signatures.lookup b.name = some sig → sig.Supported) ∧ b.Supported
  | [] => iff_of_true (succeeds_ok _) (List.forall_mem_nil _)
  | .mk pos x eqs :: bs => by
    rw [Binding.lowerAll, succeeds_bind fun _ => succeeds_last,
      Binding.lower_succeeds table _ (.mk pos x eqs), Binding.lowerAll_succeeds table signatures bs,
      List.forall_mem_cons]
    rfl

theorem Binding.lower_succeeds (table : Table) (signature : Option Ty) :
    ∀ b : Binding, Succeeds (b.lower table signature) ↔
      (∀ sig, signature = some sig → sig.Supported) ∧ b.Supported
  | .mk pos x [] => by
    rw [Binding.lower, succeeds_locating, succeeds_bind fun _ => succeeds_last]
    exact iff_of_false (fun h => not_succeeds_error _ h.2) fun h => nomatch h.2
  | .mk pos x [.mk place [] rhs] => by
    rw [Binding.lower, succeeds_locating, succeeds_bind fun _ => succeeds_last,
      lowerSignature_succeeds, Rhs.lower_succeeds table rhs]
    exact and_congr_right fun _ => ⟨.value, fun
      | .value right => right
      | .function patterns _ => absurd rfl patterns⟩
  | .mk pos x (.mk place [] rhs :: q :: qs) => by
    rw [Binding.lower, succeeds_locating, succeeds_bind fun _ => succeeds_last]
    · refine iff_of_false (fun ⟨_, body⟩ => ?_) fun
        | ⟨_, .function patterns _⟩ => patterns rfl
      split at body
      · exact not_succeeds_error _ body
      · exact not_succeeds_error _ body
    · nofun
  | .mk pos x (.mk place (p :: ps) rhs :: qs) => by
    rw [Binding.lower, succeeds_locating, succeeds_bind fun _ => succeeds_last,
      lowerSignature_succeeds]
    · rw [if_neg (by simp [Equation.patterns]), if_neg (by simp [Equation.patterns]), succeeds_map,
        Equation.lowerAll_succeeds table (.mk place (p :: ps) rhs :: qs)]
      refine and_congr_right fun _ => ⟨fun ⟨_, equations⟩ => ?_, fun
        | .function _ equations => ⟨List.cons_ne_nil _ _, equations⟩⟩
      exact .function (List.cons_ne_nil p ps) equations
    · nofun

end

/-- Over every table, the expressions that have a target term are those of the grammar, whose
patterns and types are in turn the ones that conversion accepts. -/
theorem lower_accepts_supported (table : Table) :
    (∀ e : Expr, (∃ t, e.lower table = .ok t) ↔ e.Supported) ∧
      (∀ p : Pattern, (∃ q, p.lower table = .ok q) ↔ p.Supported) ∧
        ∀ t : Ty, (∃ u, t.lower table = .ok u) ↔ t.Supported :=
  ⟨Expr.lower_succeeds table, Pattern.lower_succeeds table, Ty.lower_succeeds table⟩

end Vernacular.Surface
