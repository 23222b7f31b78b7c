import Vernacular.Proofs.Acceptance
import Vernacular.Proofs.Exposure
import Vernacular.Proofs.Outcome

set_option autoImplicit false

namespace Vernacular

/-- What conditions are worth: any truth value for each term that respects the constant `true` and
conjunction. -/
structure Valuation where
  value : Term → Bool
  value_true : value (.var "true") = true
  value_and : ∀ a b, value (.app (.var "andb") [a, b]) = (value a && value b)

/-- The value of a condition in which the names of a list hold and all others do not. -/
def Term.valueAmong (names : List String) : Term → Bool
  | .var x => x = "true" || names.contains x
  | .app (.var f) [a, b] => f = "andb" && (a.valueAmong names && b.valueAmong names)
  | .parens t => t.valueAmong names
  | _ => false

def Valuation.among (names : List String) : Valuation where
  value := Term.valueAmong names
  value_true := rfl
  value_and _ _ := rfl

/-- Where a chain of at most `n` conditionals leads if its conditions are worth what `value`
says. -/
def Term.follow (value : Term → Bool) : Nat → Term → Term
  | n + 1, .ite c t u => if value c then t else u.follow value n
  | _, t => t

theorem Term.follow_ite (value : Term → Bool) (n : Nat) (c t u : Term) :
    (Term.ite c t u).follow value (n + 1) = if value c then t else u.follow value n :=
  rfl

namespace Surface

section Guards

variable {table : Table} {v : Valuation}

theorem value_foldl_and (c : Term) (cs : List Term) :
    v.value (cs.foldl (fun front d => .app (.var "andb") [front, d]) c) =
      (v.value c && cs.all v.value) := by
  induction cs generalizing c with
  | nil => rw [List.foldl_nil, List.all_nil, Bool.and_true]
  | cons d cs ih => rw [List.foldl_cons, ih, v.value_and, List.all_cons, Bool.and_assoc]

theorem value_conjunction (cs : List Term) : v.value (conjunction cs) = cs.all v.value := by
  cases cs with
  | nil => exact v.value_true
  | cons c cs => exact value_foldl_and c cs

def Guard.holds (table : Table) (v : Valuation) : Guard → Bool
  | .bool _ e => e.isTrueMarker || (e.lower table).toOption.any v.value
  | _ => false

def Alternative.isTaken (table : Table) (v : Valuation) (a : Alternative) : Bool :=
  a.guards.all (·.holds table v)

theorem Guard.holds_of_isTrueMarker {guard : Guard} (h : guard.isTrueMarker) :
    guard.holds table v := by
  cases guard with
  | bool pos e => exact Bool.or_eq_true_iff.2 (.inl h)
  | unsupported | unknown => cases h

theorem Guard.value_of_lower {guard : Guard} {c : Term} (h : guard.lower table = .ok c) :
    v.value c = guard.holds table v := by
  cases guard with
  | bool pos e =>
    rw [Guard.lower] at h
    rw [Guard.holds]
    by_cases marker : e.isTrueMarker
    · rw [if_pos marker] at h
      cases h
      rw [marker, Bool.true_or, v.value_true]
    · rw [if_neg marker] at h
      rw [h, eq_false_of_ne_true marker, Bool.false_or]
      rfl
  | unsupported pos form | unknown pos =>
    rw [Guard.lower, locating_eq_ok] at h
    cases h

theorem Guard.all_value_of_lowerAll {guards : List Guard} {cs : List Term}
    (h : Guard.lowerAll table guards = .ok cs) :
    cs.all v.value = guards.all (·.holds table v) := by
  induction guards generalizing cs with
  | nil =>
    cases h
    rfl
  | cons guard guards ih =>
    simp only [Guard.lowerAll, bind_eq_ok, pure_eq_ok] at h
    obtain ⟨c, first, rest, others, rfl⟩ := h
    rw [List.all_cons, List.all_cons, Guard.value_of_lower first, ih others]

/-- The condition of an alternative in the chain is worth whether the alternative is taken. -/
theorem Alternative.value_condition {a : Alternative} {cs : List Term}
    (h : Guard.lowerAll table a.guards = .ok cs) :
    v.value (conjunction cs) = a.isTaken table v :=
  (value_conjunction cs).trans (Guard.all_value_of_lowerAll h)

/-- A chain over alternatives of which the last is taken leads to the first one that is. -/
theorem Alternative.follow_lowerChain :
    ∀ {alts : List Alternative} {t : Term}, Alternative.lowerChain table alts = .ok t →
      (∀ a ∈ alts.getLast?, a.isTaken table v) →
        ∃ a, alts.find? (·.isTaken table v) = some a ∧
          a.body.lower table = .ok (t.follow v.value (alts.length - 1))
  | [.mk pos guards e], t, h, last => by
    have taken := last _ rfl
    exact ⟨_, List.find?_cons_of_pos taken, h⟩
  | .mk pos guards e :: b :: alts, t, h, last => by
    rw [Alternative.lowerChain, if_neg (by simp)] at h
    simp only [bind_eq_ok, pure_eq_ok] at h
    obtain ⟨cs, conditions, body, converted, others, rest, rfl⟩ := h
    have condition : v.value (conjunction cs) = (mk pos guards e).isTaken table v :=
      Alternative.value_condition conditions
    rw [List.length_cons, List.length_cons, Nat.add_sub_cancel, Term.follow_ite, condition]
    by_cases taken : (mk pos guards e).isTaken table v
    · rw [if_pos taken]
      exact ⟨_, List.find?_cons_of_pos taken, converted⟩
    · rw [if_neg taken, List.find?_cons_of_neg taken]
      exact Alternative.follow_lowerChain rest last

theorem Alternative.last_isTaken {alts : List Alternative} (h : Succeeds (checkAll alts)) :
    ∀ a ∈ alts.getLast?, a.isTaken table v := by
  intro a listed
  obtain ⟨front, rfl⟩ := List.getLast?_eq_some_iff.1 listed
  have markers := ((checkAll_succeeds front a).1 h).2
  exact List.all_eq_true.2 fun guard hg => Guard.holds_of_isTrueMarker (markers guard hg)

end Guards

/-- A right-hand side is its chain of conditionals inside its local bindings, and the chain itself
where there are none. Whatever its conditions are worth, there is a first alternative whose guards
all hold, and the chain leads to the body of that one. -/
theorem chain_takes_first (table : Table) (alts : List Alternative) (binds : LocalBinds) (t : Term)
    (converted : (Rhs.mk alts binds).lower table = .ok t) :
    ∃ chain ds, (Rhs.mk alts .none).lower table = .ok chain ∧ binds.lower table = .ok ds ∧
      t = ds.foldr Definition.letIn chain ∧ (binds.names = [] → t = chain) ∧
      ∀ v : Valuation, ∃ a, alts.find? (·.isTaken table v) = some a ∧
        a.body.lower table = .ok (chain.follow v.value (alts.length - 1)) := by
  simp only [Rhs.lower, bind_eq_ok, pure_eq_ok] at converted
  obtain ⟨⟨⟩, checked, chain, lowered, ds, group, rfl⟩ := converted
  refine ⟨chain, ds, ?_, group, rfl, ?_, fun v => ?_⟩
  · rw [Rhs.lower, checked, lowered]
    rfl
  · intro empty
    obtain ⟨pos, implicitParams, bs, signatures⟩ := binds
    obtain rfl : bs = [] := List.map_eq_nil_iff.1 empty
    cases LocalBinds.lower_parts group
    rfl
  · exact Alternative.follow_lowerChain lowered (Alternative.last_isTaken ⟨_, checked⟩)

/-- A right-hand side with a conjunction, a guard that holds by its form in front of the last, and a
local binding. -/
def guardedSize : Rhs :=
  .mk
    [.mk {} [.bool {} (.var {} "small"), .bool {} (.paren {} (.var {} "round"))] (.var {} "one"),
      .mk {} [.bool {} (.var {} "True"), .bool {} (.var {} "small")] (.var {} "two"),
      .mk {} [] (.var {} "three"),
      .mk {} [.bool {} (.tick {} "last" (.var {} "otherwise"))] (.var {} "four")]
    (.mk {} false [.mk {} "two" [.mk {} [] (.mk [.mk {} [] (.var {} "size")] .none)]] [])

theorem guardedSize_takes_first :
    ∃ t chain, guardedSize.lower .initial = .ok t ∧
      t = .letIn "two" [] none (.var "size") chain ∧
      chain.print = "if andb small (round) then one else if andb true small then two else " ++
        "if true then three else four" ∧
      chain.follow (Valuation.among ["small", "round"]).value 3 = .var "one" ∧
      chain.follow (Valuation.among ["small"]).value 3 = .var "two" ∧
      chain.follow (Valuation.among ["round"]).value 3 = .var "three" := by
  obtain ⟨chain, ds, lowered, group, nest, -, first⟩ :=
    chain_takes_first .initial _ _ _ (rfl : guardedSize.lower .initial = .ok _)
  cases group
  refine ⟨_, chain, rfl, nest, ?_, ?_, ?_, ?_⟩
  · cases lowered
    rfl
  · obtain ⟨a, found, body⟩ := first (.among ["small", "round"])
    cases found
    exact (Except.ok.inj body).symm
  · obtain ⟨a, found, body⟩ := first (.among ["small"])
    cases found
    exact (Except.ok.inj body).symm
  · obtain ⟨a, found, body⟩ := first (.among ["round"])
    cases found
    exact (Except.ok.inj body).symm

end Surface

end Vernacular
