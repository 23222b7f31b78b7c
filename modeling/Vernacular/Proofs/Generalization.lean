import Vernacular.Proofs.FreeNames
import Vernacular.Proofs.TypeConversion

set_option autoImplicit false

namespace Vernacular

theorem Identifier.pairwise_sorted (names : List String) : (sorted names).Pairwise (· < ·) := by
  have ordered : (sorted names).Pairwise (compare · · = .lt) := Std.TreeSet.ordered_toList
  exact ordered.imp compareOfLessAndEq_eq_lt.1

namespace Surface

variable {table : Table} {ty : Term} {x : String}

theorem mem_generalized :
    x ∈ generalized table ty ↔
      x ∈ ty.free ∧ isVariableName x = true ∧ table.isTypeTarget x = false := by
  rw [generalized, List.mem_filter, Identifier.mem_sorted, Bool.and_eq_true, Bool.not_eq_true',
    and_comm (a := table.isTypeTarget x = false)]

theorem generalize_of_bound (h : generalized table ty = []) : generalize table ty = ty := by
  rw [generalize, h]
  rfl

theorem generalize_of_unbound (h : generalized table ty ≠ []) :
    generalize table ty = .pi ((generalized table ty).map fun x => .mk x none true) ty := by
  rw [generalize, Term.forAll, if_neg]
  simpa using h

theorem mem_free_generalize :
    x ∈ (generalize table ty).free ↔ x ∈ ty.free ∧ x ∉ generalized table ty := by
  by_cases h : generalized table ty = []
  · simp [generalize_of_bound h, h]
  · rw [generalize_of_unbound h, Term.free, Term.mem_freeUnder_untyped (by simp [Binder.type])]
    simp [Function.comp_def, Binder.name]

theorem generalized_generalize : generalized table (generalize table ty) = [] := by
  rw [List.eq_nil_iff_forall_not_mem]
  intro x again
  obtain ⟨free, looks⟩ := mem_generalized.1 again
  obtain ⟨inside, unbound⟩ := mem_free_generalize.1 free
  exact unbound (mem_generalized.2 ⟨inside, looks⟩)

/-- A type is generalized by implicit binders for the names free in it that look like variables and
are not the target of a type, once each and in ascending order, and stays as it is where there are
none. The other free names stay free, and generalizing again changes nothing. -/
theorem generalize_binds_variables (table : Table) (ty : Term) :
    (∃ xs : List String,
      (xs = [] ∧ generalize table ty = ty ∨
        xs ≠ [] ∧ generalize table ty = .pi (xs.map fun x => .mk x none true) ty) ∧
      xs.Pairwise (· < ·) ∧
      (∀ x, x ∈ xs ↔ x ∈ ty.free ∧ isVariableName x = true ∧ table.isTypeTarget x = false) ∧
      ∀ x, x ∈ (generalize table ty).free ↔ x ∈ ty.free ∧ x ∉ xs) ∧
    generalize table (generalize table ty) = generalize table ty := by
  refine ⟨⟨generalized table ty, ?_, ?_, fun x => mem_generalized, fun x => mem_free_generalize⟩,
    generalize_of_bound generalized_generalize⟩
  · by_cases h : generalized table ty = []
    · exact .inl ⟨h, generalize_of_bound h⟩
    · exact .inr ⟨h, generalize_of_unbound h⟩
  · exact (Identifier.pairwise_sorted ty.free).filter _

example : generalized .empty (.arrow (.var "b") (.pi [.plain "c"] (.app (.var "a") [.var "b"]))) =
    ["a", "b"] := by cbv

end Surface

end Vernacular
