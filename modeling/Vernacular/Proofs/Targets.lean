import Mathlib.Logic.Function.Basic
import Vernacular.Table

set_option autoImplicit false

namespace Vernacular

namespace Identifier

theorem stem_append_underscore (x : String) : stem (x ++ "_") = stem x := by
  simp [stem, String.toList_append]

theorem escape_injective : Function.Injective escape := by
  intro x y h
  unfold escape at h
  split at h <;> split at h
  · exact (String.append_left_inj "_").1 h
  · rename_i reserved free
    rw [← h, stem_append_underscore] at free
    exact absurd reserved free
  · rename_i free reserved
    rw [h, stem_append_underscore] at free
    exact absurd reserved free
  · exact h

end Identifier

theorem Targets.get?_set (r : Targets) (target : String) (space n : Namespace) :
    (r.set target space).get? n = if space = n then some target else r.get? n := by
  cases space <;> cases n <;> rfl

namespace Table

def target? (t : Table) (slot : Slot) : Option String :=
  t.records[slot.source]?.bind (·.get? slot.space)

theorem lookup_eq (t : Table) (space : Namespace) (x : String) :
    t.lookup space x = (t.target? ⟨x, space⟩).getD (Identifier.escape x) :=
  rfl

theorem target?_rename (t : Table) (space : Namespace) (source target : String) (slot : Slot) :
    (t.rename space source target).target? slot =
      if ⟨source, space⟩ = slot then some target else t.target? slot := by
  obtain ⟨x, n⟩ := slot
  simp only [target?, rename, Std.TreeMap.getElem?_insert, Std.LawfulEqOrd.compare_eq_iff_eq,
    Slot.mk.injEq]
  by_cases same : source = x
  · subst same
    simp only [if_true, Option.bind_some, Targets.get?_set, true_and]
    cases t.records[source]? with
    | none => cases n <;> rfl
    | some r => rfl
  · simp only [same, if_false, false_and]

theorem lookup_rename (t : Table) (space n : Namespace) (source target x : String) :
    (t.rename space source target).lookup n x =
      if source = x ∧ space = n then target else t.lookup n x := by
  rw [lookup_eq, lookup_eq, target?_rename]
  simp only [Slot.mk.injEq]
  split <;> rfl

/-- Of the targets written one after the other for an identifier, the last counts. -/
theorem lookup_foldl_rename (es : List (Slot × String)) (t : Table) (n : Namespace) (x : String) :
    (es.foldl (fun t e => t.rename e.1.space e.1.source e.2) t).lookup n x =
      (es.reverse.lookup ⟨x, n⟩).getD (t.lookup n x) := by
  induction es generalizing t with
  | nil => rfl
  | cons e es ih =>
    obtain ⟨⟨source, space⟩, target⟩ := e
    rw [List.foldl_cons, ih, List.reverse_cons, List.lookup_append, lookup_rename]
    cases es.reverse.lookup (⟨x, n⟩ : Slot) with
    | some found => rfl
    | none =>
      rw [List.lookup_cons, Option.none_or, Option.getD_none]
      by_cases h : source = x ∧ space = n
      · obtain ⟨rfl, rfl⟩ := h
        simp
      · have other : (⟨x, n⟩ : Slot) ≠ ⟨source, space⟩ := by
          rintro ⟨⟩
          exact h ⟨rfl, rfl⟩
        simp [h, beq_eq_false_iff_ne.2 other]

theorem valueName_initial (x : String) :
    initial.valueName x = (builtins.reverse.lookup ⟨x, .value⟩).getD (Identifier.escape x) := by
  rw [valueName, initial, lookup_foldl_rename]
  rfl

def valueBuiltins : List (String × String) :=
  builtins.filterMap fun e => if e.1.space = .value then some (e.1.source, e.2) else none

theorem valueName_source : ∀ e ∈ valueBuiltins, initial.valueName e.1 = e.2 := by
  simp only [valueName_initial]
  decide

theorem valueName_target : ∀ e ∈ valueBuiltins, initial.valueName e.2 = e.2 := by
  simp only [valueName_initial]
  decide

theorem valueName_other {x : String} (h : x ∉ valueBuiltins.map Prod.fst) :
    initial.valueName x = Identifier.escape x := by
  have absent : builtins.reverse.lookup ⟨x, .value⟩ = none := by
    rw [List.lookup_eq_none_iff]
    intro e he
    by_contra same
    have slot : ⟨x, .value⟩ = e.1 := by simpa using same
    have listed : (x, e.2) ∈ valueBuiltins :=
      List.mem_filterMap.2 ⟨e, List.mem_reverse.1 he, by simp [← slot]⟩
    exact h (List.mem_map_of_mem listed)
  rw [valueName_initial, absent, Option.getD_none]

def sharedNames : List String :=
  valueBuiltins.flatMap fun e => [e.1, e.2]

/-- The identifiers that another one is written like are those of a built-in correspondence. -/
theorem exists_same_target_iff (y : String) :
    (∃ z, z ≠ y ∧ initial.valueName z = initial.valueName y) ↔ y ∈ sharedNames := by
  have sides : ∀ e ∈ valueBuiltins, e.1 ≠ e.2 ∧ Identifier.escape e.2 = e.2 := by decide
  constructor
  · rintro ⟨z, other, same⟩
    by_contra unshared
    have target : ∀ e ∈ valueBuiltins, e.2 ≠ Identifier.escape y := by
      intro e he eq
      rw [← (sides e he).2] at eq
      have name := Identifier.escape_injective eq
      exact unshared (List.mem_flatMap.2 ⟨e, he, by simp [name]⟩)
    have source : y ∉ valueBuiltins.map Prod.fst := by
      intro h
      obtain ⟨e, he, name⟩ := List.mem_map.1 h
      exact unshared (List.mem_flatMap.2 ⟨e, he, by simp [name]⟩)
    rw [valueName_other source] at same
    by_cases listed : z ∈ valueBuiltins.map Prod.fst
    · obtain ⟨e, he, rfl⟩ := List.mem_map.1 listed
      exact target e he ((valueName_source e he).symm.trans same)
    · rw [valueName_other listed] at same
      exact other (Identifier.escape_injective same)
  · intro shared
    obtain ⟨e, he, side⟩ := List.mem_flatMap.1 shared
    have same := (valueName_source e he).trans (valueName_target e he).symm
    have cases : y = e.1 ∨ y = e.2 := by simpa using side
    rcases cases with rfl | rfl
    · exact ⟨e.2, (sides e he).1.symm, same.symm⟩
    · exact ⟨e.1, (sides e he).1, same⟩

end Table

end Vernacular
