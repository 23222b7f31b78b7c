import Mathlib.Data.List.Basic
import Vernacular.Term.Names
import Vernacular.Term.Rename

set_option autoImplicit false

namespace Vernacular

namespace Renaming

variable {m n : Renaming} {x : String}

theorem apply_nil (x : String) : apply [] x = x :=
  rfl

theorem apply_cons (a b : String) (m : Renaming) (x : String) :
    apply ((a, b) :: m) x = if x = a then b else m.apply x := by
  unfold apply
  rw [List.lookup_cons]
  by_cases h : x = a
  · simp [h]
  · simp [h, beq_eq_false_iff_ne.2 h]

theorem apply_of_not_mem (h : x ∉ m.map Prod.fst) : m.apply x = x := by
  induction m with
  | nil => rfl
  | cons e m ih =>
    obtain ⟨a, b⟩ := e
    simp only [List.map_cons, List.mem_cons, not_or] at h
    rw [apply_cons, if_neg h.1, ih h.2]

theorem pair_mem (h : x ∈ m.map Prod.fst) : (x, m.apply x) ∈ m := by
  induction m with
  | nil => simp at h
  | cons e m ih =>
    obtain ⟨a, b⟩ := e
    rw [apply_cons]
    by_cases eq : x = a
    · rw [if_pos eq, eq]
      exact List.mem_cons_self ..
    · rw [if_neg eq]
      exact List.mem_cons_of_mem _ (ih ((List.mem_cons.1 h).resolve_left eq))

theorem apply_of_mem (h : x ∈ m.map Prod.fst) : ∃ e ∈ m, e.2 = m.apply x :=
  ⟨_, pair_mem h, rfl⟩

theorem apply_eq_or_mem (m : Renaming) (x : String) : m.apply x = x ∨ ∃ e ∈ m, e.2 = m.apply x := by
  by_cases h : x ∈ m.map Prod.fst
  · exact .inr (apply_of_mem h)
  · exact .inl (apply_of_not_mem h)

theorem apply_append_of_mem (h : x ∈ m.map Prod.fst) : (m ++ n).apply x = m.apply x := by
  induction m with
  | nil => cases h
  | cons e m ih =>
    obtain ⟨a, b⟩ := e
    rw [List.cons_append, apply_cons, apply_cons]
    split
    · rfl
    · rename_i other
      exact ih ((List.mem_cons.1 h).resolve_left other)

theorem apply_append_of_not_mem (h : x ∉ m.map Prod.fst) : (m ++ n).apply x = n.apply x := by
  induction m with
  | nil => rfl
  | cons e m ih =>
    obtain ⟨a, b⟩ := e
    obtain ⟨other, later⟩ := not_or.1 (mt List.mem_cons.2 h)
    rw [List.cons_append, apply_cons, if_neg other, ih later]

theorem apply_without (m : Renaming) (ys : List String) (x : String) :
    (m.without ys).apply x = if x ∈ ys then x else m.apply x := by
  induction m with
  | nil => simp [without, apply_nil]
  | cons e m ih =>
    obtain ⟨a, b⟩ := e
    by_cases ha : a ∈ ys
    · have hidden : without ((a, b) :: m) ys = without m ys := by simp [without, ha]
      rw [hidden, ih, apply_cons]
      by_cases hx : x = a
      · simp [hx, ha]
      · simp [hx]
    · have kept : without ((a, b) :: m) ys = (a, b) :: without m ys := by simp [without, ha]
      rw [kept, apply_cons, apply_cons, ih]
      by_cases hx : x = a
      · simp [hx, ha]
      · simp [hx]

theorem without_nil (m : Renaming) : m.without [] = m := by
  simp [without]

theorem without_subset (m : Renaming) (ys : List String) : m.without ys ⊆ m :=
  List.filter_subset_self m

theorem without_append (m : Renaming) (ys zs : List String) :
    m.without (ys ++ zs) = (m.without ys).without zs := by
  simp [without, List.filter_filter, Bool.and_comm]

theorem without_cons (m : Renaming) (y : String) (ys : List String) :
    m.without (y :: ys) = (m.without [y]).without ys :=
  without_append m [y] ys

end Renaming

namespace Pattern

mutual

theorem bound_rename (m : Renaming) : ∀ p : Pattern, (p.rename m).bound = p.bound
  | .missing => rfl
  | .wild => rfl
  | .var _ => rfl
  | .named p _ => by simp only [rename, bound, bound_rename m p]
  | .con _ ps => by simp only [rename, bound, boundAll_renameAll m ps]
  | .num _ => rfl
  | .str _ => rfl

theorem boundAll_renameAll (m : Renaming) :
    ∀ ps : List Pattern, boundAll (renameAll m ps) = boundAll ps
  | [] => rfl
  | p :: ps => by simp only [renameAll, boundAll, bound_rename m p, boundAll_renameAll m ps]

end

end Pattern

namespace Term

theorem names_renameBinders (m : Renaming) (bs : List Binder) :
    (renameBinders m bs).map Binder.name = bs.map Binder.name := by
  induction bs generalizing m with
  | nil => rfl
  | cons b bs ih =>
    obtain ⟨x, ty, i⟩ := b
    simp only [renameBinders, List.map_cons, ih, Binder.name]

theorem binders_subset_names (bs : List Binder) : bs.map Binder.name ⊆ namesBinders bs := by
  induction bs with
  | nil => exact List.Subset.refl _
  | cons b bs ih =>
    obtain ⟨x, ty, i⟩ := b
    simp only [List.map_cons, namesBinders, Binder.name]
    exact List.cons_subset_cons x (List.Subset.trans ih (List.subset_append_right _ _))

end Term

end Vernacular
