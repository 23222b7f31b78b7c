import Mathlib.Data.List.Forall2
import Vernacular.Proofs.Renaming
import Vernacular.Sentence

set_option autoImplicit false

namespace Vernacular

namespace Term

mutual

def subterms : Term → List Term
  | .app f ts => .app f ts :: (f.subterms ++ subtermsAll ts)
  | .lam bs t => .lam bs t :: (subtermsBinders bs ++ t.subterms)
  | .fix x bs ty t => .fix x bs ty t :: (subtermsBinders bs ++ subtermsType ty ++ t.subterms)
  | .caseOf ts as => .caseOf ts as :: (subtermsAll ts ++ subtermsArms as)
  | .parens t => .parens t :: t.subterms
  | .pi bs t => .pi bs t :: (subtermsBinders bs ++ t.subterms)
  | .arrow t u => .arrow t u :: (t.subterms ++ u.subterms)
  | .ite c t u => .ite c t u :: (c.subterms ++ t.subterms ++ u.subterms)
  | .letIn x bs ty v t =>
    .letIn x bs ty v t :: (subtermsBinders bs ++ subtermsType ty ++ v.subterms ++ t.subterms)
  | .ascribed t u => .ascribed t u :: (t.subterms ++ u.subterms)
  | t => [t]

def subtermsAll : List Term → List Term
  | [] => []
  | t :: ts => t.subterms ++ subtermsAll ts

def subtermsType : Option Term → List Term
  | none => []
  | some t => t.subterms

def subtermsBinders : List Binder → List Term
  | [] => []
  | .mk _ ty _ :: bs => subtermsType ty ++ subtermsBinders bs

def subtermsArms : List Arm → List Term
  | [] => []
  | .mk _ t :: as => t.subterms ++ subtermsArms as

end

@[simp]
def children : Term → List Term
  | .app f ts => f :: ts
  | .lam bs t | .pi bs t => bs.flatMap (·.type.toList) ++ [t]
  | .fix _ bs ty t => bs.flatMap (·.type.toList) ++ (ty.toList ++ [t])
  | .caseOf ts as => ts ++ as.map Arm.body
  | .parens t => [t]
  | .arrow t u | .ascribed t u => [t, u]
  | .ite c t u => [c, t, u]
  | .letIn _ bs ty v t => bs.flatMap (·.type.toList) ++ (ty.toList ++ [v, t])
  | _ => []

theorem subtermsAll_eq (ts : List Term) : subtermsAll ts = ts.flatMap subterms := by
  induction ts with
  | nil => rfl
  | cons t ts ih => rw [subtermsAll, ih, List.flatMap_cons]

theorem subtermsType_eq (ty : Option Term) : subtermsType ty = ty.toList.flatMap subterms := by
  cases ty with
  | none => rfl
  | some t => rw [subtermsType, Option.toList_some, List.flatMap_singleton]

theorem subtermsBinders_eq (bs : List Binder) :
    subtermsBinders bs = (bs.flatMap (·.type.toList)).flatMap subterms := by
  induction bs with
  | nil => rfl
  | cons b bs ih =>
    obtain ⟨x, ty, i⟩ := b
    rw [subtermsBinders, ih, subtermsType_eq, List.flatMap_cons, List.flatMap_append, Binder.type]

theorem subtermsArms_eq (as : List Arm) : subtermsArms as = (as.map Arm.body).flatMap subterms := by
  induction as with
  | nil => rfl
  | cons a as ih =>
    obtain ⟨ps, t⟩ := a
    rw [subtermsArms, ih, List.map_cons, List.flatMap_cons, Arm.body]

theorem subterms_eq (t : Term) : t.subterms = t :: t.children.flatMap subterms := by
  cases t with
  | _ =>
    simp [subterms, children, subtermsAll_eq, subtermsType_eq, subtermsBinders_eq, subtermsArms_eq]

def Every (Q : Term → Prop) (t : Term) : Prop :=
  ∀ s ∈ t.subterms, Q s

section Every

variable {Q : Term → Prop}

theorem forall_optional_type {ty : Option Term} : (∀ u ∈ ty.toList, Q u) ↔ ∀ u ∈ ty, Q u := by
  simp

theorem forall_binder_types {bs : List Binder} :
    (∀ u ∈ bs.flatMap (·.type.toList), Q u) ↔ ∀ b ∈ bs, ∀ u ∈ b.type, Q u := by
  simp only [List.forall_mem_flatMap, forall_optional_type]

theorem forall_subtermsType {ty : Option Term} :
    (∀ s ∈ subtermsType ty, Q s) ↔ ∀ t ∈ ty, t.Every Q := by
  rw [subtermsType_eq, List.forall_mem_flatMap, forall_optional_type]
  rfl

theorem forall_subtermsBinders {bs : List Binder} :
    (∀ s ∈ subtermsBinders bs, Q s) ↔ ∀ b ∈ bs, ∀ t ∈ b.type, t.Every Q := by
  rw [subtermsBinders_eq, List.forall_mem_flatMap, forall_binder_types]
  rfl

/-- A property of all terms inside a term, taken apart at its top. -/
theorem every_iff {t : Term} : t.Every Q ↔ Q t ∧ ∀ u ∈ t.children, u.Every Q := by
  rw [Every, subterms_eq, List.forall_mem_cons, List.forall_mem_flatMap]
  rfl

theorem every_app {f : Term} {ts : List Term} :
    (app f ts).Every Q ↔ Q (.app f ts) ∧ f.Every Q ∧ ∀ t ∈ ts, t.Every Q := by
  rw [every_iff, children, List.forall_mem_cons]

theorem every_lam {bs : List Binder} {t : Term} :
    (lam bs t).Every Q ↔
      Q (.lam bs t) ∧ (∀ b ∈ bs, ∀ u ∈ b.type, u.Every Q) ∧ t.Every Q := by
  rw [every_iff, children, List.forall_mem_append, forall_binder_types, List.forall_mem_singleton]

theorem every_fix {x : String} {bs : List Binder} {ty : Option Term} {t : Term} :
    (fix x bs ty t).Every Q ↔
      Q (.fix x bs ty t) ∧ ((∀ b ∈ bs, ∀ u ∈ b.type, u.Every Q) ∧ ∀ u ∈ ty, u.Every Q) ∧
        t.Every Q := by
  rw [every_iff, children, List.forall_mem_append, List.forall_mem_append, forall_binder_types,
    forall_optional_type, List.forall_mem_singleton, and_assoc]

theorem every_caseOf {ts : List Term} {as : List Arm} :
    (caseOf ts as).Every Q ↔
      Q (.caseOf ts as) ∧ (∀ t ∈ ts, t.Every Q) ∧ ∀ a ∈ as, a.body.Every Q := by
  rw [every_iff, children, List.forall_mem_append, List.forall_mem_map]

theorem every_parens {t : Term} : (parens t).Every Q ↔ Q (.parens t) ∧ t.Every Q := by
  rw [every_iff, children, List.forall_mem_singleton]

theorem every_pi {bs : List Binder} {t : Term} :
    (pi bs t).Every Q ↔ Q (.pi bs t) ∧ (∀ b ∈ bs, ∀ u ∈ b.type, u.Every Q) ∧ t.Every Q := by
  rw [every_iff, children, List.forall_mem_append, forall_binder_types, List.forall_mem_singleton]

theorem every_arrow {t u : Term} :
    (arrow t u).Every Q ↔ Q (.arrow t u) ∧ t.Every Q ∧ u.Every Q := by
  rw [every_iff, children, List.forall_mem_cons, List.forall_mem_singleton]

theorem every_ite {c t u : Term} :
    (ite c t u).Every Q ↔ Q (.ite c t u) ∧ (c.Every Q ∧ t.Every Q) ∧ u.Every Q := by
  rw [every_iff, children, List.forall_mem_cons, List.forall_mem_cons, List.forall_mem_singleton,
    and_assoc]

theorem every_letIn {x : String} {bs : List Binder} {ty : Option Term} {v t : Term} :
    (letIn x bs ty v t).Every Q ↔
      Q (.letIn x bs ty v t) ∧
        (((∀ b ∈ bs, ∀ u ∈ b.type, u.Every Q) ∧ ∀ u ∈ ty, u.Every Q) ∧ v.Every Q) ∧ t.Every Q := by
  rw [every_iff, children, List.forall_mem_append, List.forall_mem_append, forall_binder_types,
    forall_optional_type, List.forall_mem_cons, List.forall_mem_singleton, and_assoc, and_assoc]

theorem every_ascribed {t u : Term} :
    (ascribed t u).Every Q ↔ Q (.ascribed t u) ∧ t.Every Q ∧ u.Every Q := by
  rw [every_iff, children, List.forall_mem_cons, List.forall_mem_singleton]

theorem every_arrows {doms : List Term} {cod : Term} (arrows : ∀ t u, Q (.arrow t u))
    (parts : ∀ t ∈ doms, t.Every Q) (last : cod.Every Q) : (Term.arrows doms cod).Every Q := by
  induction doms with
  | nil => exact last
  | cons t ts ih =>
    obtain ⟨first, rest⟩ := List.forall_mem_cons.1 parts
    exact every_arrow.2 ⟨arrows _ _, first, ih rest⟩

theorem every_leaf {t : Term} (leaf : t.subterms = [t]) (h : Q t) : t.Every Q := by
  rw [Every, leaf]
  exact List.forall_mem_singleton.2 h

theorem Every.self {t : Term} (h : t.Every Q) : Q t := by
  cases t <;> exact h _ (by simp [subterms])

theorem Every.imp {P : Term → Prop} {t : Term} (h : t.Every P) (sub : ∀ s, P s → Q s) : t.Every Q :=
  fun s hs => sub s (h s hs)

end Every

theorem sizeOf_binder_type {bs : List Binder} {u : Term} (h : u ∈ bs.flatMap (·.type.toList)) :
    sizeOf u < sizeOf bs := by
  obtain ⟨b, listed, mem⟩ := List.mem_flatMap.1 h
  have inside := List.sizeOf_lt_of_mem listed
  obtain ⟨x, ty, implicit⟩ := b
  obtain rfl : ty = some u := by simpa [Binder.type] using mem
  simp only [Binder.mk.sizeOf_spec, Option.some.sizeOf_spec] at inside
  omega

theorem sizeOf_optional_type {ty : Option Term} {u : Term} (h : u ∈ ty.toList) :
    sizeOf u < sizeOf ty := by
  obtain rfl : ty = some u := by simpa using h
  simp

theorem sizeOf_child {t u : Term} (h : u ∈ t.children) : sizeOf u < sizeOf t := by
  cases t with
  | app f ts =>
    rw [app.sizeOf_spec]
    rcases List.mem_cons.1 h with rfl | arg
    · omega
    · have inside := List.sizeOf_lt_of_mem arg
      omega
  | lam bs t | pi bs t =>
    simp only [lam.sizeOf_spec, pi.sizeOf_spec]
    rcases List.mem_append.1 h with type | body
    · have inside := sizeOf_binder_type type
      omega
    · obtain rfl := List.mem_singleton.1 body
      omega
  | fix x bs ty t =>
    rw [fix.sizeOf_spec]
    rcases List.mem_append.1 h with type | later
    · have inside := sizeOf_binder_type type
      omega
    · rcases List.mem_append.1 later with type | body
      · have inside := sizeOf_optional_type type
        omega
      · obtain rfl := List.mem_singleton.1 body
        omega
  | caseOf ts as =>
    rw [caseOf.sizeOf_spec]
    rcases List.mem_append.1 h with scrutinee | body
    · have inside := List.sizeOf_lt_of_mem scrutinee
      omega
    · obtain ⟨⟨ps, v⟩, arm, rfl⟩ := List.mem_map.1 body
      have inside := List.sizeOf_lt_of_mem arm
      rw [Arm.mk.sizeOf_spec] at inside
      rw [Arm.body]
      omega
  | parens t =>
    obtain rfl := List.mem_singleton.1 h
    rw [parens.sizeOf_spec]
    omega
  | arrow t v | ascribed t v =>
    simp only [arrow.sizeOf_spec, ascribed.sizeOf_spec]
    rcases List.mem_pair.1 h with rfl | rfl <;> omega
  | ite c t v =>
    rw [ite.sizeOf_spec]
    rcases List.mem_cons.1 h with rfl | branch
    · omega
    · rcases List.mem_pair.1 branch with rfl | rfl <;> omega
  | letIn x bs ty v t =>
    rw [letIn.sizeOf_spec]
    rcases List.mem_append.1 h with type | later
    · have inside := sizeOf_binder_type type
      omega
    · rcases List.mem_append.1 later with type | part
      · have inside := sizeOf_optional_type type
        omega
      · rcases List.mem_pair.1 part with rfl | rfl <;> omega
  | _ => cases h

/-- What holds of a term as soon as it holds of all its children holds of every term. -/
theorem induction_children {Q : Term → Prop}
    (step : ∀ t : Term, (∀ u ∈ t.children, Q u) → Q t) (t : Term) : Q t :=
  step t fun u _ => induction_children step u
termination_by sizeOf t
decreasing_by exact sizeOf_child ‹_›

section Rename

/-- One term is a renaming of another, by whatever renaming. -/
def RenamedTo (t u : Term) : Prop :=
  ∃ m, u = t.rename m

theorem renamedTo_all (m : Renaming) (ts : List Term) :
    List.Forall₂ RenamedTo ts (renameAll m ts) := by
  induction ts with
  | nil => exact .nil
  | cons t ts ih => exact .cons ⟨m, rfl⟩ ih

theorem renamedTo_type (m : Renaming) (ty : Option Term) :
    List.Forall₂ RenamedTo ty.toList (renameType m ty).toList := by
  cases ty with
  | none => exact .nil
  | some t => exact .cons ⟨m, rfl⟩ .nil

theorem renamedTo_binders (m : Renaming) (bs : List Binder) :
    List.Forall₂ RenamedTo (bs.flatMap (·.type.toList))
      ((renameBinders m bs).flatMap (·.type.toList)) := by
  induction bs generalizing m with
  | nil => exact .nil
  | cons b bs ih =>
    obtain ⟨x, ty, i⟩ := b
    rw [renameBinders, List.flatMap_cons, List.flatMap_cons]
    exact List.rel_append (renamedTo_type m ty) (ih _)

theorem renamedTo_arms (m : Renaming) (as : List Arm) :
    List.Forall₂ RenamedTo (as.map Arm.body) ((renameArms m as).map Arm.body) := by
  induction as with
  | nil => exact .nil
  | cons a as ih =>
    obtain ⟨ps, t⟩ := a
    exact .cons ⟨_, rfl⟩ ih

/-- The parts of a renamed term are the parts of the term, renamed where they stand. -/
theorem children_rename (m : Renaming) (t : Term) :
    List.Forall₂ RenamedTo t.children (t.rename m).children := by
  have one : ∀ (n : Renaming) (u : Term), List.Forall₂ RenamedTo [u] [u.rename n] :=
    fun n u => .cons ⟨n, rfl⟩ .nil
  cases t with
  | app f ts => exact .cons ⟨m, rfl⟩ (renamedTo_all m ts)
  | lam bs t | pi bs t => exact List.rel_append (renamedTo_binders m bs) (one _ t)
  | fix x bs ty t =>
    exact List.rel_append (renamedTo_binders _ bs) (List.rel_append (renamedTo_type _ ty) (one _ t))
  | caseOf ts as => exact List.rel_append (renamedTo_all m ts) (renamedTo_arms m as)
  | parens t => exact one m t
  | arrow t u | ascribed t u => exact .cons ⟨m, rfl⟩ (one m u)
  | ite c t u => exact .cons ⟨m, rfl⟩ (.cons ⟨m, rfl⟩ (one m u))
  | letIn x bs ty v t =>
    exact List.rel_append (renamedTo_binders m bs)
      (List.rel_append (renamedTo_type _ ty) (.cons ⟨_, rfl⟩ (one _ t)))
  | missing | foreign | var | num | str | hole | sort => exact .nil

theorem exists_of_mem_renamed {ts us : List Term} (h : List.Forall₂ RenamedTo ts us) {u : Term}
    (hu : u ∈ us) : ∃ t ∈ ts, t.RenamedTo u := by
  induction h with
  | nil => cases hu
  | cons first _ ih =>
    rcases List.mem_cons.1 hu with rfl | later
    · exact ⟨_, List.mem_cons_self .., first⟩
    · obtain ⟨t, listed, renamed⟩ := ih later
      exact ⟨t, List.mem_cons_of_mem _ listed, renamed⟩

variable {Q : Term → Prop}

theorem Every.rename (keeps : ∀ m s, Q s → Q (s.rename m)) (m : Renaming) {t : Term}
    (h : t.Every Q) : (t.rename m).Every Q := by
  induction t using induction_children generalizing m with
  | step t ih =>
    obtain ⟨here, parts⟩ := every_iff.1 h
    refine every_iff.2 ⟨keeps m t here, fun u hu => ?_⟩
    obtain ⟨child, listed, n, rfl⟩ := exists_of_mem_renamed (children_rename m t) hu
    exact ih child listed n (parts child listed)

theorem Every.renameType (keeps : ∀ m s, Q s → Q (s.rename m)) (m : Renaming) {ty : Option Term}
    (h : ∀ t ∈ ty, t.Every Q) : ∀ t ∈ renameType m ty, t.Every Q := by
  cases ty with
  | none => exact h
  | some t =>
    rintro u ⟨⟩
    exact (h t rfl).rename keeps m

end Rename

end Term

end Vernacular
