import Vernacular.Proofs.Occurrences

set_option autoImplicit false

namespace Vernacular

variable {m : Renaming} {ρ ρ' : Scope}

namespace Pattern

mutual

theorem nameless_rename_iff : ∀ p : Pattern,
    (p.rename m).nameless ρ' = p.nameless ρ ↔ ∀ c ∈ p.constructors, ρ' (m.apply c) = ρ c
  | .missing | .wild | .var _ | .num _ | .str _ => by simp [rename, nameless, constructors]
  | .named p _ => by simp [rename, nameless, constructors, nameless_rename_iff p]
  | .con c ps => by simp [rename, nameless, constructors, namelessAll_renameAll_iff ps]

theorem namelessAll_renameAll_iff : ∀ ps : List Pattern,
    namelessAll ρ' (renameAll m ps) = namelessAll ρ ps ↔
      ∀ c ∈ constructorsAll ps, ρ' (m.apply c) = ρ c
  | [] => by simp [renameAll, namelessAll, constructorsAll]
  | p :: ps => by
    simp [renameAll, namelessAll, constructorsAll, nameless_rename_iff p,
      namelessAll_renameAll_iff ps, or_imp, forall_and]

end

end Pattern

namespace Term

/-- A part keeps its nameless form, in its place inside a renamed term. -/
def Kept (m : Renaming) (ρ ρ' : Scope) (p : List String × Term) : Prop :=
  (p.2.rename (m.without p.1)).nameless (ρ'.binds p.1) = p.2.nameless (ρ.binds p.1)

theorem kept_nil {t : Term} :
    Kept m ρ ρ' ([], t) ↔ (t.rename m).nameless ρ' = t.nameless ρ := by
  rw [Kept, Renaming.without_nil]
  rfl

theorem kept_cons {x : String} {p : List String × Term} :
    Kept m ρ ρ' (x :: p.1, p.2) ↔ Kept (m.without [x]) (ρ.bind x) (ρ'.bind x) p := by
  rw [Kept, Renaming.without_cons]
  rfl

theorem namelessAll_renameAll_iff {ts : List Term} :
    namelessAll ρ' (renameAll m ts) = namelessAll ρ ts ↔
      ∀ t ∈ ts, (t.rename m).nameless ρ' = t.nameless ρ := by
  induction ts with
  | nil => simp [renameAll, namelessAll]
  | cons t ts ih => simp [renameAll, namelessAll, ih]

theorem namelessType_renameType_iff {ty : Option Term} :
    namelessType ρ' (renameType m ty) = namelessType ρ ty ↔
      ∀ t ∈ ty.toList, (t.rename m).nameless ρ' = t.nameless ρ := by
  cases ty <;> simp [renameType, namelessType]

theorem forall_placed {bs : List Binder} {us : List Term} :
    (∀ p ∈ placed bs us, Kept m ρ ρ' p) ↔
      namelessBinders ρ' (renameBinders m bs) = namelessBinders ρ bs ∧
        ∀ u ∈ us, Kept m ρ ρ' (bs.map Binder.name, u) := by
  induction bs generalizing m ρ ρ' with
  | nil => simp [placed, renameBinders, namelessBinders]
  | cons b bs ih =>
    obtain ⟨x, ty, i⟩ := b
    rw [placed, List.forall_mem_append, List.forall_mem_map, List.forall_mem_map]
    simp only [kept_nil, kept_cons, ih, renameBinders, namelessBinders, List.cons.injEq,
      NamelessBinder.mk.injEq, namelessType_renameType_iff, and_true, and_assoc, List.map_cons,
      Binder.name]
    simp only [← kept_cons]

theorem namelessArms_renameArms_iff {as : List Arm} :
    namelessArms ρ' (renameArms m as) = namelessArms ρ as ↔
      (∀ c ∈ as.flatMap fun a => Pattern.constructorsAll a.patterns, ρ' (m.apply c) = ρ c) ∧
        ∀ a ∈ as, Kept m ρ ρ' (Pattern.boundAll a.patterns, a.body) := by
  induction as with
  | nil => simp [renameArms, namelessArms]
  | cons a as ih =>
    obtain ⟨ps, t⟩ := a
    simp only [renameArms, namelessArms, List.cons.injEq, NamelessArm.mk.injEq,
      Pattern.namelessAll_renameAll_iff, Pattern.boundAll_renameAll, ih, List.flatMap_cons,
      List.forall_mem_append, List.forall_mem_cons, Arm.patterns, Arm.body]
    exact and_and_and_comm

theorem forall_placed_nil {us : List Term} :
    (∀ p ∈ placed [] us, Kept m ρ ρ' p) ↔ ∀ u ∈ us, (u.rename m).nameless ρ' = u.nameless ρ := by
  rw [placed, List.forall_mem_map]
  simp only [kept_nil]

/-- A renamed term has the nameless form of the term iff what the node refers to is still the same
and all parts are kept. -/
theorem nameless_rename_parts {t : Term} :
    (t.rename m).nameless ρ' = t.nameless ρ ↔
      (∀ x ∈ t.mentions, ρ' (m.apply x) = ρ x) ∧ ∀ p ∈ t.parts, Kept m ρ ρ' p := by
  cases t with
  | app f ts =>
    rw [parts, forall_placed_nil]
    simp [rename, nameless, namelessAll_renameAll_iff]
  | lam bs t | pi bs t =>
    rw [parts, forall_placed]
    simp [rename, nameless, Kept, names_renameBinders]
  | fix x bs ty t =>
    rw [parts, forall_placed, List.forall_mem_append, List.forall_mem_singleton]
    simp [rename, nameless, Kept, names_renameBinders, namelessType_renameType_iff, Binder.plain,
      renameBinders, namelessBinders, Binder.name]
  | caseOf ts as =>
    rw [parts, List.forall_mem_append, forall_placed_nil, List.forall_mem_map]
    simp only [rename, nameless, Nameless.caseOf.injEq, namelessAll_renameAll_iff,
      namelessArms_renameArms_iff, mentions]
    exact and_left_comm
  | letIn x bs ty v t =>
    rw [parts, List.forall_mem_append, forall_placed, List.forall_mem_append,
      List.forall_mem_singleton, List.forall_mem_singleton]
    simp [rename, nameless, Kept, names_renameBinders, namelessType_renameType_iff, and_assoc,
      Scope.binds_singleton]
  | parens t | arrow t u | ascribed t u | ite c t u =>
    rw [parts, forall_placed_nil]
    simp [rename, nameless]
  | var x => simp [rename, nameless]
  | missing | foreign | num | str | hole | sort => simp [rename, nameless]

theorem forall_occurs_iff {Q : String → List String → Prop} {t : Term} :
    (∀ x ys, t.Occurs x ys → Q x ys) ↔
      (∀ x ∈ t.mentions, Q x []) ∧
        ∀ p ∈ t.parts, ∀ x zs, p.2.Occurs x zs → Q x (p.1 ++ zs) := by
  constructor
  · exact fun h => ⟨fun x mentioned => h x [] (.here mentioned),
      fun p part x zs deeper => h x _ (.inside part deeper)⟩
  · rintro ⟨here, inside⟩ x ys occurs
    cases occurs with
    | here mentioned => exact here x mentioned
    | inside part deeper => exact inside _ part x _ deeper

/-- Renaming keeps the nameless form of a term exactly if every occurrence of a name in it still
stands for the same. -/
theorem nameless_rename_iff {t : Term} :
    (t.rename m).nameless ρ' = t.nameless ρ ↔
      ∀ x ys, t.Occurs x ys → ρ'.binds ys ((m.without ys).apply x) = ρ.binds ys x := by
  induction t using induction_children generalizing m ρ ρ' with
  | step t ih =>
    rw [nameless_rename_parts, forall_occurs_iff]
    refine and_congr ?_ (forall₂_congr fun p part => ?_)
    · simp [Renaming.without_nil, Scope.binds]
    · rw [Kept, ih p.2 (child_of_part part)]
      simp only [Renaming.without_append, Scope.binds_append]

/-- Only the free occurrences matter: the new name must not be bound around them, and has to stand
outside for what the old name stood for. -/
theorem nameless_rename_iff_uncaptured {t : Term} :
    (t.rename m).nameless ρ' = t.nameless ρ ↔
      ∀ x ys, t.Occurs x ys → x ∉ ys → m.apply x ∉ ys ∧ ρ' (m.apply x) = ρ x := by
  rw [nameless_rename_iff]
  refine forall₃_congr fun x ys _ => ?_
  rw [Renaming.apply_without]
  by_cases bound : x ∈ ys
  · obtain ⟨i, -, found⟩ := Scope.binds_of_mem bound
    simp only [bound, if_true, found, not_true_eq_false, false_imp_iff]
  · simp only [bound, if_false, Scope.binds_eq_iff bound, not_false_eq_true, true_imp_iff]

end Term

end Vernacular
