import Vernacular.Proofs.RenamedForm

set_option autoImplicit false

namespace Vernacular

namespace Renaming

variable {m n k : Renaming} {xs ys : List String}

def inverse (m : Renaming) : Renaming :=
  m.map Prod.swap

def Injective (m : Renaming) : Prop :=
  ∀ e ∈ m, ∀ f ∈ m, e.2 = f.2 → e.1 = f.1

theorem mem_inverse {x y : String} : (y, x) ∈ m.inverse ↔ (x, y) ∈ m := by
  simp [inverse]

/-- Renaming back gives every name that is not new. -/
theorem apply_inverse (distinct : m.Injective) (fresh : m.Avoids xs) {x : String} (hx : x ∈ xs) :
    m.inverse.apply (m.apply x) = x := by
  by_cases key : x ∈ m.map Prod.fst
  · have there : (x, m.apply x) ∈ m := pair_mem key
    have back : m.apply x ∈ m.inverse.map Prod.fst :=
      List.mem_map_of_mem (mem_inverse.2 there)
    exact distinct _ (mem_inverse.1 (pair_mem back)) _ there rfl
  · rw [apply_of_not_mem key]
    refine apply_of_not_mem fun new => ?_
    obtain ⟨⟨y, z⟩, listed, rfl⟩ := List.mem_map.1 new
    exact fresh _ (mem_inverse.1 listed) hx

/-- On the given names, renaming by `m` and then by `n` is renaming by `k`, and none of them is a
new name of `m`. -/
structure Composes (m n k : Renaming) (xs : List String) : Prop where
  composed : ∀ x ∈ xs, n.apply (m.apply x) = k.apply x
  fresh : m.Avoids xs

theorem Composes.subset (h : Composes m n k xs) (sub : ys ⊆ xs) : Composes m n k ys :=
  ⟨fun x hx => h.composed x (sub hx), fun e he hx => h.fresh e he (sub hx)⟩

/-- Names can be hidden from both renamings at once: the first one gives none of them. -/
theorem Composes.without (h : Composes m n k xs) (sub : ys ⊆ xs) :
    Composes (m.without ys) (n.without ys) (k.without ys) xs where
  composed x hx := by
    simp only [apply_without]
    by_cases hidden : x ∈ ys
    · simp only [hidden, if_true]
    · have shown : m.apply x ∉ ys := (h.subset sub).fresh.apply_not_mem hidden
      simp only [hidden, shown, if_false, h.composed x hx]
  fresh := h.fresh.without ys

theorem composes_inverse (distinct : m.Injective) (fresh : m.Avoids xs) :
    Composes m m.inverse [] xs :=
  ⟨fun _ hx => apply_inverse distinct fresh hx, fresh⟩

end Renaming

open Renaming (Composes)

namespace Pattern

mutual

theorem rename_rename {m n k : Renaming} :
    ∀ p : Pattern, Composes m n k p.constructors → (p.rename m).rename n = p.rename k
  | .missing, _ => rfl
  | .wild, _ => rfl
  | .var _, _ => rfl
  | .named p _, h => by simp only [rename, rename_rename p h]
  | .con c ps, h => by
    have head := h.composed c (List.mem_cons_self ..)
    have args := renameAll_renameAll ps (h.subset (List.subset_cons_self _ _))
    simp only [rename, head, args]
  | .num _, _ => rfl
  | .str _, _ => rfl

theorem renameAll_renameAll {m n k : Renaming} : ∀ ps : List Pattern,
    Composes m n k (constructorsAll ps) → renameAll n (renameAll m ps) = renameAll k ps
  | [], _ => rfl
  | p :: ps, h => by
    have first := rename_rename p (h.subset (List.subset_append_left _ _))
    have rest := renameAll_renameAll ps (h.subset (List.subset_append_right _ _))
    simp only [renameAll, first, rest]

end

end Pattern

namespace Term

mutual

/-- Renaming twice is renaming once by the composition, if the names in between are fresh. -/
theorem rename_rename {m n k : Renaming} :
    ∀ t : Term, Composes m n k t.names → (t.rename m).rename n = t.rename k
  | .missing, _ => rfl
  | .foreign _, _ => rfl
  | .var x, h => by simp only [rename, h.composed x (List.mem_singleton_self x)]
  | .app f ts, h => by
    have head := rename_rename f (h.subset fun _ hx => by simp [names, hx])
    have args := renameAll_renameAll ts (h.subset fun _ hx => by simp [names, hx])
    simp only [rename, head, args]
  | .lam bs t, h => by
    have binders := renameBinders_renameBinders bs (h.subset fun _ hx => by simp [names, hx])
    have bound : bs.map Binder.name ⊆ (Term.lam bs t).names :=
      List.Subset.trans (binders_subset_names bs) fun _ hx => by simp [names, hx]
    have body := rename_rename t ((h.without bound).subset fun _ hx => by simp [names, hx])
    simp only [rename, names_renameBinders, binders, body]
  | .fix x bs ty t, h => by
    have self : [x] ⊆ (Term.fix x bs ty t).names := by simp [names]
    have binders := renameBinders_renameBinders bs
      ((h.without self).subset fun _ hx => by simp [names, hx])
    have bound : x :: bs.map Binder.name ⊆ (Term.fix x bs ty t).names :=
      List.Subset.trans (List.cons_subset_cons x (binders_subset_names bs)) fun y hy => by
        rcases List.mem_cons.1 hy with rfl | hy <;> simp [names, *]
    have type := renameType_renameType ty
      ((h.without bound).subset fun _ hx => by simp [names, hx])
    have body := rename_rename t ((h.without bound).subset fun _ hx => by simp [names, hx])
    simp only [rename, names_renameBinders, binders, type, body]
  | .caseOf ts as, h => by
    have scrutinees := renameAll_renameAll ts (h.subset fun _ hx => by simp [names, hx])
    have arms := renameArms_renameArms as (h.subset fun _ hx => by simp [names, hx])
    simp only [rename, scrutinees, arms]
  | .num _, _ => rfl
  | .str _, _ => rfl
  | .parens t, h => congrArg Term.parens (rename_rename t h)
  | .pi bs t, h => by
    have binders := renameBinders_renameBinders bs (h.subset fun _ hx => by simp [names, hx])
    have bound : bs.map Binder.name ⊆ (Term.pi bs t).names :=
      List.Subset.trans (binders_subset_names bs) fun _ hx => by simp [names, hx]
    have body := rename_rename t ((h.without bound).subset fun _ hx => by simp [names, hx])
    simp only [rename, names_renameBinders, binders, body]
  | .arrow t u, h => by
    have dom := rename_rename t (h.subset fun _ hx => by simp [names, hx])
    have cod := rename_rename u (h.subset fun _ hx => by simp [names, hx])
    simp only [rename, dom, cod]
  | .ite c t u, h => by
    have cond := rename_rename c (h.subset fun _ hx => by simp [names, hx])
    have yes := rename_rename t (h.subset fun _ hx => by simp [names, hx])
    have no := rename_rename u (h.subset fun _ hx => by simp [names, hx])
    simp only [rename, cond, yes, no]
  | .letIn x bs ty v t, h => by
    have self : [x] ⊆ (Term.letIn x bs ty v t).names := by simp [names]
    have binders := renameBinders_renameBinders bs (h.subset fun _ hx => by simp [names, hx])
    have bound : bs.map Binder.name ⊆ (Term.letIn x bs ty v t).names :=
      List.Subset.trans (binders_subset_names bs) fun _ hx => by simp [names, hx]
    have type := renameType_renameType ty
      ((h.without bound).subset fun _ hx => by simp [names, hx])
    have value := rename_rename v ((h.without bound).subset fun _ hx => by simp [names, hx])
    have body := rename_rename t ((h.without self).subset fun _ hx => by simp [names, hx])
    simp only [rename, names_renameBinders, binders, type, value, body]
  | .ascribed t u, h => by
    have term := rename_rename t (h.subset fun _ hx => by simp [names, hx])
    have type := rename_rename u (h.subset fun _ hx => by simp [names, hx])
    simp only [rename, term, type]
  | .hole, _ => rfl
  | .sort _, _ => rfl

theorem renameAll_renameAll {m n k : Renaming} : ∀ ts : List Term,
    Composes m n k (namesAll ts) → renameAll n (renameAll m ts) = renameAll k ts
  | [], _ => rfl
  | t :: ts, h => by
    have first := rename_rename t (h.subset fun _ hx => by simp [namesAll, hx])
    have rest := renameAll_renameAll ts (h.subset fun _ hx => by simp [namesAll, hx])
    simp only [renameAll, first, rest]

theorem renameType_renameType {m n k : Renaming} : ∀ ty : Option Term,
    Composes m n k (namesType ty) → renameType n (renameType m ty) = renameType k ty
  | none, _ => rfl
  | some t, h => congrArg some (rename_rename t h)

theorem renameBinders_renameBinders {m n k : Renaming} : ∀ bs : List Binder,
    Composes m n k (namesBinders bs) → renameBinders n (renameBinders m bs) = renameBinders k bs
  | [], _ => rfl
  | .mk x ty i :: bs, h => by
    have type := renameType_renameType ty (h.subset fun _ hx => by simp [namesBinders, hx])
    have self : [x] ⊆ namesBinders (.mk x ty i :: bs) := by simp [namesBinders]
    have rest := renameBinders_renameBinders bs
      ((h.without self).subset fun _ hx => by simp [namesBinders, hx])
    simp only [renameBinders, type, rest]

theorem renameArms_renameArms {m n k : Renaming} : ∀ as : List Arm,
    Composes m n k (namesArms as) → renameArms n (renameArms m as) = renameArms k as
  | [], _ => rfl
  | .mk ps t :: as, h => by
    have patterns := Pattern.renameAll_renameAll ps
      (h.subset fun _ hx => by simp [namesArms, hx])
    have bound : Pattern.boundAll ps ⊆ namesArms (.mk ps t :: as) :=
      fun _ hx => by simp [namesArms, hx]
    have body := rename_rename t ((h.without bound).subset fun _ hx => by simp [namesArms, hx])
    have rest := renameArms_renameArms as (h.subset fun _ hx => by simp [namesArms, hx])
    simp only [renameArms, Pattern.boundAll_renameAll, patterns, body, rest]

end

/-- An injective renaming to names that do not occur in a term renames the free names of the term,
and the inverse renaming gives the term back as it was. -/
theorem rename_back (t : Term) (m : Renaming) (distinct : m.Injective) (fresh : m.Avoids t.names) :
    (t.rename m).free = t.free.map m.apply ∧ (t.rename m).rename m.inverse = t := by
  refine ⟨free_rename t fresh, ?_⟩
  calc
    (t.rename m).rename m.inverse = t.rename [] :=
      rename_rename t (Renaming.composes_inverse distinct fresh)
    _ = t := rename_of_fixes t fun _ _ => rfl

theorem shadowedUses_renamed_back :
    usesRenaming.Injective ∧ usesRenaming.Avoids shadowedUses.names ∧
      (shadowedUses.rename usesRenaming).free =
        ["arg_0__", "k", "arg_0__", "Some", "nothing", "arg_0__"] ∧
      usesRenaming.inverse = [("arg_0__", "x"), ("k", "f"), ("h", "g"), ("nothing", "None")] ∧
      (shadowedUses.rename usesRenaming).rename usesRenaming.inverse = shadowedUses := by
  have distinct : usesRenaming.Injective := by
    unfold Renaming.Injective
    decide
  have fresh : usesRenaming.Avoids shadowedUses.names := by
    change ∀ e ∈ usesRenaming,
      e.2 ∉ ["g", "x", "x", "f", "x", "x", "Some", "x", "g", "x", "None", "f", "n", "f", "x", "n"]
    decide
  obtain ⟨free, back⟩ := rename_back shadowedUses usesRenaming distinct fresh
  exact ⟨distinct, fresh, free, rfl, back⟩

end Term

end Vernacular
