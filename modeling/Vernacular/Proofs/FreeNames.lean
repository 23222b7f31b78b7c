import Vernacular.Function
import Vernacular.Proofs.Fresh
import Vernacular.Proofs.Renaming

set_option autoImplicit false

namespace Vernacular

namespace Renaming

variable {m : Renaming} {xs ys : List String}

/-- The new names are none of the given ones. -/
def Avoids (m : Renaming) (xs : List String) : Prop :=
  ∀ e ∈ m, e.2 ∉ xs

theorem avoids_append : m.Avoids (xs ++ ys) ↔ m.Avoids xs ∧ m.Avoids ys := by
  simp only [Avoids, List.mem_append, not_or, forall_and]

theorem avoids_cons {x : String} : m.Avoids (x :: xs) ↔ m.Avoids [x] ∧ m.Avoids xs :=
  @avoids_append m [x] xs

theorem Avoids.without (h : m.Avoids xs) (ys : List String) : (m.without ys).Avoids xs :=
  fun e he => h e (without_subset m ys he)

theorem Avoids.apply_not_mem (h : m.Avoids ys) {x : String} (hx : x ∉ ys) : m.apply x ∉ ys := by
  rcases apply_eq_or_mem m x with same | ⟨e, he, new⟩
  · rwa [same]
  · rw [← new]
    exact h e he

/-- Renaming first and then hiding names that are not new is hiding first. -/
theorem filter_map_without (h : m.Avoids ys) (xs : List String) :
    (xs.map (m.without ys).apply).filter (· ∉ ys) = (xs.filter (· ∉ ys)).map m.apply := by
  induction xs with
  | nil => rfl
  | cons x xs ih =>
    rw [List.map_cons, apply_without]
    by_cases hx : x ∈ ys
    · simp only [hx, if_true, List.filter_cons, not_true, decide_false, Bool.false_eq_true,
        if_false, ih]
    · have new := h.apply_not_mem hx
      simp only [hx, new, if_false, List.filter_cons, not_false_eq_true, decide_true, if_true, ih,
        List.map_cons]

theorem filter_map_without_one {y : String} (h : m.Avoids [y]) (xs : List String) :
    (xs.map (m.without [y]).apply).filter (· ≠ y) = (xs.filter (· ≠ y)).map m.apply := by
  simpa only [List.mem_singleton] using filter_map_without h xs

end Renaming

namespace Pattern

mutual

theorem constructors_rename (m : Renaming) :
    ∀ p : Pattern, (p.rename m).constructors = p.constructors.map m.apply
  | .missing => rfl
  | .wild => rfl
  | .var _ => rfl
  | .named p _ => constructors_rename m p
  | .con c ps => by simp only [rename, constructors, List.map_cons, constructorsAll_renameAll m ps]
  | .num _ => rfl
  | .str _ => rfl

theorem constructorsAll_renameAll (m : Renaming) :
    ∀ ps : List Pattern, constructorsAll (renameAll m ps) = (constructorsAll ps).map m.apply
  | [] => rfl
  | p :: ps => by
    simp only [renameAll, constructorsAll, List.map_append, constructors_rename m p,
      constructorsAll_renameAll m ps]

end

end Pattern

namespace Term

theorem append_subset_append {as bs xs ys : List String} (h : as ⊆ xs) (k : bs ⊆ ys) :
    as ++ bs ⊆ xs ++ ys :=
  List.append_subset.2
    ⟨List.Subset.trans h (List.subset_append_left xs ys),
      List.Subset.trans k (List.subset_append_right xs ys)⟩

theorem filter_subset_of_subset {p : String → Bool} {xs ys : List String} (h : xs ⊆ ys) :
    xs.filter p ⊆ ys :=
  fun _ hx => h (List.mem_of_mem_filter hx)

mutual

theorem free_subset_names : ∀ t : Term, t.free ⊆ t.names
  | .missing => List.Subset.refl _
  | .foreign _ => List.Subset.refl _
  | .var _ => List.Subset.refl _
  | .app f ts => append_subset_append (free_subset_names f) (freeAll_subset ts)
  | .lam bs t => freeUnder_subset bs (free_subset_names t)
  | .fix x bs ty t => by
    have inner := append_subset_append (freeType_subset ty) (free_subset_names t)
    have outer := freeUnder_subset bs inner
    rw [← List.append_assoc] at outer
    exact List.Subset.trans (filter_subset_of_subset outer) (List.subset_cons_self _ _)
  | .caseOf ts as => append_subset_append (freeAll_subset ts) (freeArms_subset as)
  | .num _ => List.Subset.refl _
  | .str _ => List.Subset.refl _
  | .parens t => free_subset_names t
  | .pi bs t => freeUnder_subset bs (free_subset_names t)
  | .arrow t u => append_subset_append (free_subset_names t) (free_subset_names u)
  | .ite c t u => by
    have front := append_subset_append (free_subset_names c) (free_subset_names t)
    exact append_subset_append front (free_subset_names u)
  | .letIn x bs ty v t => by
    have inner := append_subset_append (freeType_subset ty) (free_subset_names v)
    have value := freeUnder_subset bs inner
    rw [← List.append_assoc] at value
    have body : t.free.filter (· ≠ x) ⊆ t.names := filter_subset_of_subset (free_subset_names t)
    exact List.Subset.trans (append_subset_append value body) (List.subset_cons_self _ _)
  | .ascribed t u => append_subset_append (free_subset_names t) (free_subset_names u)
  | .hole => List.Subset.refl _
  | .sort _ => List.Subset.refl _

theorem freeAll_subset : ∀ ts : List Term, freeAll ts ⊆ namesAll ts
  | [] => List.Subset.refl _
  | t :: ts => append_subset_append (free_subset_names t) (freeAll_subset ts)

theorem freeType_subset : ∀ ty : Option Term, freeType ty ⊆ namesType ty
  | none => List.Subset.refl _
  | some t => free_subset_names t

theorem freeUnder_subset {inner outer : List String} :
    ∀ bs : List Binder, inner ⊆ outer → freeUnder bs inner ⊆ namesBinders bs ++ outer
  | [], h => h
  | .mk x ty i :: bs, h => by
    have rest : (freeUnder bs inner).filter (· ≠ x) ⊆ namesBinders bs ++ outer :=
      filter_subset_of_subset (freeUnder_subset bs h)
    have both := append_subset_append (freeType_subset ty) rest
    rw [← List.append_assoc] at both
    exact List.Subset.trans both (List.subset_cons_self _ _)

theorem freeArms_subset : ∀ as : List Arm, freeArms as ⊆ namesArms as
  | [] => List.Subset.refl _
  | .mk ps t :: as => by
    have body : t.free.filter (· ∉ Pattern.boundAll ps) ⊆ t.names :=
      filter_subset_of_subset (free_subset_names t)
    have arm := List.Subset.trans body (List.subset_append_right (Pattern.boundAll ps) _)
    have first := append_subset_append (List.Subset.refl (Pattern.constructorsAll ps)) arm
    rw [← List.append_assoc] at first
    exact append_subset_append first (freeArms_subset as)

end

section Rename

open Renaming (avoids_append avoids_cons filter_map_without filter_map_without_one without_cons)

mutual

/-- Renaming to names that do not occur in a term renames its free names. -/
theorem free_rename {m : Renaming} :
    ∀ t : Term, m.Avoids t.names → (t.rename m).free = t.free.map m.apply
  | .missing, _ => rfl
  | .foreign _, _ => rfl
  | .var _, _ => rfl
  | .app f ts, h => by
    obtain ⟨head, args⟩ := avoids_append.1 h
    simp only [rename, free, List.map_append, free_rename f head, freeAll_renameAll ts args]
  | .lam bs t, h => by
    obtain ⟨binders, body⟩ := avoids_append.1 h
    rw [rename, free, free_rename t (body.without _), freeUnder_renameBinders bs _ binders, free]
  | .fix x bs ty t, h => by
    obtain ⟨self, rest⟩ := avoids_cons.1 h
    obtain ⟨front, body⟩ := avoids_append.1 rest
    obtain ⟨binders, type⟩ := avoids_append.1 front
    rw [rename, free, freeType_renameType ty (type.without _), free_rename t (body.without _),
      ← List.map_append, without_cons m x (bs.map Binder.name),
      freeUnder_renameBinders bs _ (binders.without _), filter_map_without_one self, free]
  | .caseOf ts as, h => by
    obtain ⟨scrutinees, arms⟩ := avoids_append.1 h
    simp only [rename, free, List.map_append, freeAll_renameAll ts scrutinees,
      freeArms_renameArms as arms]
  | .num _, _ => rfl
  | .str _, _ => rfl
  | .parens t, h => free_rename t h
  | .pi bs t, h => by
    obtain ⟨binders, body⟩ := avoids_append.1 h
    rw [rename, free, free_rename t (body.without _), freeUnder_renameBinders bs _ binders, free]
  | .arrow t u, h => by
    obtain ⟨dom, cod⟩ := avoids_append.1 h
    simp only [rename, free, List.map_append, free_rename t dom, free_rename u cod]
  | .ite c t u, h => by
    obtain ⟨front, no⟩ := avoids_append.1 h
    obtain ⟨cond, yes⟩ := avoids_append.1 front
    simp only [rename, free, List.map_append, free_rename c cond, free_rename t yes,
      free_rename u no]
  | .letIn x bs ty v t, h => by
    obtain ⟨self, rest⟩ := avoids_cons.1 h
    obtain ⟨front, body⟩ := avoids_append.1 rest
    obtain ⟨front, value⟩ := avoids_append.1 front
    obtain ⟨binders, type⟩ := avoids_append.1 front
    rw [rename, free, freeType_renameType ty (type.without _), free_rename v (value.without _),
      ← List.map_append, freeUnder_renameBinders bs _ binders, free_rename t (body.without _),
      filter_map_without_one self, ← List.map_append, free]
  | .ascribed t u, h => by
    obtain ⟨term, type⟩ := avoids_append.1 h
    simp only [rename, free, List.map_append, free_rename t term, free_rename u type]
  | .hole, _ => rfl
  | .sort _, _ => rfl

theorem freeAll_renameAll {m : Renaming} :
    ∀ ts : List Term, m.Avoids (namesAll ts) → freeAll (renameAll m ts) = (freeAll ts).map m.apply
  | [], _ => rfl
  | t :: ts, h => by
    obtain ⟨first, rest⟩ := avoids_append.1 h
    simp only [renameAll, freeAll, List.map_append, free_rename t first, freeAll_renameAll ts rest]

theorem freeType_renameType {m : Renaming} : ∀ ty : Option Term,
    m.Avoids (namesType ty) → freeType (renameType m ty) = (freeType ty).map m.apply
  | none, _ => rfl
  | some t, h => free_rename t h

theorem freeUnder_renameBinders {m : Renaming} : ∀ (bs : List Binder) (inner : List String),
    m.Avoids (namesBinders bs) →
      freeUnder (renameBinders m bs) (inner.map (m.without (bs.map Binder.name)).apply) =
        (freeUnder bs inner).map m.apply
  | [], inner, _ => by simp only [renameBinders, freeUnder, List.map_nil, Renaming.without_nil]
  | .mk x ty i :: bs, inner, h => by
    obtain ⟨front, rest⟩ := avoids_append.1 h
    obtain ⟨self, type⟩ := avoids_cons.1 front
    rw [renameBinders, freeUnder, freeType_renameType ty type, List.map_cons, Binder.name,
      without_cons m x (bs.map Binder.name), freeUnder_renameBinders bs inner (rest.without _),
      filter_map_without_one self, ← List.map_append, freeUnder]

theorem freeArms_renameArms {m : Renaming} : ∀ as : List Arm,
    m.Avoids (namesArms as) → freeArms (renameArms m as) = (freeArms as).map m.apply
  | [], _ => rfl
  | .mk ps t :: as, h => by
    obtain ⟨front, rest⟩ := avoids_append.1 h
    obtain ⟨front, body⟩ := avoids_append.1 front
    obtain ⟨-, bound⟩ := avoids_append.1 front
    rw [renameArms, freeArms, Pattern.boundAll_renameAll, Pattern.constructorsAll_renameAll,
      free_rename t (body.without _), filter_map_without bound, freeArms_renameArms as rest,
      ← List.map_append, ← List.map_append, freeArms]

end

end Rename

theorem freeAll_eq (ts : List Term) : freeAll ts = ts.flatMap free := by
  induction ts with
  | nil => rfl
  | cons t ts ih => rw [freeAll, ih, List.flatMap_cons]

theorem mem_freeAll {x : String} {ts : List Term} : x ∈ freeAll ts ↔ ∃ t ∈ ts, x ∈ t.free := by
  rw [freeAll_eq, List.mem_flatMap]

theorem mem_freeArms {x : String} {arms : List Arm} :
    x ∈ freeArms arms ↔ ∃ a ∈ arms,
      x ∈ Pattern.constructorsAll a.patterns ∨
        x ∈ a.body.free ∧ x ∉ Pattern.boundAll a.patterns := by
  induction arms with
  | nil => simp [freeArms]
  | cons a arms ih =>
    obtain ⟨ps, t⟩ := a
    rw [List.exists_mem_cons_iff, freeArms, List.mem_append, List.mem_append, ih]
    simp [Arm.patterns, Arm.body]

theorem mem_free_apply {x : String} {f : Term} {args : List Term} :
    x ∈ (f.apply args).free ↔ x ∈ f.free ∨ x ∈ freeAll args := by
  unfold apply
  split
  · simp [freeAll]
  · simp [free, mem_freeAll, or_assoc, or_and_right, exists_or]
  · simp [free]

theorem mem_freeUnder_untyped {x : String} {bs : List Binder} {inner : List String}
    (untyped : ∀ b ∈ bs, b.type = none) :
    x ∈ freeUnder bs inner ↔ x ∈ inner ∧ x ∉ bs.map Binder.name := by
  induction bs with
  | nil => simp [freeUnder]
  | cons b bs ih =>
    obtain ⟨y, ty, i⟩ := b
    obtain ⟨rfl, rest⟩ := List.forall_mem_cons.1 untyped
    rw [freeUnder, freeType, List.nil_append, List.mem_filter, ih rest]
    simp only [decide_eq_true_eq, List.map_cons, Binder.name, List.mem_cons, not_or, and_assoc]
    exact and_congr_right fun _ => and_comm

theorem mem_freeUnder_plain {x : String} {args inner : List String} :
    x ∈ freeUnder (args.map .plain) inner ↔ x ∈ inner ∧ x ∉ args := by
  rw [mem_freeUnder_untyped (by simp [Binder.plain, Binder.type]), List.map_map]
  simp [Function.comp_def, Binder.plain, Binder.name]

end Term

namespace Definition

def free (d : Definition) : List String :=
  Term.freeUnder d.binders (Term.freeType d.type ++ d.body.free)

/-- A name that no definition of a nest has is free in it if it is so in a value or the body. -/
theorem mem_free_nest {x : String} {ds : List Definition} {body : Term} (hx : x ∉ ds.map name) :
    x ∈ (ds.foldr letIn body).free ↔ (∃ d ∈ ds, x ∈ d.free) ∨ x ∈ body.free := by
  induction ds with
  | nil => simp
  | cons d ds ih =>
    simp only [List.map_cons, List.mem_cons, not_or] at hx
    rw [List.foldr_cons, letIn, Term.free, List.mem_append, List.mem_filter, ih hx.2]
    simp [free, hx.1, or_assoc]

end Definition

theorem variableRenaming?_spec {ps : List Pattern} {args : List String} {m : Renaming}
    (h : variableRenaming? ps args = some m) :
    Pattern.constructorsAll ps = [] ∧ (∀ e ∈ m, e.2 ∈ args) ∧
      ∀ x, x ∈ m.map Prod.fst ↔ x ∈ Pattern.boundAll ps := by
  fun_induction variableRenaming? ps args generalizing m with
  | case1 =>
    cases h
    simp [Pattern.constructorsAll, Pattern.boundAll]
  | case2 x ps a as ih =>
    obtain ⟨n, found, rfl⟩ := Option.map_eq_some_iff.1 h
    obtain ⟨none, values, keys⟩ := ih found
    refine ⟨none, fun e he => ?_, fun y => ?_⟩
    · rcases List.mem_append.1 he with he | he
      · exact List.mem_cons_of_mem _ (values e he)
      · rw [List.mem_singleton.1 he]
        exact List.mem_cons_self ..
    · rw [List.map_append, List.mem_append, keys, or_comm]
      simp [Pattern.boundAll, Pattern.bound]
  | case3 ps a as ih =>
    obtain ⟨none, values, keys⟩ := ih h
    exact ⟨none, fun e he => List.mem_cons_of_mem _ (values e he), keys⟩
  | case4 => cases h

namespace FunctionLiteral

open Term

theorem argumentsFor_not_mem {a : String} {arms : List Arm} (h : a ∈ argumentsFor arms) :
    a ∉ namesArms arms :=
  not_mem_of_mem_freshArguments h

theorem mem_free_bodyFor {args : List String} {arms : List Arm} {x : String}
    (unused : ∀ a ∈ args, a ∉ namesArms arms) (hx : x ∉ args) :
    x ∈ (bodyFor args arms).free ↔ x ∈ freeArms arms := by
  have general : x ∈ (Term.caseOf (args.map .var) arms).free ↔ x ∈ freeArms arms := by
    simp [free, mem_freeAll, hx]
  unfold bodyFor
  split
  · rename_i ps body
    split
    · rename_i m found
      obtain ⟨none, values, keys⟩ := variableRenaming?_spec found
      have avoids : m.Avoids body.names := fun e he used =>
        unused e.2 (values e he) (by simp [namesArms, used])
      simp only [free_rename body avoids, freeArms, none, List.nil_append, List.append_nil,
        List.mem_map, List.mem_filter, decide_eq_true_eq]
      constructor
      · -- what the renaming moves becomes an argument, and `x` is none
        rintro ⟨z, hz, rfl⟩
        have outside : z ∉ Pattern.boundAll ps := by
          intro bound
          obtain ⟨e, he, new⟩ := Renaming.apply_of_mem ((keys z).2 bound)
          exact hx (new ▸ values e he)
        rw [Renaming.apply_of_not_mem (mt (keys z).1 outside)]
        exact ⟨hz, outside⟩
      · rintro ⟨hz, outside⟩
        exact ⟨x, hz, Renaming.apply_of_not_mem (mt (keys x).1 outside)⟩
    · exact general
  · exact general

/-- The arguments of a function literal capture nothing and do not leak. -/
theorem mem_free_ofArms {x : String} {arms : List Arm} :
    x ∈ (ofArms arms).term.free ↔ x ∈ freeArms arms := by
  have unused : ∀ a ∈ argumentsFor arms, a ∉ namesArms arms := fun a => argumentsFor_not_mem
  rw [term, ofArms, free, mem_freeUnder_plain]
  constructor
  · rintro ⟨inside, hx⟩
    exact (mem_free_bodyFor unused hx).1 inside
  · intro inside
    have hx : x ∉ argumentsFor arms := fun h => unused x h (freeArms_subset arms inside)
    exact ⟨(mem_free_bodyFor unused hx).2 inside, hx⟩

theorem mem_free_recursive {x name : String} {f : FunctionLiteral} :
    x ∈ (f.recursive name).free ↔ x ∈ f.term.free ∧ x ≠ name := by
  unfold recursive
  split
  · simp [free, freeType, term]
  · rename_i absent
    exact ⟨fun hx => ⟨hx, fun eq => absent (eq ▸ hx)⟩, And.left⟩

end FunctionLiteral

end Vernacular
