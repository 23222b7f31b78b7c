import Vernacular.Proofs.BoundNames
import Vernacular.Proofs.FreeNames

set_option autoImplicit false

namespace Vernacular

/-- The same reference, with an outer name replaced. -/
def Reference.map (f : String → String) : Reference → Reference
  | .bound i => .bound i
  | .free x => .free (f x)

theorem Reference.map_shift (f : String → String) (r : Reference) :
    r.shift.map f = (r.map f).shift := by
  cases r <;> rfl

namespace NamelessPattern

mutual

def map (f : String → String) : NamelessPattern → NamelessPattern
  | .missing => .missing
  | .wild => .wild
  | .var => .var
  | .named p => .named (p.map f)
  | .con c ps => .con (c.map f) (mapAll f ps)
  | .num n => .num n
  | .str s => .str s

def mapAll (f : String → String) : List NamelessPattern → List NamelessPattern
  | [] => []
  | p :: ps => p.map f :: mapAll f ps

end

end NamelessPattern

namespace Nameless

mutual

/-- Replaces the names from outside in a nameless term. There is nothing to hide from this: what is
bound has no name. -/
def map (f : String → String) : Nameless → Nameless
  | .missing => .missing
  | .foreign kind => .foreign kind
  | .ref r => .ref (r.map f)
  | .app t ts => .app (t.map f) (mapAll f ts)
  | .lam bs t => .lam (mapBinders f bs) (t.map f)
  | .fix bs ty t => .fix (mapBinders f bs) (mapType f ty) (t.map f)
  | .caseOf ts as => .caseOf (mapAll f ts) (mapArms f as)
  | .num n => .num n
  | .str s => .str s
  | .parens t => .parens (t.map f)
  | .pi bs t => .pi (mapBinders f bs) (t.map f)
  | .arrow t u => .arrow (t.map f) (u.map f)
  | .ite c t u => .ite (c.map f) (t.map f) (u.map f)
  | .letIn bs ty v t => .letIn (mapBinders f bs) (mapType f ty) (v.map f) (t.map f)
  | .ascribed t u => .ascribed (t.map f) (u.map f)
  | .hole => .hole
  | .sort s => .sort s

def mapAll (f : String → String) : List Nameless → List Nameless
  | [] => []
  | t :: ts => t.map f :: mapAll f ts

def mapType (f : String → String) : Option Nameless → Option Nameless
  | none => none
  | some t => some (t.map f)

def mapBinders (f : String → String) : List NamelessBinder → List NamelessBinder
  | [] => []
  | .mk ty i :: bs => .mk (mapType f ty) i :: mapBinders f bs

def mapArms (f : String → String) : List NamelessArm → List NamelessArm
  | [] => []
  | .mk ps t :: as => .mk (NamelessPattern.mapAll f ps) (t.map f) :: mapArms f as

end

end Nameless

namespace Scope

def map (f : String → String) (ρ : Scope) : Scope :=
  fun x => (ρ x).map f

variable (f : String → String)

theorem bind_map (ρ : Scope) (y : String) : (ρ.map f).bind y = (ρ.bind y).map f := by
  funext x
  by_cases h : x = y
  · simp [bind, map, h, Reference.map]
  · simp [bind, map, h, Reference.map_shift]

theorem binds_map (ρ : Scope) (ys : List String) : (ρ.map f).binds ys = (ρ.binds ys).map f := by
  induction ys generalizing ρ with
  | nil => rfl
  | cons y ys ih =>
    change ((ρ.map f).bind y).binds ys = ((ρ.bind y).binds ys).map f
    rw [bind_map, ih]

end Scope

namespace Pattern

variable (f : String → String) (ρ : Scope)

mutual

theorem nameless_map : ∀ p : Pattern, p.nameless (ρ.map f) = (p.nameless ρ).map f
  | .missing => rfl
  | .wild => rfl
  | .var _ => rfl
  | .named p _ => congrArg NamelessPattern.named (nameless_map p)
  | .con _ ps => congrArg (NamelessPattern.con _) (namelessAll_map ps)
  | .num _ => rfl
  | .str _ => rfl

theorem namelessAll_map : ∀ ps : List Pattern,
    namelessAll (ρ.map f) ps = NamelessPattern.mapAll f (namelessAll ρ ps)
  | [] => rfl
  | p :: ps => by
    simp only [namelessAll, NamelessPattern.mapAll, nameless_map p, namelessAll_map ps]

end

end Pattern

namespace Term

open Scope (bind_map binds_map)

section Map

variable (f : String → String)

mutual

/-- The nameless form in a scope with other outer names. -/
theorem nameless_map : ∀ (t : Term) (ρ : Scope), t.nameless (ρ.map f) = (t.nameless ρ).map f
  | .missing, _ => rfl
  | .foreign _, _ => rfl
  | .var _, _ => rfl
  | .app t ts, ρ => by
    simp only [nameless, Nameless.map, nameless_map t, namelessAll_map ts]
  | .lam bs t, ρ => by
    simp only [nameless, Nameless.map, binds_map, namelessBinders_map bs, nameless_map t]
  | .fix x bs ty t, ρ => by
    simp only [nameless, Nameless.map, bind_map, binds_map, namelessBinders_map bs,
      namelessType_map ty, nameless_map t]
  | .caseOf ts as, ρ => by
    simp only [nameless, Nameless.map, namelessAll_map ts, namelessArms_map as]
  | .num _, _ => rfl
  | .str _, _ => rfl
  | .parens t, ρ => congrArg Nameless.parens (nameless_map t ρ)
  | .pi bs t, ρ => by
    simp only [nameless, Nameless.map, binds_map, namelessBinders_map bs, nameless_map t]
  | .arrow t u, ρ => by simp only [nameless, Nameless.map, nameless_map t, nameless_map u]
  | .ite c t u, ρ => by
    simp only [nameless, Nameless.map, nameless_map c, nameless_map t, nameless_map u]
  | .letIn x bs ty v t, ρ => by
    simp only [nameless, Nameless.map, bind_map, binds_map, namelessBinders_map bs,
      namelessType_map ty, nameless_map v, nameless_map t]
  | .ascribed t u, ρ => by simp only [nameless, Nameless.map, nameless_map t, nameless_map u]
  | .hole, _ => rfl
  | .sort _, _ => rfl

theorem namelessAll_map : ∀ (ts : List Term) (ρ : Scope),
    namelessAll (ρ.map f) ts = Nameless.mapAll f (namelessAll ρ ts)
  | [], _ => rfl
  | t :: ts, ρ => by
    simp only [namelessAll, Nameless.mapAll, nameless_map t, namelessAll_map ts]

theorem namelessType_map : ∀ (ty : Option Term) (ρ : Scope),
    namelessType (ρ.map f) ty = Nameless.mapType f (namelessType ρ ty)
  | none, _ => rfl
  | some t, ρ => congrArg some (nameless_map t ρ)

theorem namelessBinders_map : ∀ (bs : List Binder) (ρ : Scope),
    namelessBinders (ρ.map f) bs = Nameless.mapBinders f (namelessBinders ρ bs)
  | [], _ => rfl
  | .mk x ty i :: bs, ρ => by
    simp only [namelessBinders, Nameless.mapBinders, bind_map, namelessType_map ty,
      namelessBinders_map bs]

theorem namelessArms_map : ∀ (as : List Arm) (ρ : Scope),
    namelessArms (ρ.map f) as = Nameless.mapArms f (namelessArms ρ as)
  | [], _ => rfl
  | .mk ps t :: as, ρ => by
    simp only [namelessArms, Nameless.mapArms, binds_map, Pattern.namelessAll_map,
      nameless_map t, namelessArms_map as]

end

end Map

/-- In nameless form, renaming to fresh names replaces the outer names. -/
theorem nameless_rename_outside {m : Renaming} {t : Term} (fresh : m.Avoids t.names) :
    (t.rename m).nameless .outside = (t.nameless .outside).map m.apply := by
  -- seen from outside, a renamed name stands for its new name, and no new name is in the way
  have carries : m.Carries (Scope.outside.map m.apply) .outside t.names :=
    ⟨fun _ _ => rfl, fun x hx e he same => fresh e he (same ▸ hx)⟩
  rw [nameless_rename t carries, nameless_map]

section Children

/-- What is collected from the parts of a term is the same after renaming if renaming does not
change what each part gives. -/
theorem flatMap_of_renamedTo {α : Type} {f : Term → List α} {ts us : List Term}
    (h : List.Forall₂ RenamedTo ts us) (keeps : ∀ t ∈ ts, ∀ m, f (t.rename m) = f t) :
    us.flatMap f = ts.flatMap f := by
  induction h with
  | nil => rfl
  | @cons t u ts us first _ ih =>
    obtain ⟨m, rfl⟩ := first
    obtain ⟨here, later⟩ := List.forall_mem_cons.1 keeps
    rw [List.flatMap_cons, List.flatMap_cons, here m, ih later]

theorem boundNames_eq (t : Term) : t.boundNames = t.binds ++ t.children.flatMap boundNames := by
  rw [boundNames, subterms_eq, List.flatMap_cons, List.flatMap_assoc]
  rfl

theorem boundNames_rename (m : Renaming) (t : Term) : (t.rename m).boundNames = t.boundNames := by
  induction t using induction_children generalizing m with
  | step t ih =>
    rw [boundNames_eq, boundNames_eq t, binds_rename,
      flatMap_of_renamedTo (children_rename m t) ih]

end Children

end Term

namespace Renaming

variable {m : Renaming} {xs ys : List String}

def Fixes (m : Renaming) (xs : List String) : Prop :=
  ∀ x ∈ xs, m.apply x = x

theorem fixes_append : m.Fixes (xs ++ ys) ↔ m.Fixes xs ∧ m.Fixes ys :=
  List.forall_mem_append

theorem fixes_of_keys (h : ∀ x ∈ m.map Prod.fst, x ∉ xs) : m.Fixes xs :=
  fun x hx => apply_of_not_mem fun key => h x key hx

/-- Names that are hidden from a renaming need not be left alone by it. -/
theorem Fixes.without (h : m.Fixes (xs.filter (· ∉ ys))) : (m.without ys).Fixes xs := by
  intro x hx
  rw [apply_without]
  split
  · rfl
  · rename_i shown
    exact h x (List.mem_filter.2 ⟨hx, decide_eq_true shown⟩)

theorem Fixes.without_one {y : String} (h : m.Fixes (xs.filter (· ≠ y))) :
    (m.without [y]).Fixes xs :=
  Fixes.without (by simpa only [List.mem_singleton] using h)

theorem Fixes.under {bs : List Binder} (h : m.Fixes (Term.freeUnder bs xs)) :
    (m.without (bs.map Binder.name)).Fixes xs := by
  induction bs generalizing m with
  | nil => rwa [List.map_nil, without_nil]
  | cons b bs ih =>
    obtain ⟨x, ty, i⟩ := b
    rw [List.map_cons, Binder.name, without_cons]
    exact ih (fixes_append.1 h).2.without_one

end Renaming

namespace Pattern

mutual

theorem rename_of_fixes {m : Renaming} : ∀ p : Pattern, m.Fixes p.constructors → p.rename m = p
  | .missing, _ => rfl
  | .wild, _ => rfl
  | .var _, _ => rfl
  | .named p _, h => by rw [rename, rename_of_fixes p h]
  | .con c ps, h => by
    obtain ⟨head, args⟩ := List.forall_mem_cons.1 h
    rw [rename, head, renameAll_of_fixes ps args]
  | .num _, _ => rfl
  | .str _, _ => rfl

theorem renameAll_of_fixes {m : Renaming} :
    ∀ ps : List Pattern, m.Fixes (constructorsAll ps) → renameAll m ps = ps
  | [], _ => rfl
  | p :: ps, h => by
    obtain ⟨first, rest⟩ := Renaming.fixes_append.1 h
    rw [renameAll, rename_of_fixes p first, renameAll_of_fixes ps rest]

end

end Pattern

namespace Term

open Renaming (fixes_append without_cons)

mutual

theorem rename_of_fixes {m : Renaming} : ∀ t : Term, m.Fixes t.free → t.rename m = t
  | .missing, _ => rfl
  | .foreign _, _ => rfl
  | .var x, h => by rw [rename, h x (List.mem_singleton_self x)]
  | .app f ts, h => by
    obtain ⟨head, args⟩ := fixes_append.1 h
    rw [rename, rename_of_fixes f head, renameAll_of_fixes ts args]
  | .lam bs t, h => by
    rw [rename, renameBinders_of_fixes bs h, rename_of_fixes t h.under]
  | .fix x bs ty t, h => by
    have inside : (m.without [x]).Fixes (freeUnder bs (freeType ty ++ t.free)) := h.without_one
    obtain ⟨type, body⟩ := fixes_append.1 inside.under
    rw [rename, without_cons m x (bs.map Binder.name), renameBinders_of_fixes bs inside,
      renameType_of_fixes ty type, rename_of_fixes t body]
  | .caseOf ts as, h => by
    obtain ⟨scrutinees, arms⟩ := fixes_append.1 h
    rw [rename, renameAll_of_fixes ts scrutinees, renameArms_of_fixes as arms]
  | .num _, _ => rfl
  | .str _, _ => rfl
  | .parens t, h => by rw [rename, rename_of_fixes t h]
  | .pi bs t, h => by
    rw [rename, renameBinders_of_fixes bs h, rename_of_fixes t h.under]
  | .arrow t u, h => by
    obtain ⟨dom, cod⟩ := fixes_append.1 h
    rw [rename, rename_of_fixes t dom, rename_of_fixes u cod]
  | .ite c t u, h => by
    obtain ⟨front, no⟩ := fixes_append.1 h
    obtain ⟨cond, yes⟩ := fixes_append.1 front
    rw [rename, rename_of_fixes c cond, rename_of_fixes t yes, rename_of_fixes u no]
  | .letIn x bs ty v t, h => by
    obtain ⟨front, body⟩ := fixes_append.1 h
    obtain ⟨type, value⟩ := fixes_append.1 front.under
    rw [rename, renameBinders_of_fixes bs front, renameType_of_fixes ty type,
      rename_of_fixes v value, rename_of_fixes t body.without_one]
  | .ascribed t u, h => by
    obtain ⟨term, type⟩ := fixes_append.1 h
    rw [rename, rename_of_fixes t term, rename_of_fixes u type]
  | .hole, _ => rfl
  | .sort _, _ => rfl

theorem renameAll_of_fixes {m : Renaming} :
    ∀ ts : List Term, m.Fixes (freeAll ts) → renameAll m ts = ts
  | [], _ => rfl
  | t :: ts, h => by
    obtain ⟨first, rest⟩ := fixes_append.1 h
    rw [renameAll, rename_of_fixes t first, renameAll_of_fixes ts rest]

theorem renameType_of_fixes {m : Renaming} :
    ∀ ty : Option Term, m.Fixes (freeType ty) → renameType m ty = ty
  | none, _ => rfl
  | some t, h => congrArg some (rename_of_fixes t h)

theorem renameBinders_of_fixes {m : Renaming} {inner : List String} :
    ∀ bs : List Binder, m.Fixes (freeUnder bs inner) → renameBinders m bs = bs
  | [], _ => rfl
  | .mk x ty i :: bs, h => by
    obtain ⟨type, rest⟩ := fixes_append.1 h
    rw [renameBinders, renameType_of_fixes ty type, renameBinders_of_fixes bs rest.without_one]

theorem renameArms_of_fixes {m : Renaming} :
    ∀ as : List Arm, m.Fixes (freeArms as) → renameArms m as = as
  | [], _ => rfl
  | .mk ps t :: as, h => by
    obtain ⟨front, rest⟩ := fixes_append.1 h
    obtain ⟨patterns, body⟩ := fixes_append.1 front
    rw [renameArms, Pattern.renameAll_of_fixes ps patterns, rename_of_fixes t body.without,
      renameArms_of_fixes as rest]

end

/-- Renaming to names that do not occur in a term replaces its free names, those of constructors in
patterns included, and changes nothing else in its nameless form. Whatever the new names are, the
binders keep their names, and a term in which no old name is free is left as it is. -/
theorem rename_replaces_free (t : Term) (m : Renaming) :
    (m.Avoids t.names →
      (t.rename m).nameless .outside = (t.nameless .outside).map m.apply ∧
        (t.rename m).free = t.free.map m.apply) ∧
      (t.rename m).boundNames = t.boundNames ∧
        ((∀ x ∈ m.map Prod.fst, x ∉ t.free) → t.rename m = t) := by
  refine ⟨fun fresh => ⟨nameless_rename_outside fresh, free_rename t fresh⟩,
    boundNames_rename m t, fun unused => ?_⟩
  exact rename_of_fixes t (Renaming.fixes_of_keys unused)

def shadowedUses : Term :=
  .letIn "g" [.mk "x" (some (.var "x")) false] none (.app (.var "f") [.var "x"])
    (.caseOf [.var "x"]
      [.mk [.con "Some" [.var "x"]] (.app (.var "g") [.var "x"]),
        .mk [.con "None" []] (.fix "f" [.plain "n"] none (.app (.var "f") [.var "x", .var "n"]))])

def usesRenaming : Renaming :=
  [("x", "arg_0__"), ("f", "k"), ("g", "h"), ("None", "nothing")]

theorem shadowedUses_renamed :
    usesRenaming.Avoids shadowedUses.names ∧
      (shadowedUses.rename usesRenaming).print =
        "let g (x : arg_0__) := k x in match arg_0__ with | Some x => g x | nothing => " ++
          "fix f n := f arg_0__ n end" ∧
      (shadowedUses.rename usesRenaming).nameless .outside =
        (shadowedUses.nameless .outside).map usesRenaming.apply ∧
      (shadowedUses.rename usesRenaming).free =
        ["arg_0__", "k", "arg_0__", "Some", "nothing", "arg_0__"] ∧
      (shadowedUses.rename usesRenaming).boundNames = ["g", "x", "x", "f", "n"] ∧
      "n" ∉ shadowedUses.free ∧ shadowedUses.rename [("n", "x")] = shadowedUses := by
  have fresh : usesRenaming.Avoids shadowedUses.names := by
    change ∀ e ∈ usesRenaming,
      e.2 ∉ ["g", "x", "x", "f", "x", "x", "Some", "x", "g", "x", "None", "f", "n", "f", "x", "n"]
    decide
  have bound : "n" ∉ shadowedUses.free := by
    change "n" ∉ ["x", "f", "x", "Some", "None", "x"]
    decide
  obtain ⟨renamed, binders, -⟩ := rename_replaces_free shadowedUses usesRenaming
  obtain ⟨-, -, unused⟩ := rename_replaces_free shadowedUses [("n", "x")]
  obtain ⟨form, free⟩ := renamed fresh
  exact ⟨fresh, rfl, form, free, binders, bound, unused (List.forall_mem_singleton.2 bound)⟩

end Term

end Vernacular
