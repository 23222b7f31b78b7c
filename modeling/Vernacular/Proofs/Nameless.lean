import Mathlib.Logic.Function.Iterate
import Vernacular.Proofs.Renaming

/-!
Terms without the names of their binders: each identifier is resolved to the binder it stands for,
or is left as a name from outside. Renaming with names that do not occur in a term changes no more
of this form than what the scope outside says about the renamed names.
-/

set_option autoImplicit false

namespace Vernacular

/-- What an identifier stands for: the binder with so many others between, or an outer name. -/
inductive Reference where
  | bound (index : Nat)
  | free (name : String)
deriving DecidableEq

def Reference.shift : Reference → Reference
  | .bound i => .bound (i + 1)
  | .free x => .free x

theorem Reference.shift_injective : Function.Injective shift := by
  intro r s h
  cases r <;> cases s <;> simp_all [shift]

/-- A reference from under `n` more binders is to none of these. -/
theorem Reference.shift_iterate_ne {n i : Nat} (h : i < n) (r : Reference) :
    shift^[n] r ≠ .bound i := by
  induction n generalizing i with
  | zero => omega
  | succ n ih =>
    rw [Function.iterate_succ_apply']
    cases inner : shift^[n] r with
    | free x => simp [shift]
    | bound j =>
      rw [shift, ne_eq, Reference.bound.injEq]
      rintro rfl
      exact ih (Nat.lt_of_succ_lt_succ h) inner

abbrev Scope := String → Reference

namespace Scope

def outside : Scope :=
  .free

def bind (ρ : Scope) (y : String) : Scope :=
  fun x => if x = y then .bound 0 else (ρ x).shift

/-- The scope under binders of which the last one is the innermost. -/
def binds (ρ : Scope) (ys : List String) : Scope :=
  ys.foldl bind ρ

theorem bind_self (ρ : Scope) (x : String) : ρ.bind x x = .bound 0 :=
  if_pos rfl

theorem bind_of_ne (ρ : Scope) {x y : String} (h : x ≠ y) : ρ.bind y x = (ρ x).shift :=
  if_neg h

theorem binds_of_not_mem (ρ : Scope) {x : String} {ys : List String} (h : x ∉ ys) :
    ρ.binds ys x = Reference.shift^[ys.length] (ρ x) := by
  induction ys generalizing ρ with
  | nil => rfl
  | cons y ys ih =>
    obtain ⟨other, later⟩ := not_or.1 (mt List.mem_cons.2 h)
    change (ρ.bind y).binds ys x = _
    rw [ih _ later, bind_of_ne ρ other, List.length_cons, Function.iterate_succ_apply]

/-- A name among those that are bound stands for one of the binders, whatever it stands for
outside. -/
theorem binds_of_mem {x : String} {ys : List String} (h : x ∈ ys) :
    ∃ i < ys.length, ∀ ρ : Scope, ρ.binds ys x = .bound i := by
  induction ys with
  | nil => cases h
  | cons y ys ih =>
    by_cases later : x ∈ ys
    · obtain ⟨i, bounded, found⟩ := ih later
      exact ⟨i, Nat.lt_succ_of_lt bounded, fun ρ => found (ρ.bind y)⟩
    · obtain rfl := (List.mem_cons.1 h).resolve_right later
      have innermost : ∀ n, Reference.shift^[n] (.bound 0) = .bound n := by
        intro n
        induction n with
        | zero => rfl
        | succ n ih => rw [Function.iterate_succ_apply', ih, Reference.shift]
      refine ⟨ys.length, Nat.lt_succ_self _, fun ρ => ?_⟩
      change (ρ.bind x).binds ys x = _
      rw [binds_of_not_mem _ later, bind_self, innermost]

/-- Names stand for the same under some binders iff they do outside and none is bound there. -/
theorem binds_eq_iff {ρ ρ' : Scope} {x z : String} {ys : List String} (h : x ∉ ys) :
    ρ'.binds ys z = ρ.binds ys x ↔ z ∉ ys ∧ ρ' z = ρ x := by
  rw [binds_of_not_mem ρ h]
  by_cases hidden : z ∈ ys
  · obtain ⟨i, bounded, found⟩ := binds_of_mem hidden
    simp only [found, hidden, not_true_eq_false, false_and, iff_false]
    exact (Reference.shift_iterate_ne bounded _).symm
  · rw [binds_of_not_mem ρ' hidden, (Reference.shift_injective.iterate _).eq_iff]
    simp only [hidden, not_false_eq_true, true_and]

theorem binds_singleton (ρ : Scope) (y : String) : ρ.binds [y] = ρ.bind y :=
  rfl

theorem binds_append (ρ : Scope) (ys zs : List String) :
    ρ.binds (ys ++ zs) = (ρ.binds ys).binds zs :=
  List.foldl_append

end Scope

inductive NamelessPattern where
  | missing
  | wild
  | var
  | named (pattern : NamelessPattern)
  | con (head : Reference) (args : List NamelessPattern)
  | num (value : Option Int)
  | str (value : String)

mutual

inductive Nameless where
  | missing
  | foreign (kind : String)
  | ref (reference : Reference)
  | app (head : Nameless) (args : List Nameless)
  | lam (binders : List NamelessBinder) (body : Nameless)
  | fix (binders : List NamelessBinder) (type : Option Nameless) (body : Nameless)
  | caseOf (scrutinees : List Nameless) (arms : List NamelessArm)
  | num (value : Option Int)
  | str (value : String)
  | parens (term : Nameless)
  | pi (binders : List NamelessBinder) (body : Nameless)
  | arrow (dom cod : Nameless)
  | ite (cond yes no : Nameless)
  | letIn (binders : List NamelessBinder) (type : Option Nameless) (value body : Nameless)
  | ascribed (term type : Nameless)
  | hole
  | sort (name : String)

inductive NamelessBinder where
  | mk (type : Option Nameless) (implicit : Bool)

inductive NamelessArm where
  | mk (patterns : List NamelessPattern) (body : Nameless)

end

namespace Pattern

mutual

def nameless (ρ : Scope) : Pattern → NamelessPattern
  | .missing => .missing
  | .wild => .wild
  | .var _ => .var
  | .named p _ => .named (p.nameless ρ)
  | .con c ps => .con (ρ c) (namelessAll ρ ps)
  | .num n => .num n
  | .str s => .str s

def namelessAll (ρ : Scope) : List Pattern → List NamelessPattern
  | [] => []
  | p :: ps => p.nameless ρ :: namelessAll ρ ps

end

end Pattern

namespace Term

mutual

def nameless (ρ : Scope) : Term → Nameless
  | .missing => .missing
  | .foreign kind => .foreign kind
  | .var x => .ref (ρ x)
  | .app f ts => .app (f.nameless ρ) (namelessAll ρ ts)
  | .lam bs t => .lam (namelessBinders ρ bs) (t.nameless (ρ.binds (bs.map Binder.name)))
  | .fix x bs ty t =>
    .fix (namelessBinders (ρ.bind x) bs)
      (namelessType (ρ.binds (x :: bs.map Binder.name)) ty)
      (t.nameless (ρ.binds (x :: bs.map Binder.name)))
  | .caseOf ts as => .caseOf (namelessAll ρ ts) (namelessArms ρ as)
  | .num n => .num n
  | .str s => .str s
  | .parens t => .parens (t.nameless ρ)
  | .pi bs t => .pi (namelessBinders ρ bs) (t.nameless (ρ.binds (bs.map Binder.name)))
  | .arrow t u => .arrow (t.nameless ρ) (u.nameless ρ)
  | .ite c t u => .ite (c.nameless ρ) (t.nameless ρ) (u.nameless ρ)
  | .letIn x bs ty v t =>
    .letIn (namelessBinders ρ bs) (namelessType (ρ.binds (bs.map Binder.name)) ty)
      (v.nameless (ρ.binds (bs.map Binder.name))) (t.nameless (ρ.bind x))
  | .ascribed t u => .ascribed (t.nameless ρ) (u.nameless ρ)
  | .hole => .hole
  | .sort s => .sort s

def namelessAll (ρ : Scope) : List Term → List Nameless
  | [] => []
  | t :: ts => t.nameless ρ :: namelessAll ρ ts

def namelessType (ρ : Scope) : Option Term → Option Nameless
  | none => none
  | some t => some (t.nameless ρ)

/-- The nameless form of a telescope, in which each type sees the binders before it. -/
def namelessBinders (ρ : Scope) : List Binder → List NamelessBinder
  | [] => []
  | .mk x ty i :: bs => .mk (namelessType ρ ty) i :: namelessBinders (ρ.bind x) bs

def namelessArms (ρ : Scope) : List Arm → List NamelessArm
  | [] => []
  | .mk ps t :: as =>
    .mk (Pattern.namelessAll ρ ps) (t.nameless (ρ.binds (Pattern.boundAll ps))) ::
      namelessArms ρ as

end

end Term

/-- A renaming that, on some names, takes one scope to another and gives no name among them. -/
structure Renaming.Carries (m : Renaming) (ρ ρ' : Scope) (names : List String) : Prop where
  resolved : ∀ x ∈ names, ρ' (m.apply x) = ρ x
  fresh : ∀ x ∈ names, ∀ e ∈ m, e.2 ≠ x

namespace Renaming.Carries

variable {m : Renaming} {ρ ρ' : Scope} {names : List String}

theorem subset {names' : List String} (h : m.Carries ρ ρ' names) (sub : names' ⊆ names) :
    m.Carries ρ ρ' names' :=
  ⟨fun x hx => h.resolved x (sub hx), fun x hx => h.fresh x (sub hx)⟩

theorem bind (h : m.Carries ρ ρ' names) {y : String} (hy : y ∈ names) :
    (m.without [y]).Carries (ρ.bind y) (ρ'.bind y) names where
  resolved x hx := by
    rw [apply_without]
    by_cases same : x = y
    · simp [Scope.bind, same]
    · have apart : m.apply x ≠ y := by
        rcases m.apply_eq_or_mem x with keep | ⟨e, he, eq⟩
        · rwa [keep]
        · exact eq ▸ h.fresh y hy e he
      simp [Scope.bind, same, apart, h.resolved x hx]
  fresh x hx e he := h.fresh x hx e (without_subset _ _ he)

theorem binds {ys : List String} (h : m.Carries ρ ρ' names) (hys : ys ⊆ names) :
    (m.without ys).Carries (ρ.binds ys) (ρ'.binds ys) names := by
  induction ys generalizing m ρ ρ' with
  | nil => simpa [without, Scope.binds] using h
  | cons y ys ih =>
    rw [without_cons]
    exact ih (h.bind (hys (List.mem_cons_self ..))) fun x hx => hys (List.mem_cons_of_mem _ hx)

end Renaming.Carries

open Renaming

namespace Pattern

mutual

theorem nameless_rename {m : Renaming} {ρ ρ' : Scope} :
    ∀ p : Pattern, m.Carries ρ ρ' p.constructors → (p.rename m).nameless ρ' = p.nameless ρ
  | .missing, _ => rfl
  | .wild, _ => rfl
  | .var _, _ => rfl
  | .named p _, h => congrArg NamelessPattern.named (nameless_rename p h)
  | .con c ps, h => by
    have head : ρ' (m.apply c) = ρ c := h.resolved c (List.mem_cons_self ..)
    have args := namelessAll_rename ps (h.subset fun _ hx => List.mem_cons_of_mem _ hx)
    simp only [rename, nameless, head, args]
  | .num _, _ => rfl
  | .str _, _ => rfl

theorem namelessAll_rename {m : Renaming} {ρ ρ' : Scope} :
    ∀ ps : List Pattern, m.Carries ρ ρ' (constructorsAll ps) →
      namelessAll ρ' (renameAll m ps) = namelessAll ρ ps
  | [], _ => rfl
  | p :: ps, h => by
    have first := nameless_rename p (h.subset (List.subset_append_left _ _))
    have rest := namelessAll_rename ps (h.subset (List.subset_append_right _ _))
    simp only [renameAll, namelessAll, first, rest]

end

end Pattern

namespace Term

mutual

/-- Renaming a term keeps its nameless form, in the scope that the renaming leads to. -/
theorem nameless_rename {m : Renaming} {ρ ρ' : Scope} :
    ∀ t : Term, m.Carries ρ ρ' t.names → (t.rename m).nameless ρ' = t.nameless ρ
  | .missing, _ => rfl
  | .foreign _, _ => rfl
  | .var x, h => by
    simp only [rename, nameless, h.resolved x (List.mem_singleton_self x)]
  | .app f ts, h => by
    have head := nameless_rename f (h.subset fun _ hx => by simp [names, hx])
    have args := namelessAll_rename ts (h.subset fun _ hx => by simp [names, hx])
    simp only [rename, nameless, head, args]
  | .lam bs t, h => by
    have binders := namelessBinders_rename bs (h.subset fun _ hx => by simp [names, hx])
    have bound : bs.map Binder.name ⊆ (Term.lam bs t).names :=
      List.Subset.trans (binders_subset_names bs) fun _ hx => by simp [names, hx]
    have body := nameless_rename t ((h.binds bound).subset fun _ hx => by simp [names, hx])
    simp only [rename, nameless, names_renameBinders, binders, body]
  | .fix x bs ty t, h => by
    have self : x ∈ (Term.fix x bs ty t).names := by simp [names]
    have binders := namelessBinders_rename bs ((h.bind self).subset fun _ hx => by simp [names, hx])
    have bound : x :: bs.map Binder.name ⊆ (Term.fix x bs ty t).names :=
      List.Subset.trans (List.cons_subset_cons x (binders_subset_names bs)) fun y hy => by
        rcases List.mem_cons.1 hy with rfl | hy <;> simp [names, *]
    have type := namelessType_rename ty ((h.binds bound).subset fun _ hx => by simp [names, hx])
    have body := nameless_rename t ((h.binds bound).subset fun _ hx => by simp [names, hx])
    simp only [rename, nameless, names_renameBinders, binders, type, body]
  | .caseOf ts as, h => by
    have scrutinees := namelessAll_rename ts (h.subset fun _ hx => by simp [names, hx])
    have arms := namelessArms_rename as (h.subset fun _ hx => by simp [names, hx])
    simp only [rename, nameless, scrutinees, arms]
  | .num _, _ => rfl
  | .str _, _ => rfl
  | .parens t, h => congrArg Nameless.parens (nameless_rename t h)
  | .pi bs t, h => by
    have binders := namelessBinders_rename bs (h.subset fun _ hx => by simp [names, hx])
    have bound : bs.map Binder.name ⊆ (Term.pi bs t).names :=
      List.Subset.trans (binders_subset_names bs) fun _ hx => by simp [names, hx]
    have body := nameless_rename t ((h.binds bound).subset fun _ hx => by simp [names, hx])
    simp only [rename, nameless, names_renameBinders, binders, body]
  | .arrow t u, h => by
    have dom := nameless_rename t (h.subset fun _ hx => by simp [names, hx])
    have cod := nameless_rename u (h.subset fun _ hx => by simp [names, hx])
    simp only [rename, nameless, dom, cod]
  | .ite c t u, h => by
    have cond := nameless_rename c (h.subset fun _ hx => by simp [names, hx])
    have yes := nameless_rename t (h.subset fun _ hx => by simp [names, hx])
    have no := nameless_rename u (h.subset fun _ hx => by simp [names, hx])
    simp only [rename, nameless, cond, yes, no]
  | .letIn x bs ty v t, h => by
    have self : x ∈ (Term.letIn x bs ty v t).names := by simp [names]
    have binders := namelessBinders_rename bs (h.subset fun _ hx => by simp [names, hx])
    have bound : bs.map Binder.name ⊆ (Term.letIn x bs ty v t).names :=
      List.Subset.trans (binders_subset_names bs) fun _ hx => by simp [names, hx]
    have type := namelessType_rename ty ((h.binds bound).subset fun _ hx => by simp [names, hx])
    have value := nameless_rename v ((h.binds bound).subset fun _ hx => by simp [names, hx])
    have body := nameless_rename t ((h.bind self).subset fun _ hx => by simp [names, hx])
    simp only [rename, nameless, names_renameBinders, binders, type, value, body]
  | .ascribed t u, h => by
    have term := nameless_rename t (h.subset fun _ hx => by simp [names, hx])
    have type := nameless_rename u (h.subset fun _ hx => by simp [names, hx])
    simp only [rename, nameless, term, type]
  | .hole, _ => rfl
  | .sort _, _ => rfl

theorem namelessAll_rename {m : Renaming} {ρ ρ' : Scope} :
    ∀ ts : List Term, m.Carries ρ ρ' (namesAll ts) →
      namelessAll ρ' (renameAll m ts) = namelessAll ρ ts
  | [], _ => rfl
  | t :: ts, h => by
    have first := nameless_rename t (h.subset fun _ hx => by simp [namesAll, hx])
    have rest := namelessAll_rename ts (h.subset fun _ hx => by simp [namesAll, hx])
    simp only [renameAll, namelessAll, first, rest]

theorem namelessType_rename {m : Renaming} {ρ ρ' : Scope} :
    ∀ ty : Option Term, m.Carries ρ ρ' (namesType ty) →
      namelessType ρ' (renameType m ty) = namelessType ρ ty
  | none, _ => rfl
  | some t, h => congrArg some (nameless_rename t h)

theorem namelessBinders_rename {m : Renaming} {ρ ρ' : Scope} :
    ∀ bs : List Binder, m.Carries ρ ρ' (namesBinders bs) →
      namelessBinders ρ' (renameBinders m bs) = namelessBinders ρ bs
  | [], _ => rfl
  | .mk x ty i :: bs, h => by
    have type := namelessType_rename ty (h.subset fun _ hx => by simp [namesBinders, hx])
    have self : x ∈ namesBinders (.mk x ty i :: bs) := by simp [namesBinders]
    have rest := namelessBinders_rename bs
      ((h.bind self).subset fun _ hx => by simp [namesBinders, hx])
    simp only [renameBinders, namelessBinders, type, rest]

theorem namelessArms_rename {m : Renaming} {ρ ρ' : Scope} :
    ∀ as : List Arm, m.Carries ρ ρ' (namesArms as) →
      namelessArms ρ' (renameArms m as) = namelessArms ρ as
  | [], _ => rfl
  | .mk ps t :: as, h => by
    have patterns := Pattern.namelessAll_rename ps (h.subset fun _ hx => by simp [namesArms, hx])
    have bound : Pattern.boundAll ps ⊆ namesArms (.mk ps t :: as) :=
      fun _ hx => by simp [namesArms, hx]
    have body := nameless_rename t ((h.binds bound).subset fun _ hx => by simp [namesArms, hx])
    have rest := namelessArms_rename as (h.subset fun _ hx => by simp [namesArms, hx])
    simp only [renameArms, namelessArms, Pattern.boundAll_renameAll, patterns, body, rest]

end

end Term

end Vernacular
