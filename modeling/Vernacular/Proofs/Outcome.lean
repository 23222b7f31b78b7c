import Mathlib.Data.List.Forall2
import Vernacular.Surface.Lower

set_option autoImplicit false

namespace Vernacular.Surface

section Outcome

variable {α β : Type}

theorem bind_eq_ok {r : Except Fault α} {k : α → Except Fault β} {b : β} :
    r >>= k = .ok b ↔ ∃ a, r = .ok a ∧ k a = .ok b := by
  cases r with
  | ok a => exact ⟨fun h => ⟨a, rfl, h⟩, fun ⟨_, same, h⟩ => Except.ok.inj same ▸ h⟩
  | error f => exact ⟨nofun, fun ⟨_, same, _⟩ => nomatch same⟩

theorem pure_eq_ok {a b : α} : (pure a : Except Fault α) = .ok b ↔ a = b :=
  ⟨Except.ok.inj, congrArg _⟩

theorem map_eq_ok {r : Except Fault α} {f : α → β} {b : β} :
    r.map f = .ok b ↔ ∃ a, r = .ok a ∧ f a = b := by
  cases r with
  | ok a =>
    refine ⟨fun h => ⟨a, rfl, Except.ok.inj h⟩, fun ⟨c, same, h⟩ => ?_⟩
    rw [Except.ok.inj same, ← h, Except.map]
  | error f => exact ⟨nofun, fun ⟨_, same, _⟩ => nomatch same⟩

theorem locating_eq_ok {pos : Position} {r : Except Fault α} {a : α} :
    Fault.locating pos r = .ok a ↔ r = .ok a := by
  cases r with
  | ok b => exact Iff.rfl
  | error f => exact ⟨nofun, nofun⟩

theorem mapM_eq_ok {f : α → Except Fault β} {xs : List α} {ys : List β} :
    xs.mapM f = .ok ys ↔ List.Forall₂ (fun x y => f x = .ok y) xs ys := by
  induction xs generalizing ys with
  | nil => rw [List.mapM_nil, pure_eq_ok, List.forall₂_nil_left_iff, eq_comm]
  | cons x xs ih =>
    simp only [List.mapM_cons, bind_eq_ok, pure_eq_ok, ih]
    constructor
    · rintro ⟨y, first, zs, rest, rfl⟩
      exact .cons first rest
    · intro h
      cases h with
      | cons first rest => exact ⟨_, first, _, rest, rfl⟩

theorem exists_mapM_ok {f : α → Except Fault β} {xs : List α} :
    (∃ ys, xs.mapM f = .ok ys) ↔ ∀ x ∈ xs, ∃ y, f x = .ok y := by
  induction xs with
  | nil => exact iff_of_true ⟨[], rfl⟩ (List.forall_mem_nil _)
  | cons x xs ih =>
    simp only [List.mapM_cons, bind_eq_ok, pure_eq_ok, List.forall_mem_cons, ← ih]
    constructor
    · rintro ⟨_, y, first, ys, rest, rfl⟩
      exact ⟨⟨y, first⟩, ys, rest⟩
    · rintro ⟨⟨y, first⟩, ys, rest⟩
      exact ⟨_, y, first, ys, rest, rfl⟩

theorem mapM_congr {f g : α → Except Fault β} {xs : List α} (h : ∀ x ∈ xs, f x = g x) :
    xs.mapM f = xs.mapM g := by
  induction xs with
  | nil => rfl
  | cons x xs ih =>
    obtain ⟨first, rest⟩ := List.forall_mem_cons.1 h
    rw [List.mapM_cons, List.mapM_cons, first, ih rest]

theorem exists_of_mem_forall₂ {R : α → β → Prop} {xs : List α} {ys : List β}
    (h : List.Forall₂ R xs ys) {x : α} (hx : x ∈ xs) : ∃ y ∈ ys, R x y := by
  induction h with
  | nil => cases hx
  | cons first _ ih =>
    rcases List.mem_cons.1 hx with rfl | hx
    · exact ⟨_, List.mem_cons_self .., first⟩
    · obtain ⟨y, hy, one⟩ := ih hx
      exact ⟨y, List.mem_cons_of_mem _ hy, one⟩

theorem exists_of_mem_mapM {f : α → Except Fault β} {xs : List α} {ys : List β}
    (h : xs.mapM f = .ok ys) {y : β} (hy : y ∈ ys) : ∃ x ∈ xs, f x = .ok y :=
  exists_of_mem_forall₂ (mapM_eq_ok.1 h).flip hy

/-- A sequence in which some member fails has a first one. -/
theorem exists_first_error {ε : Type} {f : α → Except ε β} {xs : List α}
    (h : ¬ ∀ x ∈ xs, ∃ b, f x = .ok b) :
    ∃ front x back e, xs = front ++ x :: back ∧ (∀ y ∈ front, ∃ b, f y = .ok b) ∧
      f x = .error e := by
  induction xs with
  | nil => exact absurd (List.forall_mem_nil _) h
  | cons x xs ih =>
    cases hx : f x with
    | error e => exact ⟨[], x, xs, e, rfl, List.forall_mem_nil _, hx⟩
    | ok b =>
      have later : ¬ ∀ y ∈ xs, ∃ c, f y = .ok c :=
        fun rest => h (List.forall_mem_cons.2 ⟨⟨b, hx⟩, rest⟩)
      obtain ⟨front, y, back, e, place, before, failed⟩ := ih later
      refine ⟨x :: front, y, back, e, by rw [place, List.cons_append], ?_, failed⟩
      exact List.forall_mem_cons.2 ⟨⟨b, hx⟩, before⟩

end Outcome

theorem lookup_map_types (f : Ty → Ty) (signatures : List (String × Ty)) (x : String) :
    (signatures.map fun s => (s.1, f s.2)).lookup x = (signatures.lookup x).map f := by
  induction signatures with
  | nil => rfl
  | cons s signatures ih =>
    rw [List.map_cons, List.lookup_cons, List.lookup_cons, ih]
    cases x == s.1 <;> rfl

/-- The arm is that of the equation: its patterns and its right-hand side converted. -/
def Equation.LowersTo (table : Table) : Equation → Arm → Prop
  | .mk _ ps rhs, .mk patterns body =>
    Pattern.lowerAll table ps = .ok patterns ∧ rhs.lower table = .ok body

theorem Equation.lowersTo_of_lowerAlternatives {table : Table} :
    ∀ {qs : List Equation} {arms : List Arm},
      Equation.lowerAlternatives table qs = .ok arms → List.Forall₂ (LowersTo table) qs arms
  | [], _, h => by
    cases h
    exact .nil
  | .mk pos ps rhs :: qs, arms, h => by
    simp only [lowerAlternatives, bind_eq_ok, pure_eq_ok] at h
    obtain ⟨_, _, patterns, hps, body, hrhs, rest, hqs, rfl⟩ := h
    exact .cons ⟨hps, hrhs⟩ (lowersTo_of_lowerAlternatives hqs)

theorem Equation.lowersTo_of_lowerAll {table : Table} :
    ∀ {qs : List Equation} {arms : List Arm},
      Equation.lowerAll table qs = .ok arms → List.Forall₂ (LowersTo table) qs arms
  | [.mk pos ps rhs], arms, h => by
    simp only [lowerAll, bind_eq_ok, locating_eq_ok, List.isEmpty_nil, if_true, pure_eq_ok] at h
    obtain ⟨patterns, hps, body, hrhs, rfl⟩ := h
    exact .cons ⟨hps, hrhs⟩ .nil
  | .mk pos ps rhs :: q :: qs, arms, h => by
    rw [lowerAll] at h
    simp only [bind_eq_ok, locating_eq_ok, List.isEmpty_cons, Bool.false_eq_true, if_false,
      pure_eq_ok] at h
    obtain ⟨patterns, hps, body, hrhs, rest, hqs, rfl⟩ := h
    exact .cons ⟨hps, hrhs⟩ (lowersTo_of_lowerAll hqs)

/-- A definition is named by its binding and quantified by its signature. Its body is the right-hand
side of a single equation without patterns, or the function of the equations, of which then the
first has patterns. -/
theorem Binding.lower_parts {table : Table} {signature : Option Ty} {pos : Position} {x : String}
    {qs : List Equation} {d : Definition}
    (h : (Binding.mk pos x qs).lower table signature = .ok d) :
    d.name = table.valueName x ∧ lowerSignature table signature = .ok (d.binders, d.type) ∧
      ∃ arms, List.Forall₂ (Equation.LowersTo table) qs arms ∧
        (arms = [.mk [] d.body] ∨
          (∃ q ∈ qs.head?, q.patterns ≠ []) ∧
            d.body = (FunctionLiteral.ofArms arms).recursive (table.valueName x)) := by
  unfold Binding.lower at h
  simp only [locating_eq_ok, bind_eq_ok, pure_eq_ok] at h
  obtain ⟨⟨binders, type⟩, signed, body, converted, rfl⟩ := h
  refine ⟨rfl, signed, ?_⟩
  split at converted
  · cases converted
  · rename_i place rhs
    have arm : Equation.LowersTo table (.mk place [] rhs) (.mk [] body) := ⟨rfl, converted⟩
    exact ⟨[.mk [] body], .cons arm .nil, .inl rfl⟩
  · split at converted
    · cases converted
    · split at converted
      · cases converted
      · rename_i eq others _ _ some
        obtain ⟨arms, all, rfl⟩ := map_eq_ok.1 converted
        have first : ∃ q ∈ (eq :: others).head?, q.patterns ≠ [] := ⟨eq, rfl, by simpa using some⟩
        exact ⟨arms, Equation.lowersTo_of_lowerAll all, .inr ⟨first, rfl⟩⟩

theorem Binding.name_of_lower {table : Table} {signature : Option Ty} {b : Binding} {d : Definition}
    (h : b.lower table signature = .ok d) : d.name = table.valueName b.name := by
  obtain ⟨pos, x, qs⟩ := b
  exact (Binding.lower_parts h).1

theorem Binding.lower_of_lowerAll {table : Table} {signatures : List (String × Ty)} :
    ∀ {bs : List Binding} {ds : List Definition}, Binding.lowerAll table signatures bs = .ok ds →
      List.Forall₂ (fun b d => b.lower table (signatures.lookup b.name) = .ok d) bs ds
  | [], _, h => by
    cases h
    exact .nil
  | .mk pos x qs :: bs, ds, h => by
    simp only [lowerAll, bind_eq_ok, pure_eq_ok] at h
    obtain ⟨d, first, rest, others, rfl⟩ := h
    exact .cons first (lower_of_lowerAll others)

theorem Binding.names_of_lowered {table : Table} {signatures : List (String × Ty)}
    {bs : List Binding} {ds : List Definition}
    (h : List.Forall₂ (fun b d => b.lower table (signatures.lookup b.name) = .ok d) bs ds) :
    ds.map Definition.name = (bs.map Binding.name).map table.valueName := by
  induction h with
  | nil => rfl
  | cons first _ ih => simp only [List.map_cons, Binding.name_of_lower first, ih]

theorem LocalBinds.lower_parts {table : Table} {pos : Position} {implicitParams : Bool}
    {bs : List Binding} {signatures : List (String × Ty)} {ds : List Definition}
    (h : (LocalBinds.mk pos implicitParams bs signatures).lower table = .ok ds) :
    List.Forall₂ (fun b d => b.lower table (signatures.lookup b.name) = .ok d) bs ds := by
  cases implicitParams with
  | true =>
    rw [LocalBinds.lower, if_pos rfl, locating_eq_ok] at h
    cases h
  | false =>
    rw [LocalBinds.lower, if_neg Bool.false_ne_true] at h
    exact Binding.lower_of_lowerAll h

end Vernacular.Surface
