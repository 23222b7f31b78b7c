import Mathlib.Algebra.BigOperators.Fin
import Vernacular.Proofs.Search

set_option autoImplicit false

namespace Vernacular.Graph

variable {n : Nat} {g : Graph n}

namespace Search

/-- The work that undiscovered nodes stand for: entering and leaving each of them, and looking at
its successors. -/
def remaining (g : Graph n) (visited : List (Fin n)) : Nat :=
  ∑ u, if visited.contains u then 0 else (g u).length + 2

def potential (g : Graph n) (s : Search n) : Nat :=
  s.roots.length + remaining g s.visited + (s.frames.map (·.pending.length + 1)).sum

theorem remaining_snoc {visited : List (Fin n)} {v : Fin n} (unseen : v ∉ visited) :
    remaining g visited = (g v).length + 2 + remaining g (visited ++ [v]) := by
  unfold remaining
  have listed := Finset.mem_univ v
  rw [← Finset.add_sum_erase _ _ listed, ← Finset.add_sum_erase _ _ listed]
  have others : ∀ u ∈ Finset.univ.erase v,
      (if visited.contains u then 0 else (g u).length + 2) =
        if (visited ++ [v]).contains u then 0 else (g u).length + 2 := by
    intro u hu
    simp [Finset.ne_of_mem_erase hu]
  rw [Finset.sum_congr rfl others]
  simp [unseen]

theorem steps_eq (g : Graph n) : g.steps = potential g (start n) := by
  have unfolded : ∀ us : List (Fin n),
      us.foldr (fun u k => (g u).length + 3 + k) 0 =
        us.length + (us.map fun u => (g u).length + 2).sum := by
    intro us
    induction us with
    | nil => rfl
    | cons u us ih =>
      simp only [List.foldr_cons, ih, List.length_cons, List.map_cons, List.sum_cons]
      omega
  simp only [steps, unfolded, potential, start, remaining, Fin.sum_univ_def, List.contains_nil,
    Bool.false_eq_true, if_false, List.map_nil, List.sum_nil, Nat.add_zero]

theorem link_pending (s : Search n) (number : Nat) :
    (s.link number).frames.map (·.pending.length + 1) = s.frames.map (·.pending.length + 1) := by
  obtain ⟨us, visited, stack, marks, frames, found⟩ := s
  cases frames <;> rfl

theorem link_roots (s : Search n) (number : Nat) : (s.link number).roots = s.roots := by
  obtain ⟨us, visited, stack, marks, frames, found⟩ := s
  cases frames <;> rfl

theorem link_visited (s : Search n) (number : Nat) : (s.link number).visited = s.visited := by
  obtain ⟨us, visited, stack, marks, frames, found⟩ := s
  cases frames <;> rfl

theorem potential_link (s : Search n) (number : Nat) :
    potential g (s.link number) = potential g s := by
  simp only [potential, link_pending, link_roots, link_visited]

theorem potential_step {s t : Search n} (h : Step g s t) : potential g t < potential g s := by
  cases h with
  | skip => simp [potential]
  | root unseen => simp [potential, remaining_snoc unseen]; omega
  | discover unseen => simp [potential, remaining_snoc unseen]; omega
  | link => simp [potential]
  | pass => simp [potential]
  | close => rw [potential_link]; simp [potential, Search.close]
  | merge => rw [potential_link]; simp [potential]

theorem done_of_potential_eq_zero {s : Search n} (h : potential g s = 0) : s.Done := by
  obtain ⟨us, visited, stack, marks, frames, found⟩ := s
  cases us with
  | cons u us => simp [potential] at h
  | nil =>
    cases frames with
    | cons f fs => simp [potential] at h
    | nil => exact ⟨rfl, rfl⟩

theorem done_or_potential_after (g : Graph n) (k : Nat) :
    (after g k).Done ∨ potential g (after g k) + k ≤ g.steps := by
  induction k with
  | zero => exact .inr (by rw [steps_eq]; rfl)
  | succ k ih =>
    rcases step_spec g (Search.after g k) with done | st
    · exact .inl (by rwa [Search.after, step_of_done done])
    · rcases ih with done | le
      · exact .inl (by rwa [Search.after, step_of_done done])
      · have lt := potential_step st
        exact .inr (by rw [Search.after]; omega)

/-- The search has completed after its number of steps. -/
theorem done_after (g : Graph n) : (after g g.steps).Done := by
  rcases done_or_potential_after g g.steps with done | le
  · exact done
  · exact done_of_potential_eq_zero (g := g) (by omega)

theorem finished_suffix {cs ds : List (List (Fin n))} (h : Finished g (cs ++ ds)) :
    Finished g ds := by
  induction cs with
  | nil => exact h
  | cons c cs ih => exact ih h.1

end Search

open Search

theorem visited_all (g : Graph n) (u : Fin n) : u ∈ (after g g.steps).visited := by
  rcases (Invariant.after g g.steps).rooted u with hu | hu
  · rw [(done_after g).2] at hu
    cases hu
  · exact hu

theorem visited_perm (g : Graph n) : (after g g.steps).visited.Perm (List.finRange n) := by
  refine (List.perm_ext_iff_of_nodup (Invariant.after g _).distinct (List.nodup_finRange n)).2 ?_
  simp [visited_all g]

theorem components_perm (g : Graph n) : g.components.flatten.Perm (List.finRange n) := by
  have h := Invariant.after g g.steps
  have emptied : (after g g.steps).stack = [] := by
    have opened := h.opened
    rw [(done_after g).1] at opened
    exact opened.eq_nil
  have found : (after g g.steps).found.flatten.Perm (after g g.steps).visited := by
    simpa [emptied] using h.covered
  exact ((List.reverse_perm _).flatten.trans found).trans (visited_perm g)

theorem components_nodup (g : Graph n) : g.components.flatten.Nodup :=
  (components_perm g).nodup_iff.2 (List.nodup_finRange n)

theorem exists_component (g : Graph n) (u : Fin n) : ∃ c ∈ g.components, u ∈ c :=
  List.mem_flatten.1 ((components_perm g).mem_iff.2 (List.mem_finRange u))

theorem component_nodup {c : List (Fin n)} (hc : c ∈ g.components) : c.Nodup :=
  (List.nodup_flatten.1 (components_nodup g)).1 c hc

theorem component_unique {c d : List (Fin n)} {u : Fin n} (hc : c ∈ g.components)
    (hd : d ∈ g.components) (uc : u ∈ c) (ud : u ∈ d) : c = d := by
  by_contra other
  have symmetric : Std.Symm (@List.Disjoint (Fin n)) := ⟨fun _ _ h => List.Disjoint.symm h⟩
  have apart := (List.nodup_flatten.1 (components_nodup g)).2
  exact apart.forall hc hd other uc ud

/-- What a component is at its place among the others. -/
theorem component_spec {front rest : List (List (Fin n))} {c : List (Fin n)}
    (h : g.components = front ++ c :: rest) :
    c ≠ [] ∧ (∀ u ∈ c, ∀ v ∈ c, g.Reaches u v) ∧ ∀ u ∈ c, ∀ v ∈ g u, v ∈ c ∨ v ∈ front.flatten := by
  have found : (after g g.steps).found = rest.reverse ++ c :: front.reverse := by
    have h' := congrArg List.reverse h
    simpa [components] using h'
  have finished := (Invariant.after g g.steps).finished
  rw [found] at finished
  obtain ⟨-, nonempty, joined, closed⟩ := finished_suffix finished
  refine ⟨nonempty, joined, fun u hu v hv => (closed u hu v hv).imp_right fun hv => ?_⟩
  exact (List.reverse_perm front).flatten.mem_iff.1 hv

theorem component_ne_nil {c : List (Fin n)} (hc : c ∈ g.components) : c ≠ [] := by
  obtain ⟨front, rest, place⟩ := List.append_of_mem hc
  exact (component_spec place).1

/-- No walk leaves the components found up to some point of the list. -/
theorem front_closed {front rest : List (List (Fin n))} (h : g.components = front ++ rest)
    {u v : Fin n} (hu : u ∈ front.flatten) (walk : g.Reaches u v) : v ∈ front.flatten := by
  induction walk with
  | refl => exact hu
  | @tail v w _ edge ih =>
    obtain ⟨c, hc, hv⟩ := List.mem_flatten.1 ih
    obtain ⟨before, after, rfl⟩ := List.append_of_mem hc
    have place : g.components = before ++ c :: (after ++ rest) := by simp [h]
    rcases (component_spec place).2.2 v hv w edge with hw | hw
    · exact List.mem_flatten.2 ⟨c, hc, hw⟩
    · simp only [List.flatten_append, List.mem_append]
      exact .inl hw

theorem same_component_iff {u v : Fin n} :
    (∃ c ∈ g.components, u ∈ c ∧ v ∈ c) ↔ g.Reaches u v ∧ g.Reaches v u := by
  constructor
  · rintro ⟨c, hc, hu, hv⟩
    obtain ⟨front, rest, h⟩ := List.append_of_mem hc
    have joined := (component_spec h).2.1
    exact ⟨joined u hu v hv, joined v hv u hu⟩
  · rintro ⟨out, back⟩
    obtain ⟨c, hc, hu⟩ := exists_component g u
    obtain ⟨front, rest, h⟩ := List.append_of_mem hc
    have place : g.components = (front ++ [c]) ++ rest := by simp [h]
    have hv : v ∈ (front ++ [c]).flatten := front_closed place (by simp [hu]) out
    simp only [List.flatten_append, List.flatten_singleton, List.mem_append] at hv
    rcases hv with hv | hv
    · -- then the walk back would stay in front of `c`, where `u` is not
      have hu' : u ∈ front.flatten := front_closed h hv back
      have distinct := components_nodup g
      rw [h, List.flatten_append, List.flatten_cons] at distinct
      exact absurd (List.mem_append_left _ hu) (List.disjoint_of_nodup_append distinct hu')
    · exact ⟨c, hc, hu, hv⟩

/-- Edges lead to the same component or to one listed before. -/
theorem component_order {u v : Fin n} (edge : v ∈ g u) :
    ∃ i j, ∃ (hi : i < g.components.length) (hj : j < g.components.length),
      j ≤ i ∧ u ∈ g.components[i] ∧ v ∈ g.components[j] := by
  obtain ⟨c, hc, hu⟩ := exists_component g u
  obtain ⟨i, hi, rfl⟩ := List.getElem_of_mem hc
  have place :
      g.components = g.components.take i ++ g.components[i] :: g.components.drop (i + 1) := by
    simp
  rcases (component_spec place).2.2 u hu v edge with hv | hv
  · exact ⟨i, i, hi, hi, Nat.le_refl i, hu, hv⟩
  · obtain ⟨d, hd, hv⟩ := List.mem_flatten.1 hv
    obtain ⟨j, hj, rfl⟩ := List.getElem_of_mem hd
    rw [List.length_take] at hj
    rw [List.getElem_take] at hv
    exact ⟨i, j, hi, by omega, by omega, hu, hv⟩

end Vernacular.Graph
