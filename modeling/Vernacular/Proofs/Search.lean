import Mathlib.Data.List.Nodup
import Mathlib.Logic.Relation
import Vernacular.Graph.Component

/-!
What holds at each point of a component search. The stack falls into stretches, one for each node
under search: that node at the bottom and, above it, nodes from which it can be reached again. The
components found so far are closed, so no walk leaves them for the stack.
-/

set_option autoImplicit false

namespace Vernacular.Graph

variable {n : Nat} {g : Graph n}

def Reaches (g : Graph n) : Fin n → Fin n → Prop :=
  Relation.ReflTransGen fun u v => v ∈ g u

theorem Reaches.refl (u : Fin n) : g.Reaches u u :=
  Relation.ReflTransGen.refl

theorem Reaches.edge {u v : Fin n} (h : v ∈ g u) : g.Reaches u v :=
  Relation.ReflTransGen.single h

theorem Reaches.trans {u v w : Fin n} (h : g.Reaches u v) (k : g.Reaches v w) : g.Reaches u w :=
  Relation.ReflTransGen.trans h k

namespace Search

inductive Step (g : Graph n) : Search n → Search n → Prop
  | skip {u : Fin n} {us visited stack marks found} (seen : u ∈ visited) :
      Step g ⟨u :: us, visited, stack, marks, [], found⟩ ⟨us, visited, stack, marks, [], found⟩
  | root {u : Fin n} {us visited stack marks found} (unseen : u ∉ visited) :
      Step g ⟨u :: us, visited, stack, marks, [], found⟩
        ⟨us, visited ++ [u], u :: stack, setMark true marks u, [⟨u, visited.length, g u⟩], found⟩
  | discover {u v : Fin n} {low vs fs us visited stack marks found} (unseen : v ∉ visited) :
      Step g ⟨us, visited, stack, marks, ⟨u, low, v :: vs⟩ :: fs, found⟩
        ⟨us, visited ++ [v], v :: stack, setMark true marks v,
          ⟨v, visited.length, g v⟩ :: ⟨u, low, vs⟩ :: fs, found⟩
  | link {u v : Fin n} {low vs fs us visited stack marks found} (seen : v ∈ visited)
      (on : marks v = true) :
      Step g ⟨us, visited, stack, marks, ⟨u, low, v :: vs⟩ :: fs, found⟩
        ⟨us, visited, stack, marks, ⟨u, min low (visited.idxOf v), vs⟩ :: fs, found⟩
  | pass {u v : Fin n} {low vs fs us visited stack marks found} (seen : v ∈ visited)
      (off : marks v = false) :
      Step g ⟨us, visited, stack, marks, ⟨u, low, v :: vs⟩ :: fs, found⟩
        ⟨us, visited, stack, marks, ⟨u, low, vs⟩ :: fs, found⟩
  | close {u : Fin n} {low fs us visited stack marks found} (top : low = visited.idxOf u) :
      Step g ⟨us, visited, stack, marks, ⟨u, low, []⟩ :: fs, found⟩
        (({ roots := us, visited, stack, onStack := marks, frames := fs, found : Search n }.close
          u).link low)
  | merge {u : Fin n} {low fs us visited stack marks found} (below : low ≠ visited.idxOf u) :
      Step g ⟨us, visited, stack, marks, ⟨u, low, []⟩ :: fs, found⟩
        ({ roots := us, visited, stack, onStack := marks, frames := fs, found : Search n }.link low)

def Done (s : Search n) : Prop :=
  s.frames = [] ∧ s.roots = []

theorem foldl_setMark_false (us : List (Fin n)) (marks : Fin n → Bool) (v : Fin n) :
    us.foldl (setMark false) marks v = true ↔ v ∉ us ∧ marks v = true := by
  induction us generalizing marks with
  | nil => simp
  | cons u us ih =>
    rw [List.foldl_cons, ih]
    by_cases same : v = u <;> simp [setMark, same]

theorem step_of_done {s : Search n} (h : s.Done) : s.step g = s := by
  obtain ⟨hf, hr⟩ := h
  simp only [step, hf, hr]

theorem step_spec (g : Graph n) (s : Search n) : s.Done ∨ Step g s (s.step g) := by
  obtain ⟨us, visited, stack, marks, frames, found⟩ := s
  match frames, us with
  | [], [] => exact .inl ⟨rfl, rfl⟩
  | [], u :: us =>
    right
    by_cases h : u ∈ visited
    · simpa only [step, h, if_true] using Step.skip h
    · simpa only [step, enter, h, if_false] using Step.root h
  | ⟨u, low, []⟩ :: fs, us =>
    right
    by_cases h : low = visited.idxOf u
    · simpa only [step, leave, number, h, if_true] using Step.close h
    · simpa only [step, leave, number, h, if_false] using Step.merge h
  | ⟨u, low, v :: vs⟩ :: fs, us =>
    right
    by_cases h : v ∈ visited
    · cases hs : marks v with
      | true =>
        simpa only [step, look, Search.link, number, h, hs, not_true, if_true, if_false] using
          Step.link h hs
      | false =>
        simpa only [step, look, h, hs, not_true, if_false, Bool.false_eq_true] using Step.pass h hs
    · simpa only [step, look, enter, h, not_false_iff, if_true] using Step.discover h

/-- A successor that a frame has dealt with: it is known, and if it is still on the stack, the frame
has noted a discovery number as early as its own. -/
def Settled (visited stack : List (Fin n)) (f : Frame n) (v : Fin n) : Prop :=
  v ∈ visited ∧ (v ∈ stack → f.low ≤ visited.idxOf v)

/-- A frame on top of the stretches `below`, with the nodes `above` it in its own stretch. -/
structure Stretch (g : Graph n) (visited stack : List (Fin n)) (f : Frame n)
    (above below : List (Fin n)) : Prop where
  /-- The number that the frame has noted is that of a node at or below its own. -/
  lowest : ∃ w ∈ f.node :: below, visited.idxOf w = f.low ∧ g.Reaches f.node w
  outward : ∀ x ∈ above, g.Reaches f.node x
  back : ∀ x ∈ above, g.Reaches x f.node
  complete : ∀ x ∈ above, ∀ y ∈ g x, Settled visited stack f y
  partly : ∀ y ∈ g f.node, y ∈ f.pending ∨ Settled visited stack f y
  ahead : ∀ y ∈ f.pending, y ∈ g f.node

/-- The frames divide a stack into stretches, and each node under search leads to the next one. -/
inductive Open (g : Graph n) (visited stack : List (Fin n)) :
    List (Frame n) → List (Fin n) → Prop
  | nil : Open g visited stack [] []
  | cons {f : Frame n} {fs : List (Frame n)} {above below : List (Fin n)}
      (rest : Open g visited stack fs below)
      (parent : ∀ p ∈ fs.head?, g.Reaches p.node f.node)
      (stretch : Stretch g visited stack f above below) :
      Open g visited stack (f :: fs) (above ++ f.node :: below)

variable {visited stack : List (Fin n)} {marks : Fin n → Bool} {f : Frame n} {fs : List (Frame n)}

theorem Settled.mono {visited' stack' : List (Fin n)} {f' : Frame n} {v : Fin n}
    (h : Settled visited stack f v) (hv : visited <+: visited')
    (hs : ∀ y ∈ visited, y ∈ stack' → y ∈ stack) (low : f'.low ≤ f.low) :
    Settled visited' stack' f' v := by
  refine ⟨hv.subset h.1, fun on => ?_⟩
  rw [← hv.idxOf_eq_of_mem h.1]
  exact Nat.le_trans low (h.2 (hs v h.1 on))

theorem Open.mono {visited' stack' part : List (Fin n)} (h : Open g visited stack fs part)
    (hv : visited <+: visited') (hs : ∀ y ∈ visited, y ∈ stack' → y ∈ stack)
    (sub : part ⊆ visited) : Open g visited' stack' fs part := by
  induction h with
  | nil => exact .nil
  | @cons f fs above below _ parent stretch ih =>
    refine .cons (ih fun x hx => sub (by simp [hx])) parent ?_
    obtain ⟨w, hw, number, reach⟩ := stretch.lowest
    have known : w ∈ visited := sub (List.mem_append_right _ hw)
    exact
      { lowest := ⟨w, hw, by rw [← hv.idxOf_eq_of_mem known, number], reach⟩
        outward := stretch.outward
        back := stretch.back
        complete := fun x hx y hy => (stretch.complete x hx y hy).mono hv hs (Nat.le_refl _)
        partly := fun y hy => (stretch.partly y hy).imp_right fun k => k.mono hv hs (Nat.le_refl _)
        ahead := stretch.ahead }

theorem Open.push {below : List (Fin n)} (rest : Open g visited stack fs below)
    (parent : ∀ p ∈ fs.head?, g.Reaches p.node f.node)
    (stretch : Stretch g visited stack f [] below) :
    Open g visited stack (f :: fs) (f.node :: below) :=
  .cons rest parent stretch

theorem Open.eq_nil {part : List (Fin n)} (h : Open g visited stack [] part) : part = [] := by
  cases h
  rfl

theorem Open.uncons {part : List (Fin n)} (h : Open g visited stack (f :: fs) part) :
    ∃ above below, part = above ++ f.node :: below ∧ Open g visited stack fs below ∧
      (∀ p ∈ fs.head?, g.Reaches p.node f.node) ∧ Stretch g visited stack f above below := by
  cases h with
  | cons rest parent stretch => exact ⟨_, _, rfl, rest, parent, stretch⟩

theorem Open.reaches_top {part : List (Fin n)} (h : Open g visited stack (f :: fs) part)
    {w : Fin n} (hw : w ∈ part) : g.Reaches w f.node := by
  generalize hfs : f :: fs = frames at h
  induction h generalizing f fs with
  | nil => cases hfs
  | @cons f' fs' above below rest parent stretch ih =>
    obtain ⟨rfl, rfl⟩ := List.cons.inj hfs
    rcases List.mem_append.1 hw with hw | hw
    · exact stretch.back w hw
    rcases List.mem_cons.1 hw with rfl | hw
    · exact .refl _
    · cases fs with
      | nil => simp [rest.eq_nil] at hw
      | cons p ps => exact (ih hw rfl).trans (parent p rfl)

/-- Components, the last one first, each closed up to those before it in the search. -/
def Finished (g : Graph n) : List (List (Fin n)) → Prop
  | [] => True
  | c :: cs => Finished g cs ∧ c ≠ [] ∧ (∀ u ∈ c, ∀ v ∈ c, g.Reaches u v) ∧
      ∀ u ∈ c, ∀ v ∈ g u, v ∈ c ∨ v ∈ cs.flatten

structure Invariant (g : Graph n) (s : Search n) : Prop where
  distinct : s.visited.Nodup
  ordered : s.stack.Sublist s.visited.reverse
  marked : ∀ v, s.onStack v = true ↔ v ∈ s.stack
  covered : (s.stack ++ s.found.flatten).Perm s.visited
  rooted : ∀ u, u ∈ s.roots ∨ u ∈ s.visited
  opened : Open g s.visited s.stack s.frames s.stack
  finished : Finished g s.found

theorem pairwise_idxOf (h : visited.Nodup) :
    visited.Pairwise fun u v => visited.idxOf u < visited.idxOf v := by
  rw [List.pairwise_iff_getElem]
  intro i j hi hj lt
  rwa [h.idxOf_getElem, h.idxOf_getElem]

theorem pairwise_stack (h : visited.Nodup) (sub : stack.Sublist visited.reverse) :
    stack.Pairwise fun u v => visited.idxOf v < visited.idxOf u :=
  (List.pairwise_reverse.2 (pairwise_idxOf h)).sublist sub

theorem number_above {u : Fin n} {above below : List (Fin n)} (h : visited.Nodup)
    (sub : (above ++ u :: below).Sublist visited.reverse) {x : Fin n} (hx : x ∈ above) :
    visited.idxOf u < visited.idxOf x :=
  (List.pairwise_append.1 (pairwise_stack h sub)).2.2 x hx u (List.mem_cons_self ..)

theorem not_mem_above {u : Fin n} {above below : List (Fin n)} (h : visited.Nodup)
    (sub : (above ++ u :: below).Sublist visited.reverse) : u ∉ above :=
  fun hu => Nat.lt_irrefl _ (number_above h sub hu)

theorem number_below {u : Fin n} {above below : List (Fin n)} (h : visited.Nodup)
    (sub : (above ++ u :: below).Sublist visited.reverse) {x : Fin n} (hx : x ∈ below) :
    visited.idxOf x < visited.idxOf u :=
  (List.pairwise_cons.1 (List.pairwise_append.1 (pairwise_stack h sub)).2.1).1 x hx

/-- A node of the stack with a number up to that of `u` lies at or below `u`. -/
theorem mem_of_number_le {u : Fin n} {above below : List (Fin n)} (h : visited.Nodup)
    (sub : (above ++ u :: below).Sublist visited.reverse) {x : Fin n}
    (hx : x ∈ above ++ u :: below) (le : visited.idxOf x ≤ visited.idxOf u) : x ∈ u :: below := by
  rcases List.mem_append.1 hx with hx | hx
  · have := number_above h sub hx
    omega
  · exact hx

theorem Stretch.low_le {above below : List (Fin n)} (h : Stretch g visited stack f above below)
    (distinct : visited.Nodup) (ordered : (above ++ f.node :: below).Sublist visited.reverse) :
    f.low ≤ visited.idxOf f.node := by
  obtain ⟨w, hw, number, -⟩ := h.lowest
  rw [← number]
  rcases List.mem_cons.1 hw with rfl | hw
  · exact Nat.le_refl _
  · exact Nat.le_of_lt (number_below distinct ordered hw)

/-- The innermost frame may note the number of a node on the stack that its node leads to. -/
theorem Stretch.lower {above below : List (Fin n)} (h : Stretch g visited stack f above below)
    (distinct : visited.Nodup) (ordered : (above ++ f.node :: below).Sublist visited.reverse)
    {w : Fin n} (on : w ∈ above ++ f.node :: below) (reach : g.Reaches f.node w) :
    Stretch g visited stack { f with low := min f.low (visited.idxOf w) } above below := by
  have le : min f.low (visited.idxOf w) ≤ f.low := Nat.min_le_left _ _
  refine
    { lowest := ?_
      outward := h.outward
      back := h.back
      complete := fun x hx y hy =>
        (h.complete x hx y hy).mono (List.prefix_refl _) (fun _ _ => id) le
      partly := fun y hy =>
        (h.partly y hy).imp_right fun k => k.mono (List.prefix_refl _) (fun _ _ => id) le
      ahead := h.ahead }
  by_cases early : visited.idxOf w < f.low
  · have at_most := h.low_le distinct ordered
    refine ⟨w, mem_of_number_le distinct ordered on (by omega), ?_, reach⟩
    exact (Nat.min_eq_right (Nat.le_of_lt early)).symm
  · obtain ⟨w, hw, number, reach⟩ := h.lowest
    refine ⟨w, hw, ?_, reach⟩
    rw [number]
    exact (Nat.min_eq_left (Nat.le_of_not_lt early)).symm

theorem Stretch.advance {u v : Fin n} {low : Nat} {vs above below : List (Fin n)}
    (h : Stretch g visited stack ⟨u, low, v :: vs⟩ above below)
    (settled : Settled visited stack ⟨u, low, vs⟩ v) :
    Stretch g visited stack ⟨u, low, vs⟩ above below where
  lowest := h.lowest
  outward := h.outward
  back := h.back
  complete := h.complete
  partly y hy := by
    rcases h.partly y hy with hy | hy
    · rcases List.mem_cons.1 hy with rfl | hy
      · exact .inr settled
      · exact .inl hy
    · exact .inr hy
  ahead y hy := h.ahead y (List.mem_cons_of_mem _ hy)

theorem Stretch.extend {above below more : List (Fin n)}
    (h : Stretch g visited stack f above below) (outward : ∀ x ∈ more, g.Reaches f.node x)
    (back : ∀ x ∈ more, g.Reaches x f.node)
    (complete : ∀ x ∈ more, ∀ y ∈ g x, Settled visited stack f y) :
    Stretch g visited stack f (more ++ above) below where
  lowest := h.lowest
  outward x hx := (List.mem_append.1 hx).elim (outward x) (h.outward x)
  back x hx := (List.mem_append.1 hx).elim (back x) (h.back x)
  complete x hx := (List.mem_append.1 hx).elim (complete x) (h.complete x)
  partly := h.partly
  ahead := h.ahead

theorem Invariant.stack_subset {s : Search n} (h : Invariant g s) : s.stack ⊆ s.visited :=
  fun _ hx => h.covered.subset (List.mem_append_left _ hx)

theorem Invariant.start (g : Graph n) : Invariant g (start n) where
  distinct := List.nodup_nil
  ordered := List.nil_sublist _
  marked v := by simp [Search.start]
  covered := List.Perm.refl _
  rooted u := .inl (List.mem_finRange u)
  opened := .nil
  finished := trivial

theorem stretch_new {v : Fin n} (unseen : v ∉ visited) {below : List (Fin n)} :
    Stretch g (visited ++ [v]) stack ⟨v, visited.length, g v⟩ [] below where
  lowest := ⟨v, List.mem_cons_self .., by simp [List.idxOf_append, unseen], .refl v⟩
  outward := by simp
  back := by simp
  complete := by simp
  partly _ hy := .inl hy
  ahead _ hy := hy

theorem Invariant.distinct_snoc {s : Search n} (h : Invariant g s) {v : Fin n}
    (unseen : v ∉ s.visited) : (s.visited ++ [v]).Nodup := by
  simpa using h.distinct.concat unseen

theorem Invariant.enter {us us' : List (Fin n)} {found : List (List (Fin n))}
    {frames frames' : List (Frame n)} {v : Fin n}
    (h : Invariant g ⟨us, visited, stack, marks, frames, found⟩) (unseen : v ∉ visited)
    (rooted : ∀ u, u ∈ us → u ∈ us' ∨ u = v)
    (opened : Open g (visited ++ [v]) (v :: stack) frames' (v :: stack)) :
    Invariant g ⟨us', visited ++ [v], v :: stack, setMark true marks v, frames', found⟩ where
  distinct := h.distinct_snoc unseen
  ordered := by simpa using h.ordered
  marked w := by
    have marked := h.marked w
    by_cases same : w = v <;> simp_all [setMark]
  covered := by
    have hc : (v :: (stack ++ found.flatten)).Perm (v :: visited) := h.covered.cons v
    exact hc.trans (List.perm_append_singleton v visited).symm
  rooted u := by
    rcases h.rooted u with hu | hu
    · rcases rooted u hu with hu | rfl
      · exact .inl hu
      · exact .inr (by simp)
    · exact .inr (List.mem_append_left _ hu)
  opened := opened
  finished := h.finished

theorem Invariant.open_below {us : List (Fin n)} {found : List (List (Fin n))} {v : Fin n}
    (h : Invariant g ⟨us, visited, stack, marks, fs, found⟩) (unseen : v ∉ visited) :
    Open g (visited ++ [v]) (v :: stack) fs stack := by
  refine h.opened.mono (List.prefix_append _ _) (fun y hy on => ?_) h.stack_subset
  rcases List.mem_cons.1 on with rfl | on
  · exact absurd hy unseen
  · exact on

theorem Invariant.root {u : Fin n} {us : List (Fin n)} {found : List (List (Fin n))}
    (h : Invariant g ⟨u :: us, visited, stack, marks, [], found⟩) (unseen : u ∉ visited) :
    Invariant g ⟨us, visited ++ [u], u :: stack, setMark true marks u,
      [⟨u, visited.length, g u⟩], found⟩ := by
  refine h.enter unseen (fun w hw => ?_) ?_
  · exact (List.mem_cons.1 hw).symm.imp_right id
  · exact .push (h.open_below unseen) (by simp) (stretch_new unseen)

theorem Invariant.discover {u v : Fin n} {low : Nat} {vs us : List (Fin n)}
    {found : List (List (Fin n))}
    (h : Invariant g ⟨us, visited, stack, marks, ⟨u, low, v :: vs⟩ :: fs, found⟩)
    (unseen : v ∉ visited) :
    Invariant g ⟨us, visited ++ [v], v :: stack, setMark true marks v,
      ⟨v, visited.length, g v⟩ :: ⟨u, low, vs⟩ :: fs, found⟩ := by
  have distinct := h.distinct_snoc unseen
  have ordered : stack.Sublist (visited ++ [v]).reverse := by simpa using h.ordered.cons v
  have known := h.stack_subset
  have number : (visited ++ [v]).idxOf v = visited.length := by simp [List.idxOf_append, unseen]
  have below := h.open_below unseen
  refine h.enter unseen (fun w hw => .inl hw) (.push ?_ ?_ (stretch_new unseen))
  · cases below with
    | @cons _ _ above below rest parent stretch =>
      refine .cons rest parent (stretch.advance ⟨by simp, fun _ => ?_⟩)
      -- numbers noted before this discovery are smaller than the new one
      have le := stretch.low_le distinct ordered
      have hu : u ∈ visited := known (by simp)
      have lt := List.idxOf_lt_length_of_mem hu
      rw [List.idxOf_append, if_pos hu] at le
      simp only [number]
      simp only at le
      omega
  · cases below with
    | cons rest parent stretch =>
      intro p hp
      cases hp
      exact .edge (stretch.ahead v (List.mem_cons_self ..))

theorem Invariant.link {u v : Fin n} {low : Nat} {vs us : List (Fin n)}
    {found : List (List (Fin n))}
    (h : Invariant g ⟨us, visited, stack, marks, ⟨u, low, v :: vs⟩ :: fs, found⟩) (on : v ∈ stack) :
    Invariant g ⟨us, visited, stack, marks, ⟨u, min low (visited.idxOf v), vs⟩ :: fs, found⟩ := by
  have seen : v ∈ visited := h.stack_subset on
  have opened := h.opened
  refine { h with opened := ?_ }
  cases opened with
  | cons rest parent stretch =>
    have edge : v ∈ g u := stretch.ahead v (List.mem_cons_self ..)
    have lower := stretch.lower h.distinct h.ordered on (.edge edge)
    exact .cons rest parent (lower.advance ⟨seen, fun _ => Nat.min_le_right _ _⟩)

theorem Invariant.pass {u v : Fin n} {low : Nat} {vs us : List (Fin n)}
    {found : List (List (Fin n))}
    (h : Invariant g ⟨us, visited, stack, marks, ⟨u, low, v :: vs⟩ :: fs, found⟩)
    (seen : v ∈ visited) (off : v ∉ stack) :
    Invariant g ⟨us, visited, stack, marks, ⟨u, low, vs⟩ :: fs, found⟩ := by
  have opened := h.opened
  refine { h with opened := ?_ }
  cases opened with
  | cons rest parent stretch =>
    exact .cons rest parent (stretch.advance ⟨seen, fun on => absurd on off⟩)

theorem link_of_le {s : Search n} {number : Nat} (h : ∀ p ∈ s.frames.head?, p.low ≤ number) :
    s.link number = s := by
  obtain ⟨us, visited, stack, marks, frames, found⟩ := s
  cases frames with
  | nil => rfl
  | cons p ps =>
    have le : p.low ≤ number := h p rfl
    simp only [Search.link, Nat.min_eq_left le]

theorem close_stack {u : Fin n} {us above below : List (Fin n)} {found : List (List (Fin n))}
    (off : u ∉ above) :
    (⟨us, visited, above ++ u :: below, marks, fs, found⟩ : Search n).close u =
      ⟨us, visited, below, (u :: above.reverse).foldl (setMark false) marks, fs,
        (u :: above.reverse) :: found⟩ := by
  have apart : ∀ x ∈ above, decide (x ≠ u) = true := by
    intro x hx
    simpa using fun h : x = u => off (h ▸ hx)
  simp only [Search.close, List.dropWhile_append_of_pos apart, List.takeWhile_append_of_pos apart]
  simp

/-- Clearing the marks of the component on top leaves those of the stack below it. -/
theorem marked_close {u : Fin n} {above below : List (Fin n)}
    (distinct : (above ++ u :: below).Nodup)
    (marked : ∀ v, marks v = true ↔ v ∈ above ++ u :: below) (v : Fin n) :
    (u :: above.reverse).foldl (setMark false) marks v = true ↔ v ∈ below := by
  have apart : List.Disjoint (above ++ [u]) below := by
    rw [List.append_cons] at distinct
    exact List.disjoint_of_nodup_append distinct
  have same : v ∈ u :: above.reverse ↔ v ∈ above ++ [u] := by simp [or_comm]
  rw [foldl_setMark_false, marked v, List.append_cons above, List.mem_append, same]
  constructor
  · rintro ⟨outside, on⟩
    exact on.resolve_left outside
  · intro on
    exact ⟨fun top => apart top on, .inr on⟩

/-- A stretch whose frame has noted no earlier number than its own is a component: from it only the
stretch itself and finished components can be reached in one step. -/
theorem Finished.cons {u : Fin n} {low : Nat} {above below : List (Fin n)}
    {found : List (List (Fin n))} (h : Finished g found) (distinct : visited.Nodup)
    (ordered : (above ++ u :: below).Sublist visited.reverse)
    (covered : ((above ++ u :: below) ++ found.flatten).Perm visited)
    (stretch : Stretch g visited (above ++ u :: below) ⟨u, low, []⟩ above below)
    (top : low = visited.idxOf u) : Finished g ((u :: above.reverse) :: found) := by
  refine ⟨h, by simp, ?_, ?_⟩
  · have out : ∀ x ∈ u :: above.reverse, g.Reaches u x := by
      intro x hx
      rcases List.mem_cons.1 hx with rfl | hx
      · exact .refl _
      · exact stretch.outward x (List.mem_reverse.1 hx)
    have back : ∀ x ∈ u :: above.reverse, g.Reaches x u := by
      intro x hx
      rcases List.mem_cons.1 hx with rfl | hx
      · exact .refl _
      · exact stretch.back x (List.mem_reverse.1 hx)
    exact fun x hx y hy => (back x hx).trans (out y hy)
  · intro x hx y hy
    have settled : Settled visited (above ++ u :: below) ⟨u, low, []⟩ y := by
      rcases List.mem_cons.1 hx with rfl | hx
      · exact (stretch.partly y hy).resolve_left (by simp)
      · exact stretch.complete x (List.mem_reverse.1 hx) y hy
    obtain ⟨seen, late⟩ := settled
    rcases List.mem_append.1 (covered.mem_iff.2 seen) with on | off
    · have number : visited.idxOf u ≤ visited.idxOf y := top ▸ late on
      rcases List.mem_append.1 on with hy | hy
      · exact .inl (by simp [hy])
      rcases List.mem_cons.1 hy with rfl | hy
      · exact .inl (by simp)
      · have := number_below distinct ordered hy
        omega
    · exact .inr off

theorem Invariant.close {u : Fin n} {low : Nat} {us : List (Fin n)} {found : List (List (Fin n))}
    (h : Invariant g ⟨us, visited, stack, marks, ⟨u, low, []⟩ :: fs, found⟩)
    (top : low = visited.idxOf u) :
    Invariant g
      (({ roots := us, visited, stack, onStack := marks, frames := fs, found : Search n }.close
        u).link low) := by
  obtain ⟨above, below, split, rest, -, stretch⟩ := h.opened.uncons
  change stack = above ++ u :: below at split
  subst split
  have off : u ∉ above := not_mem_above h.distinct h.ordered
  have sub : below.Sublist (above ++ u :: below) :=
    (List.sublist_cons_self u below).trans (List.sublist_append_right above _)
  have known : below ⊆ visited := List.Subset.trans sub.subset h.stack_subset
  -- what the frame below has noted is earlier still
  have early : ∀ p ∈ fs.head?, p.low ≤ low := by
    intro p hp
    obtain ⟨ps, rfl⟩ := List.head?_eq_some_iff.1 hp
    obtain ⟨above', below', split, -, -, stretch'⟩ := rest.uncons
    have le := stretch'.low_le h.distinct (split ▸ sub.trans h.ordered)
    have lt := number_below h.distinct h.ordered (x := p.node) (by simp [split])
    simp only at le lt
    omega
  rw [close_stack off, link_of_le early]
  exact
    { distinct := h.distinct
      ordered := sub.trans h.ordered
      marked := marked_close (h.ordered.nodup (List.nodup_reverse.2 h.distinct)) h.marked
      covered := by
        refine List.Perm.trans ?_ h.covered
        simp only [List.flatten_cons, ← List.append_assoc]
        refine List.Perm.append_right _ (List.perm_append_comm.trans ?_)
        rw [List.append_cons]
        refine List.Perm.append_right _ ?_
        exact (List.perm_append_singleton u _).symm.trans ((List.reverse_perm above).append_right _)
      rooted := h.rooted
      opened := rest.mono (List.prefix_refl _) (fun _ _ on => sub.subset on) known
      finished := h.finished.cons h.distinct h.ordered h.covered stretch top }

/-- Leaving a node from which an earlier one was found joins its stretch to the one below. -/
theorem Invariant.merge {u : Fin n} {low : Nat} {us : List (Fin n)} {found : List (List (Fin n))}
    (h : Invariant g ⟨us, visited, stack, marks, ⟨u, low, []⟩ :: fs, found⟩)
    (earlier : low ≠ visited.idxOf u) :
    Invariant g
      ({ roots := us, visited, stack, onStack := marks, frames := fs, found : Search n }.link
        low) := by
  obtain ⟨above, below, split, rest, parent, stretch⟩ := h.opened.uncons
  obtain ⟨w, hw, number, reach⟩ := stretch.lowest
  change stack = above ++ u :: below at split
  change visited.idxOf w = low at number
  have on : w ∈ below := by
    rcases List.mem_cons.1 hw with rfl | hw
    · exact absurd number.symm earlier
    · exact hw
  cases fs with
  | nil => simp [rest.eq_nil] at on
  | cons p ps =>
    obtain ⟨above', below', split', rest', parent', stretch'⟩ := rest.uncons
    have sub : below.Sublist visited.reverse :=
      ((List.sublist_cons_self u below).trans (List.sublist_append_right above _)).trans
        (split ▸ h.ordered)
    have down : g.Reaches p.node u := parent p rfl
    have up : g.Reaches u p.node := reach.trans (rest.reaches_top on)
    have lower := stretch'.lower h.distinct (split' ▸ sub) (split' ▸ on) (down.trans reach)
    rw [number] at lower
    have joined : Stretch g visited stack { p with low := min p.low low }
        (above ++ [u] ++ above') below' := by
      refine lower.extend (fun x hx => ?_) (fun x hx => ?_) (fun x hx y hy => ?_)
      · rcases List.mem_append.1 hx with hx | hx
        · exact down.trans (stretch.outward x hx)
        · exact List.mem_singleton.1 hx ▸ down
      · rcases List.mem_append.1 hx with hx | hx
        · exact (stretch.back x hx).trans up
        · exact List.mem_singleton.1 hx ▸ up
      · have settled : Settled visited stack ⟨u, low, []⟩ y := by
          rcases List.mem_append.1 hx with hx | hx
          · exact stretch.complete x hx y hy
          · rw [List.mem_singleton.1 hx] at hy
            exact (stretch.partly y hy).resolve_left (by simp)
        exact settled.mono (List.prefix_refl _) (fun _ _ => id) (Nat.min_le_right _ _)
    have whole : stack = (above ++ [u] ++ above') ++ p.node :: below' := by
      simp [split, split']
    refine { h with opened := ?_ }
    rw [whole] at rest' joined ⊢
    exact .cons rest' parent' joined

theorem Invariant.step {s t : Search n} (h : Invariant g s) (st : Step g s t) : Invariant g t := by
  cases st with
  | skip seen =>
    refine { h with rooted := fun w => ?_ }
    rcases h.rooted w with hw | hw
    · rcases List.mem_cons.1 hw with rfl | hw
      · exact .inr seen
      · exact .inl hw
    · exact .inr hw
  | root unseen => exact h.root unseen
  | discover unseen => exact h.discover unseen
  | link _ on => exact h.link ((h.marked _).1 on)
  | pass seen off =>
    exact h.pass seen fun on => Bool.false_ne_true (off.symm.trans ((h.marked _).2 on))
  | close top => exact h.close top
  | merge earlier => exact h.merge earlier

theorem Invariant.after (g : Graph n) (k : Nat) : Invariant g (after g k) := by
  induction k with
  | zero => exact .start g
  | succ k ih =>
    rcases step_spec g (Search.after g k) with done | st
    · simpa only [Search.after, step_of_done done] using ih
    · exact ih.step st

end Search

end Vernacular.Graph
