import Vernacular.Proofs.Components

/-!
The plain depth-first search of a graph, and what the component search has of it. The component
search enters and leaves nodes in the same order. Its stack holds the nodes in no component yet in
the order of their discovery, so each component lists its nodes in the order in which they are
entered, and the components come in the order in which their first nodes are left.
-/

set_option autoImplicit false

namespace Vernacular.Graph

variable {n : Nat} {g : Graph n}

/-- The course of a depth-first search: the nodes entered and the nodes left so far, in order. -/
structure Course (n : Nat) where
  entered : List (Fin n)
  left : List (Fin n)

namespace Course

def enter (t : Course n) (v : Fin n) : Course n :=
  { t with entered := t.entered ++ [v] }

def leave (t : Course n) (v : Fin n) : Course n :=
  { t with left := t.left ++ [v] }

/-- Visits a node: enters it, visits its successors in order and leaves it, unless it has been
entered before. The number bounds how deep the visits are nested. -/
def visit (g : Graph n) : Nat → Course n → Fin n → Course n
  | 0, t, _ => t
  | k + 1, t, v =>
    if t.entered.contains v then t else ((g v).foldl (visit g k) (t.enter v)).leave v

end Course

def depthFirst (g : Graph n) : Course n :=
  (List.finRange n).foldl (Course.visit g n) { entered := [], left := [] }

namespace Course

variable {k : Nat} {t : Course n} {v : Fin n}

structure Grows (t t' : Course n) : Prop where
  kept : t.entered <+: t'.entered
  distinct : t.entered.Nodup → t'.entered.Nodup

theorem Grows.refl (t : Course n) : Grows t t :=
  ⟨List.prefix_refl _, id⟩

theorem Grows.trans {t₁ t₂ t₃ : Course n} (h : Grows t₁ t₂) (k : Grows t₂ t₃) : Grows t₁ t₃ :=
  ⟨h.kept.trans k.kept, k.distinct ∘ h.distinct⟩

theorem grows_enter (unseen : v ∉ t.entered) : Grows t (t.enter v) :=
  ⟨List.prefix_append _ _, fun h => by simpa [enter] using h.concat unseen⟩

theorem grows_leave (t : Course n) (v : Fin n) : Grows t (t.leave v) :=
  ⟨List.prefix_refl _, id⟩

theorem Grows.foldl {α : Type} {f : Course n → α → Course n} (each : ∀ t x, Grows t (f t x))
    (xs : List α) (t : Course n) : Grows t (xs.foldl f t) := by
  induction xs generalizing t with
  | nil => exact .refl t
  | cons x xs ih => exact (each t x).trans (ih _)

theorem visit_of_mem (seen : v ∈ t.entered) : visit g k t v = t := by
  cases k with
  | zero => rfl
  | succ k => rw [visit, if_pos (List.contains_iff_mem.2 seen)]

theorem visit_of_not_mem (unseen : v ∉ t.entered) :
    visit g (k + 1) t v = ((g v).foldl (visit g k) (t.enter v)).leave v := by
  rw [visit, if_neg (mt List.contains_iff_mem.1 unseen)]

theorem grows_visit (g : Graph n) (k : Nat) (t : Course n) (v : Fin n) :
    Grows t (visit g k t v) := by
  induction k generalizing t v with
  | zero => exact .refl t
  | succ k ih =>
    by_cases seen : v ∈ t.entered
    · rw [visit_of_mem seen]
      exact .refl t
    · rw [visit_of_not_mem seen]
      exact (grows_enter seen).trans ((Grows.foldl ih _ _).trans (grows_leave _ v))

theorem foldl_visit_succ
    (each : ∀ (t : Course n) (v : Fin n), t.entered.Nodup → n ≤ t.entered.length + k →
      visit g (k + 1) t v = visit g k t v) (vs : List (Fin n))
    (distinct : t.entered.Nodup) (enough : n ≤ t.entered.length + k) :
    vs.foldl (visit g (k + 1)) t = vs.foldl (visit g k) t := by
  induction vs generalizing t with
  | nil => rfl
  | cons v vs ih =>
    have grows := grows_visit g k t v
    have longer := grows.kept.length_le
    rw [List.foldl_cons, List.foldl_cons, each t v distinct enough]
    exact ih (grows.distinct distinct) (by omega)

/-- A bound on the depth that lets all nodes be entered is never reached. -/
theorem visit_succ (distinct : t.entered.Nodup) (enough : n ≤ t.entered.length + k) :
    visit g (k + 1) t v = visit g k t v := by
  induction k generalizing t v with
  | zero =>
    -- as many nodes as there are have been entered
    have seen : v ∈ t.entered := by
      by_contra unseen
      have le := (List.nodup_cons.2 ⟨unseen, distinct⟩).length_le_card
      simp at le
      omega
    rw [visit_of_mem seen, visit_of_mem seen]
  | succ k ih =>
    by_cases seen : v ∈ t.entered
    · rw [visit_of_mem seen, visit_of_mem seen]
    · have entered := (grows_enter seen).distinct distinct
      rw [visit_of_not_mem seen, visit_of_not_mem seen,
        foldl_visit_succ (fun _ _ => ih) _ entered (by simp [enter]; omega)]

theorem visit_eq (distinct : t.entered.Nodup) (unseen : v ∉ t.entered) :
    visit g n t v = ((g v).foldl (visit g n) (t.enter v)).leave v := by
  rw [← visit_succ distinct (by omega), visit_of_not_mem unseen]

/-- The rest of a search with these nodes under search, the innermost first, and these roots
left. -/
def resume (g : Graph n) (fs : List (Frame n)) (us : List (Fin n)) (t : Course n) : Course n :=
  us.foldl (visit g n)
    (fs.foldl (fun t f => (f.pending.foldl (visit g n) t).leave f.node) t)

theorem grows_resume (g : Graph n) (fs : List (Frame n)) (us : List (Fin n)) (t : Course n) :
    Grows t (resume g fs us t) := by
  refine (Grows.foldl (fun t f => ?_) fs t).trans (Grows.foldl (grows_visit g n) us _)
  exact (Grows.foldl (grows_visit g n) f.pending t).trans (grows_leave _ f.node)

section Resume

variable {u : Fin n} {low number : Nat} {fs : List (Frame n)} {us vs : List (Fin n)}

theorem resume_seen_root (seen : u ∈ t.entered) : resume g [] (u :: us) t = resume g [] us t := by
  simp [resume, visit_of_mem seen]

theorem resume_root (distinct : t.entered.Nodup) (unseen : u ∉ t.entered) :
    resume g [] (u :: us) t = resume g [⟨u, number, g u⟩] us (t.enter u) := by
  simp [resume, visit_eq distinct unseen]

theorem resume_seen (seen : v ∈ t.entered) :
    resume g (⟨u, low, v :: vs⟩ :: fs) us t = resume g (⟨u, number, vs⟩ :: fs) us t := by
  simp [resume, visit_of_mem seen]

theorem resume_discover (distinct : t.entered.Nodup) (unseen : v ∉ t.entered) :
    resume g (⟨u, low, v :: vs⟩ :: fs) us t =
      resume g (⟨v, number, g v⟩ :: ⟨u, low, vs⟩ :: fs) us (t.enter v) := by
  simp [resume, visit_eq distinct unseen]

end Resume

end Course

namespace Search

open Course

/-- A component search beside the plain search that has come equally far. -/
structure Follows (g : Graph n) (s : Search n) (t : Course n) : Prop where
  entered : t.entered = s.visited
  ahead : resume g s.frames s.roots t = g.depthFirst
  balanced : (t.left ++ s.frames.map Frame.node).Perm s.visited
  listed : ∀ c ∈ s.found, c.Sublist s.visited
  inOrder : (s.found.reverse.map List.head?).Sublist (t.left.map some)

theorem Follows.start (g : Graph n) : Follows g (start n) { entered := [], left := [] } where
  entered := rfl
  ahead := rfl
  balanced := .nil
  listed := List.forall_mem_nil _
  inOrder := List.nil_sublist _

variable {s s' : Search n} {t : Course n}

theorem Follows.enter {u : Fin n} {us us' visited stack stack' : List (Fin n)}
    {marks marks' : Fin n → Bool} {fs fs' : List (Frame n)} {found : List (List (Fin n))}
    (h : Follows g ⟨us, visited, stack, marks, fs, found⟩ t)
    (ahead : resume g fs' us' (t.enter u) = resume g fs us t)
    (nodes : fs'.map Frame.node = u :: fs.map Frame.node) :
    Follows g ⟨us', visited ++ [u], stack', marks', fs', found⟩ (t.enter u) where
  entered := by simp [Course.enter, h.entered]
  ahead := ahead.trans h.ahead
  balanced := by
    have balanced : (t.left ++ fs.map Frame.node).Perm visited := h.balanced
    rw [nodes]
    refine List.perm_middle.trans ?_
    exact (balanced.cons u).trans (List.perm_append_singleton u visited).symm
  listed := fun c hc => (h.listed c hc).trans (List.sublist_append_left _ _)
  inOrder := h.inOrder

theorem Follows.leave {u : Fin n} {low : Nat} {us visited stack : List (Fin n)}
    {marks : Fin n → Bool} {fs : List (Frame n)} {found : List (List (Fin n))}
    (h : Follows g ⟨us, visited, stack, marks, ⟨u, low, []⟩ :: fs, found⟩ t) :
    Follows g ⟨us, visited, stack, marks, fs, found⟩ (t.leave u) where
  entered := h.entered
  ahead := h.ahead
  balanced := by simpa [Course.leave] using h.balanced
  listed := h.listed
  inOrder := by
    rw [Course.leave, List.map_append]
    exact h.inOrder.trans (List.sublist_append_left _ _)

theorem Follows.close {u : Fin n} {low : Nat} {us visited above below : List (Fin n)}
    {marks marks' : Fin n → Bool} {fs : List (Frame n)} {found : List (List (Fin n))}
    (h : Follows g ⟨us, visited, above ++ u :: below, marks, ⟨u, low, []⟩ :: fs, found⟩ t)
    (ordered : (above ++ u :: below).Sublist visited.reverse) :
    Follows g ⟨us, visited, below, marks', fs, (u :: above.reverse) :: found⟩ (t.leave u) where
  entered := h.entered
  ahead := h.ahead
  balanced := h.leave.balanced
  listed := by
    have front : (u :: above.reverse).Sublist visited := by
      have top : (above ++ [u]).Sublist visited.reverse := by
        refine List.Sublist.trans ?_ ordered
        simp
      simpa using top.reverse
    exact List.forall_mem_cons.2 ⟨front, h.listed⟩
  inOrder := by
    rw [Course.leave, List.reverse_cons, List.map_append, List.map_append]
    exact h.inOrder.append (List.Sublist.refl _)

theorem Follows.link (h : Follows g s t) (number : Nat) : Follows g (s.link number) t := by
  obtain ⟨us, visited, stack, marks, frames, found⟩ := s
  cases frames with
  | nil => exact h
  | cons f fs =>
    exact
      { entered := h.entered
        ahead := h.ahead
        balanced := h.balanced
        listed := h.listed
        inOrder := h.inOrder }

theorem Follows.step (h : Follows g s t) (inv : Invariant g s) (st : Step g s s') :
    ∃ t', Follows g s' t' := by
  have distinct : t.entered.Nodup := h.entered ▸ inv.distinct
  have known (v : Fin n) : v ∈ t.entered ↔ v ∈ s.visited := by rw [h.entered]
  cases st with
  | skip seen =>
    exact ⟨t, { h with ahead := (resume_seen_root ((known _).2 seen)).symm.trans h.ahead }⟩
  | root unseen =>
    exact ⟨_, h.enter (resume_root distinct (mt (known _).1 unseen)).symm rfl⟩
  | discover unseen =>
    exact ⟨_, h.enter (resume_discover distinct (mt (known _).1 unseen)).symm rfl⟩
  | link seen on =>
    exact ⟨t, { h with ahead := (resume_seen ((known _).2 seen)).symm.trans h.ahead }⟩
  | pass seen off =>
    exact ⟨t, { h with ahead := (resume_seen ((known _).2 seen)).symm.trans h.ahead }⟩
  | @close u low fs us visited stack marks found top =>
    obtain ⟨above, below, split, -⟩ := inv.opened.uncons
    change stack = above ++ u :: below at split
    subst split
    rw [close_stack (not_mem_above inv.distinct inv.ordered)]
    exact ⟨_, (h.close inv.ordered).link low⟩
  | merge below => exact ⟨_, h.leave.link _⟩

theorem Follows.after (g : Graph n) (k : Nat) : ∃ t, Follows g (after g k) t := by
  induction k with
  | zero => exact ⟨_, .start g⟩
  | succ k ih =>
    obtain ⟨t, h⟩ := ih
    rcases step_spec g (Search.after g k) with done | st
    · exact ⟨t, by simpa only [Search.after, step_of_done done] using h⟩
    · exact h.step (Invariant.after g k) st

theorem follows_depthFirst (g : Graph n) : Follows g (Search.after g g.steps) g.depthFirst := by
  obtain ⟨t, h⟩ := Follows.after g g.steps
  obtain ⟨frames, roots⟩ := done_after g
  have same : t = g.depthFirst := by
    have ahead := h.ahead
    rwa [frames, roots] at ahead
  rwa [same] at h

theorem visited_prefix (g : Graph n) (k : Nat) :
    (Search.after g k).visited <+: g.depthFirst.entered := by
  obtain ⟨t, h⟩ := Follows.after g k
  rw [← h.entered, ← h.ahead]
  exact (grows_resume g _ _ t).kept

/-- How the stack of a search stands to the nodes visited and the components found. -/
structure Disciplined (g : Graph n) (s : Search n) : Prop where
  /-- The stack holds the visited nodes that are in no component. -/
  mem_stack : ∀ v, v ∈ s.stack ↔ v ∈ s.visited ∧ v ∉ s.found.flatten
  marked : ∀ v, s.onStack v = true ↔ v ∈ s.stack
  nodup : s.stack.Nodup
  increasing : s.stack.reverse.Pairwise fun u v => s.number u < s.number v
  /-- The number of a successor that has been visited is noted unless it is in a component. -/
  link : ∀ {u v : Fin n} {low : Nat} {vs : List (Fin n)} {fs : List (Frame n)},
    s.frames = ⟨u, low, v :: vs⟩ :: fs → v ∈ s.visited →
      s.step g = { s with frames :=
        ⟨u, if s.found.flatten.contains v then low else min low (s.number v), vs⟩ :: fs }
  /-- The stack has a place at which a node under search is found when its component is closed. -/
  close : ∀ f ∈ s.frames, ∃ above below, s.stack = above ++ f.node :: below ∧
    s.close f.node =
      { s with
        stack := below
        onStack := (f.node :: above.reverse).foldl (setMark false) s.onStack
        found := (f.node :: above.reverse) :: s.found }

theorem Open.node_mem {visited stack part : List (Fin n)} {fs : List (Frame n)}
    (h : Open g visited stack fs part) {f : Frame n} (hf : f ∈ fs) : f.node ∈ part := by
  induction h with
  | nil => cases hf
  | cons rest parent stretch ih =>
    rcases List.mem_cons.1 hf with rfl | hf
    · simp
    · simp [ih hf]

theorem Invariant.disciplined (h : Invariant g s) : s.Disciplined g := by
  have apart := (h.covered.nodup_iff.2 h.distinct)
  have mem_stack (v : Fin n) : v ∈ s.stack ↔ v ∈ s.visited ∧ v ∉ s.found.flatten := by
    rw [← h.covered.mem_iff, List.mem_append]
    constructor
    · exact fun on => ⟨.inl on, List.disjoint_of_nodup_append apart on⟩
    · rintro ⟨on | off, outside⟩
      · exact on
      · exact absurd off outside
  have nodup : s.stack.Nodup := apart.of_append_left
  refine
    { mem_stack, nodup
      marked := h.marked
      increasing := List.pairwise_reverse.2 (pairwise_stack h.distinct h.ordered)
      link := fun {u v low vs fs} innermost seen => ?_
      close := fun f hf => ?_ }
  · by_cases off : v ∈ s.found.flatten
    · have outside : ¬s.onStack v = true := fun on => ((mem_stack v).1 ((h.marked v).1 on)).2 off
      rw [if_pos (List.contains_iff_mem.2 off)]
      simp only [Search.step, innermost, Search.look, seen, outside, not_true, if_false,
        Bool.false_eq_true]
    · have on : s.onStack v = true := (h.marked v).2 ((mem_stack v).2 ⟨seen, off⟩)
      rw [if_neg (mt List.contains_iff_mem.1 off)]
      simp only [Search.step, innermost, Search.look, seen, on, not_true, if_true, if_false,
        Search.link, Search.number]
  · obtain ⟨above, below, split⟩ := List.append_of_mem (h.opened.node_mem hf)
    obtain ⟨us, visited, stack, marks, frames, found⟩ := s
    change stack = above ++ f.node :: below at split
    subst split
    exact ⟨above, below, rfl, close_stack (not_mem_above h.distinct h.ordered)⟩

end Search

/-- At each point of the component search its stack is in order, and it has discovered nodes as the
plain depth-first search enters them. The search ends with the components, which divide the nodes by
walks there and back. Each component lists its nodes as they are entered, and the components come as
their first nodes are left. -/
theorem components_follow_depthFirst (g : Graph n) :
    (∀ k, (Search.after g k).Disciplined g ∧
      (Search.after g k).visited <+: g.depthFirst.entered) ∧
    (∃ k, (Search.after g k).Done ∧ g.components = (Search.after g k).found.reverse) ∧
    g.components.flatten.Perm (List.finRange n) ∧
    (∀ u v, (∃ c ∈ g.components, u ∈ c ∧ v ∈ c) ↔ g.Reaches u v ∧ g.Reaches v u) ∧
    g.depthFirst.entered.Perm (List.finRange n) ∧
    g.depthFirst.left.Perm (List.finRange n) ∧
    (∀ c ∈ g.components, c.Sublist g.depthFirst.entered) ∧
    (g.components.map List.head?).Sublist (g.depthFirst.left.map some) := by
  have final := Search.follows_depthFirst g
  have all := visited_perm g
  refine ⟨fun k => ⟨(Search.Invariant.after g k).disciplined, Search.visited_prefix g k⟩,
    ⟨g.steps, Search.done_after g, rfl⟩, components_perm g, fun u v => same_component_iff,
    final.entered ▸ all, ?_, fun c hc => ?_, final.inOrder⟩
  · have balanced := final.balanced
    rw [(Search.done_after g).1, List.map_nil, List.append_nil] at balanced
    exact balanced.trans all
  · rw [final.entered]
    exact final.listed c (List.mem_reverse.1 hc)

-- the first and the third node lead to each other, and from the third the others are found
example :
    let g : Graph 4 := fun u => [[2], [], [1, 0, 3], [3]][u]
    g.depthFirst.entered = [0, 2, 1, 3] ∧ g.depthFirst.left = [1, 3, 2, 0] ∧
      g.components = [[1], [3], [0, 2]] := by
  decide

end Vernacular.Graph
