import Vernacular.Proofs.RenamedForm

set_option autoImplicit false

namespace Vernacular

namespace Term

/-- The types of a telescope, each with the names of the binders before it, and terms behind the
telescope, with the names of all its binders. -/
def placed : List Binder → List Term → List (List String × Term)
  | [], us => us.map fun u => ([], u)
  | .mk x ty _ :: bs, us =>
    ty.toList.map (fun u => ([], u)) ++ (placed bs us).map fun p => (x :: p.1, p.2)

/-- The terms that a term is put together from, each with the names that the term binds over it. The
name of a fixpoint is bound like one more binder in front. -/
@[simp]
def parts : Term → List (List String × Term)
  | .app f ts => placed [] (f :: ts)
  | .lam bs t | .pi bs t => placed bs [t]
  | .fix x bs ty t => placed (.plain x :: bs) (ty.toList ++ [t])
  | .caseOf ts as => placed [] ts ++ as.map fun a => (Pattern.boundAll a.patterns, a.body)
  | .parens t => placed [] [t]
  | .arrow t u | .ascribed t u => placed [] [t, u]
  | .ite c t u => placed [] [c, t, u]
  | .letIn x bs ty v t => placed bs (ty.toList ++ [v]) ++ [([x], t)]
  | _ => []

/-- The names that a node itself refers to: a variable, or the constructors in the patterns of its
arms. -/
@[simp]
def mentions : Term → List String
  | .var x => [x]
  | .caseOf _ as => as.flatMap fun a => Pattern.constructorsAll a.patterns
  | _ => []

/-- A name occurs in a term inside binders with the given names. -/
inductive Occurs (x : String) : List String → Term → Prop
  | here {t : Term} (mentioned : x ∈ t.mentions) : Occurs x [] t
  | inside {t u : Term} {ys zs : List String} (part : (ys, u) ∈ t.parts) (deeper : Occurs x zs u) :
    Occurs x (ys ++ zs) t

theorem placed_terms (bs : List Binder) (us : List Term) :
    (placed bs us).map Prod.snd = bs.flatMap (·.type.toList) ++ us := by
  induction bs with
  | nil => simp [placed, Function.comp_def]
  | cons b bs ih =>
    obtain ⟨x, ty, i⟩ := b
    rw [placed, List.map_append, List.map_map, List.map_map, List.flatMap_cons, List.append_assoc,
      ← ih]
    exact congrArg (· ++ _) (List.map_id _)

/-- Without the names bound over them, the parts of a term are its children. -/
theorem parts_children (t : Term) : t.parts.map Prod.snd = t.children := by
  cases t <;> simp [placed_terms, Function.comp_def, Binder.plain, Binder.type]

theorem child_of_part {t : Term} {p : List String × Term} (h : p ∈ t.parts) : p.2 ∈ t.children :=
  parts_children t ▸ List.mem_map_of_mem h

theorem placed_bound {bs : List Binder} {us : List Term} {p : List String × Term}
    (h : p ∈ placed bs us) : p.1 ⊆ bs.map Binder.name := by
  induction bs generalizing p with
  | nil =>
    obtain ⟨u, -, rfl⟩ := List.mem_map.1 h
    exact List.Subset.refl _
  | cons b bs ih =>
    obtain ⟨x, ty, i⟩ := b
    rcases List.mem_append.1 h with first | later
    · obtain ⟨u, -, rfl⟩ := List.mem_map.1 first
      exact List.nil_subset _
    · obtain ⟨q, hq, rfl⟩ := List.mem_map.1 later
      exact List.cons_subset_cons x (ih hq)

/-- What a term binds over a part is among the names that it binds. -/
theorem part_bound {t : Term} {p : List String × Term} (h : p ∈ t.parts) : p.1 ⊆ t.binds := by
  cases t with
  | lam bs t | pi bs t => exact placed_bound h
  | fix x bs ty t => exact placed_bound h
  | caseOf ts as =>
    rcases List.mem_append.1 h with scrutinee | arm
    · exact List.Subset.trans (placed_bound scrutinee) (List.nil_subset _)
    · obtain ⟨a, ha, rfl⟩ := List.mem_map.1 arm
      exact fun x hx => List.mem_flatMap.2 ⟨a, ha, hx⟩
  | letIn x bs ty v t =>
    rcases List.mem_append.1 h with value | body
    · exact List.Subset.trans (placed_bound value) (List.subset_cons_self _ _)
    · rw [List.mem_singleton.1 body]
      exact List.cons_subset_cons x (List.nil_subset _)
  | app | parens | arrow | ascribed | ite => exact placed_bound h
  | missing | foreign | var | num | str | hole | sort => cases h

def exposed (p : List String × Term) : List String :=
  p.2.free.filter (· ∉ p.1)

theorem exposed_nil (t : Term) : exposed ([], t) = t.free := by
  simp [exposed]

theorem exposed_cons (x : String) (p : List String × Term) :
    exposed (x :: p.1, p.2) = (exposed p).filter (· ≠ x) := by
  simp [exposed, List.filter_filter]

theorem freeType_eq (ty : Option Term) : freeType ty = ty.toList.flatMap free := by
  cases ty with
  | none => rfl
  | some t => rw [freeType, Option.toList_some, List.flatMap_singleton]

/-- A telescope takes names backwards from what it scopes over, and a part forwards from its place:
the names are the same. -/
theorem freeUnder_eq (bs : List Binder) (us : List Term) :
    freeUnder bs (us.flatMap free) = (placed bs us).flatMap exposed := by
  induction bs with
  | nil => simp [freeUnder, placed, List.flatMap_map, exposed_nil]
  | cons b bs ih =>
    obtain ⟨x, ty, i⟩ := b
    simp only [freeUnder, placed, List.flatMap_append, List.flatMap_map, exposed_nil, exposed_cons,
      freeType_eq, ih, List.filter_flatMap]

/-- A name is free in a term if the node refers to it, or a part has it free and the node does not
bind it there. -/
theorem mem_free_iff {x : String} {t : Term} :
    x ∈ t.free ↔ x ∈ t.mentions ∨ x ∈ t.parts.flatMap exposed := by
  cases t with
  | app f ts => simp [free, freeAll_eq, placed, List.flatMap_map, exposed_nil]
  | lam bs t | pi bs t => simp [free, ← freeUnder_eq]
  | fix y bs ty t =>
    change x ∈ freeUnder (.plain y :: bs) (freeType ty ++ t.free) ↔ _
    simp [← freeUnder_eq, freeType_eq]
  | caseOf ts as =>
    simp [free, freeAll_eq, mem_freeArms, placed, exposed, List.flatMap_map, and_or_left, exists_or,
      or_left_comm]
  | letIn y bs ty v t =>
    simp [free, ← freeUnder_eq, freeType_eq, exposed]
  | parens t | arrow t u | ascribed t u | ite c t u => simp [free, ← freeUnder_eq, freeUnder]
  | var y => simp [free]
  | missing | foreign | num | str | hole | sort => simp [free]

theorem mem_exposed {x : String} {p : List String × Term} :
    x ∈ exposed p ↔ x ∈ p.2.free ∧ x ∉ p.1 := by
  simp [exposed]

theorem mem_free_of_part {x : String} {t : Term} {p : List String × Term} (part : p ∈ t.parts)
    (free : x ∈ p.2.free) (shown : x ∉ p.1) : x ∈ t.free :=
  mem_free_iff.2 (.inr (List.mem_flatMap.2 ⟨p, part, mem_exposed.2 ⟨free, shown⟩⟩))

/-- The free names are those that occur outside the scopes of all binders of that name. -/
theorem mem_free_iff_occurs {x : String} {t : Term} :
    x ∈ t.free ↔ ∃ ys, t.Occurs x ys ∧ x ∉ ys := by
  constructor
  · intro h
    induction t using induction_children with
    | step t ih =>
      rcases mem_free_iff.1 h with mentioned | inside
      · exact ⟨[], .here mentioned, List.not_mem_nil⟩
      · obtain ⟨⟨ys, u⟩, part, shown⟩ := List.mem_flatMap.1 inside
        obtain ⟨free, outer⟩ := mem_exposed.1 shown
        obtain ⟨zs, deeper, inner⟩ := ih u (child_of_part part) free
        exact ⟨ys ++ zs, .inside part deeper, by simp [outer, inner]⟩
  · rintro ⟨ys, occurs, outside⟩
    induction occurs with
    | here mentioned => exact mem_free_iff.2 (.inl mentioned)
    | @inside t u ys zs part _ ih =>
      rw [List.mem_append, not_or] at outside
      exact mem_free_of_part part (ih outside.2) outside.1

theorem namesAll_eq (ts : List Term) : namesAll ts = ts.flatMap names := by
  induction ts with
  | nil => rfl
  | cons t ts ih => rw [namesAll, ih, List.flatMap_cons]

theorem namesType_eq (ty : Option Term) : namesType ty = ty.toList.flatMap names := by
  cases ty with
  | none => rfl
  | some t => rw [namesType, Option.toList_some, List.flatMap_singleton]

theorem mem_namesBinders {x : String} {bs : List Binder} :
    x ∈ namesBinders bs ↔
      x ∈ bs.map Binder.name ∨ x ∈ (bs.flatMap (·.type.toList)).flatMap names := by
  induction bs with
  | nil => simp [namesBinders]
  | cons b bs ih =>
    obtain ⟨y, ty, i⟩ := b
    rw [namesBinders, namesType_eq, List.mem_append, List.mem_cons, ih, List.map_cons,
      List.flatMap_cons, List.flatMap_append, List.mem_cons, List.mem_append, Binder.name,
      Binder.type]
    exact or_or_or_comm

theorem mem_namesArms {x : String} {as : List Arm} :
    x ∈ namesArms as ↔ (x ∈ as.flatMap fun a => Pattern.constructorsAll a.patterns) ∨
      (x ∈ as.flatMap fun a => Pattern.boundAll a.patterns) ∨
        x ∈ (as.map Arm.body).flatMap names := by
  induction as with
  | nil => simp [namesArms]
  | cons a as ih =>
    obtain ⟨ps, t⟩ := a
    simp only [namesArms, List.mem_append, ih, List.flatMap_cons, List.map_cons, Arm.patterns,
      Arm.body]
    grind

theorem mem_names_iff {x : String} {t : Term} :
    x ∈ t.names ↔ x ∈ t.mentions ∨ x ∈ t.binds ∨ x ∈ t.children.flatMap names := by
  cases t with
  | app f ts => simp [names, namesAll_eq, binds]
  | lam bs t | pi bs t => simp [names, mem_namesBinders, binds, or_assoc]
  | fix y bs ty t | letIn y bs ty v t =>
    simp [names, mem_namesBinders, binds, namesType_eq, or_assoc]
  | caseOf ts as =>
    simp only [names, mem_namesArms, binds, namesAll_eq, List.mem_append, mentions, children,
      List.flatMap_append]
    grind
  | parens t | arrow t u | ascribed t u | ite c t u => simp [names, binds]
  | var y => simp [names, binds]
  | missing | foreign | num | str | hole | sort => simp [names, binds]

theorem mem_boundNames_iff {x : String} {t : Term} :
    x ∈ t.boundNames ↔ x ∈ t.binds ∨ ∃ u ∈ t.children, x ∈ u.boundNames := by
  rw [boundNames_eq, List.mem_append, List.mem_flatMap]

theorem boundNames_subset_names (t : Term) : t.boundNames ⊆ t.names := by
  induction t using induction_children with
  | step t ih =>
    intro x bound
    rcases mem_boundNames_iff.1 bound with here | ⟨u, child, inside⟩
    · exact mem_names_iff.2 (.inr (.inl here))
    · exact mem_names_iff.2 (.inr (.inr (List.mem_flatMap.2 ⟨u, child, ih u child inside⟩)))

/-- The names of a term are its free names and those that it binds. -/
theorem mem_names_iff_free_or_bound {x : String} {t : Term} :
    x ∈ t.names ↔ x ∈ t.free ∨ x ∈ t.boundNames := by
  refine ⟨fun h => ?_, fun h => h.elim (free_subset_names t ·) (boundNames_subset_names t ·)⟩
  induction t using induction_children with
  | step t ih =>
    rcases mem_names_iff.1 h with mentioned | bound | inside
    · exact .inl (mem_free_iff.2 (.inl mentioned))
    · exact .inr (mem_boundNames_iff.2 (.inl bound))
    · obtain ⟨u, child, named⟩ := List.mem_flatMap.1 inside
      rcases ih u child named with free | bound
      · -- free inside: what the node binds over the part decides
        rw [← parts_children] at child
        obtain ⟨p, part, rfl⟩ := List.mem_map.1 child
        by_cases hidden : x ∈ p.1
        · exact .inr (mem_boundNames_iff.2 (.inl (part_bound part hidden)))
        · exact .inl (mem_free_of_part part free hidden)
      · exact .inr (mem_boundNames_iff.2 (.inr ⟨u, child, bound⟩))

/-- The free names of a term are those with an occurrence that is in the scope of no binder of the
same name. They are among the names of the term, and the others among these are bound in it. -/
theorem free_iff_unbound_occurrence (t : Term) :
    (∀ x, x ∈ t.free ↔ ∃ ys, t.Occurs x ys ∧ x ∉ ys) ∧ t.free ⊆ t.names ∧
      ∀ x, x ∈ t.names ↔ x ∈ t.free ∨ x ∈ t.boundNames :=
  ⟨fun _ => mem_free_iff_occurs, free_subset_names t, fun _ => mem_names_iff_free_or_bound⟩

end Term

end Vernacular
