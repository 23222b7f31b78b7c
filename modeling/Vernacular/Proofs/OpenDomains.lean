import Vernacular.Proofs.ReadBack

/-!
What the written form of terms tells apart. A function type whose domain extends to the right, such
as a function literal, is written like that domain with the arrow at its right end. Legible terms
without such domains are determined by their texts, and every legible term is written like one of
these.
-/

set_option autoImplicit false

namespace Vernacular

namespace Term

/-- The term that is read when an arrow and a codomain are written behind a term. -/
def extend : Term → Term → Term
  | .lam bs t, u => .lam bs (t.extend u)
  | .fix x bs ty t, u => .fix x bs ty (t.extend u)
  | .pi bs t, u => .pi bs (t.extend u)
  | .arrow s t, u => .arrow s (t.extend u)
  | .ite c s t, u => .ite c s (t.extend u)
  | .letIn x bs ty v t, u => .letIn x bs ty v (t.extend u)
  | .ascribed s t, u => .ascribed s (t.extend u)
  | t, u => .arrow t u

mutual

/-- The term that is read where a term is written: the codomains of open domains move inwards. -/
def settle : Term → Term
  | .app f ts => .app f.settle (settleAll ts)
  | .lam bs t => .lam (settleBinders bs) t.settle
  | .fix x bs ty t => .fix x (settleBinders bs) (settleType ty) t.settle
  | .caseOf ts as => .caseOf (settleAll ts) (settleArms as)
  | .parens t => .parens t.settle
  | .pi bs t => .pi (settleBinders bs) t.settle
  | .arrow t u =>
    if t.isDomain then t.settle.extend u.settle else .arrow (.parens t.settle) u.settle
  | .ite c t u => .ite c.settle t.settle u.settle
  | .letIn x bs ty v t => .letIn x (settleBinders bs) (settleType ty) v.settle t.settle
  | .ascribed t u => .ascribed t.settle u.settle
  | t => t

def settleAll : List Term → List Term
  | [] => []
  | t :: ts => t.settle :: settleAll ts

def settleType : Option Term → Option Term
  | none => none
  | some t => some t.settle

def settleBinders : List Binder → List Binder
  | [] => []
  | .mk x ty implicit :: bs => .mk x (settleType ty) implicit :: settleBinders bs

def settleArms : List Arm → List Arm
  | [] => []
  | .mk ps t :: as => .mk ps t.settle :: settleArms as

end

theorem settleAll_eq (ts : List Term) : settleAll ts = ts.map settle := by
  induction ts with
  | nil => rfl
  | cons t ts ih => rw [settleAll, ih, List.map_cons]

theorem settleType_eq (ty : Option Term) : settleType ty = ty.map settle := by
  cases ty <;> rfl

theorem settleBinders_eq (bs : List Binder) :
    settleBinders bs = bs.map (Binder.mapType settle) := by
  induction bs with
  | nil => rfl
  | cons b bs ih =>
    obtain ⟨x, ty, implicit⟩ := b
    rw [settleBinders, ih, settleType_eq, List.map_cons, Binder.mapType]

theorem settleArms_eq (as : List Arm) : settleArms as = as.map (Arm.map id settle) := by
  induction as with
  | nil => rfl
  | cons a as ih =>
    obtain ⟨ps, t⟩ := a
    rw [settleArms, ih, List.map_cons, Arm.map, List.map_id]

section Print

variable {f : Term → Term}

theorem printArgs_map {ts : List Term}
    (same : ∀ t ∈ ts, (f t).print = t.print ∧ (f t).isAtom = t.isAtom) :
    printArgs (ts.map f) = printArgs ts := by
  induction ts with
  | nil => rfl
  | cons t ts ih =>
    obtain ⟨⟨text, atomic⟩, others⟩ := List.forall_mem_cons.1 same
    rw [List.map_cons, printArgs, printArgs, text, atomic, ih others]

theorem printCommas_map {ts : List Term} (same : ∀ t ∈ ts, (f t).print = t.print) :
    printCommas (ts.map f) = printCommas ts := by
  rw [printCommas_eq, printCommas_eq, List.map_map]
  exact congrArg _ (List.map_congr_left same)

theorem printType_map {ty : Option Term} (same : ∀ t ∈ ty, (f t).print = t.print) :
    printType (ty.map f) = printType ty := by
  cases ty with
  | none => rfl
  | some t => rw [Option.map_some, printType, printType, same t rfl]

theorem printBinders_map {bs : List Binder} (same : ∀ b ∈ bs, ∀ t ∈ b.type, (f t).print = t.print) :
    printBinders (bs.map (Binder.mapType f)) = printBinders bs := by
  induction bs with
  | nil => rfl
  | cons b bs ih =>
    obtain ⟨x, ty, implicit⟩ := b
    obtain ⟨first, others⟩ := List.forall_mem_cons.1 same
    have later := ih others
    cases ty with
    | none => cases implicit <;> simp [Binder.mapType, printBinders, later]
    | some t =>
      have type : printType (some (f t)) = printType (some t) := printType_map first
      cases implicit <;> simp [Binder.mapType, printBinders, later, type]

theorem printArms_map {as : List Arm} (same : ∀ a ∈ as, (f a.body).print = a.body.print) :
    printArms (as.map (Arm.map id f)) = printArms as := by
  induction as with
  | nil => rfl
  | cons a as ih =>
    obtain ⟨ps, t⟩ := a
    obtain ⟨first, others⟩ := List.forall_mem_cons.1 same
    have text : (f t).print = t.print := first
    rw [List.map_cons, Arm.map, printArms, printArms, text, ih others, List.map_id]

end Print

theorem print_extend (t u : Term) : (t.extend u).print = t.print ++ " -> " ++ u.print := by
  induction t using induction_children with
  | step t ih =>
    cases t with
    | lam bs t | pi bs t => simp [extend, print, ih t (by simp [children]), String.append_assoc]
    | fix x bs ty t => simp [extend, print, ih t (by simp [children]), String.append_assoc]
    | letIn x bs ty v t => simp [extend, print, ih t (by simp [children]), String.append_assoc]
    | ite c s t => simp [extend, print, ih t (by simp [children]), String.append_assoc]
    | arrow s t | ascribed s t =>
      simp [extend, print, ih t (by simp [children]), String.append_assoc]
    | _ => rfl

theorem isAtom_extend (t u : Term) : (t.extend u).isAtom = false := by
  cases t <;> rfl

theorem isAtom_settle (t : Term) : t.settle.isAtom = t.isAtom := by
  cases t with
  | arrow t u =>
    rw [settle]
    split
    · exact isAtom_extend _ _
    · rfl
  | _ => rfl

theorem print_settle (t : Term) : t.settle.print = t.print := by
  induction t using induction_children with
  | step t ih =>
    cases t with
    | app f ts =>
      obtain ⟨head, args⟩ := List.forall_mem_cons.1 ih
      rw [settle, settleAll_eq, print, print, isAtom_settle, head,
        printArgs_map fun t ht => ⟨args t ht, isAtom_settle t⟩]
    | lam bs t | pi bs t =>
      obtain ⟨types, body⟩ := List.forall_mem_append.1 ih
      rw [settle, settleBinders_eq, print, print, printBinders_map (forall_binder_types.1 types),
        List.forall_mem_singleton.1 body]
    | fix x bs ty t =>
      obtain ⟨types, others⟩ := List.forall_mem_append.1 ih
      obtain ⟨type, body⟩ := List.forall_mem_append.1 others
      rw [settle, settleBinders_eq, settleType_eq, print, print,
        printBinders_map (forall_binder_types.1 types), printType_map (forall_optional_type.1 type),
        List.forall_mem_singleton.1 body]
    | letIn x bs ty v t =>
      obtain ⟨types, others⟩ := List.forall_mem_append.1 ih
      obtain ⟨type, both⟩ := List.forall_mem_append.1 others
      obtain ⟨value, body⟩ := List.forall_mem_cons.1 both
      rw [settle, settleBinders_eq, settleType_eq, print, print,
        printBinders_map (forall_binder_types.1 types), printType_map (forall_optional_type.1 type),
        value, List.forall_mem_singleton.1 body]
    | caseOf ts as =>
      obtain ⟨scrutinees, bodies⟩ := List.forall_mem_append.1 ih
      rw [settle, settleAll_eq, settleArms_eq, print, print, printCommas_map scrutinees,
        printArms_map (List.forall_mem_map.1 bodies)]
    | parens t => rw [settle, print, print, List.forall_mem_singleton.1 ih]
    | arrow t u =>
      obtain ⟨dom, rest⟩ := List.forall_mem_cons.1 ih
      have cod := List.forall_mem_singleton.1 rest
      rw [settle, print]
      cases closed : t.isDomain with
      | true => rw [if_pos rfl, print_extend, dom, cod]; rfl
      | false =>
        rw [if_neg Bool.false_ne_true, print, cod]
        simp [isDomain, print, parenthesized, dom]
    | ascribed t u =>
      obtain ⟨term, rest⟩ := List.forall_mem_cons.1 ih
      rw [settle, print, print, isAtom_settle, term, List.forall_mem_singleton.1 rest]
    | ite c t u =>
      obtain ⟨cond, branches⟩ := List.forall_mem_cons.1 ih
      obtain ⟨yes, no⟩ := List.forall_mem_cons.1 branches
      rw [settle, print, print, cond, yes, List.forall_mem_singleton.1 no]
    | _ => rfl

theorem readable_iff {t : Term} :
    t.Readable ↔ (t.LegibleNode ∧ t.ClosedDomain) ∧ ∀ u ∈ t.children, u.Readable := by
  constructor
  · exact fun h => ⟨⟨(every_iff.1 h.legible).1, (every_iff.1 h.closed).1⟩, fun u hu => h.child hu⟩
  · rintro ⟨⟨legible, closed⟩, parts⟩
    exact ⟨every_iff.2 ⟨legible, fun u hu => (parts u hu).legible⟩,
      every_iff.2 ⟨closed, fun u hu => (parts u hu).closed⟩⟩

/-- Either the last child of a term is extended, or the whole term is a domain. -/
theorem extend_cases (t u : Term) :
    (∃ front last, t.children = front ++ [last] ∧
      (t.extend u).children = front ++ [last.extend u] ∧
      ((t.extend u).LegibleNode ↔ t.LegibleNode) ∧
      ((t.extend u).ClosedDomain ↔ t.ClosedDomain)) ∨
    (t.extend u = .arrow t u ∧ t.isOpen = false) := by
  cases t with
  | lam bs t | pi bs t => exact .inl ⟨_, t, rfl, rfl, .rfl, .rfl⟩
  | fix x bs ty t =>
    exact .inl ⟨_, t, (List.append_assoc ..).symm, (List.append_assoc ..).symm, .rfl, .rfl⟩
  | letIn x bs ty v t =>
    refine .inl ⟨bs.flatMap (·.type.toList) ++ (ty.toList ++ [v]), t, ?_, ?_, .rfl, .rfl⟩
    · simp [children]
    · simp [children, extend]
  | ite c s t => exact .inl ⟨[c, s], t, rfl, rfl, .rfl, .rfl⟩
  | arrow s t | ascribed s t => exact .inl ⟨[s], t, rfl, rfl, .rfl, .rfl⟩
  | _ => exact .inr ⟨rfl, rfl⟩

theorem Readable.extend {t u : Term} (ht : t.Readable) (hu : u.Readable) :
    (t.extend u).Readable := by
  induction t using induction_children with
  | step t ih =>
    obtain ⟨node, parts⟩ := readable_iff.1 ht
    rcases extend_cases t u with ⟨front, last, before, behind, legible, closed⟩ | ⟨whole, closed⟩
    · rw [before] at parts ih
      obtain ⟨others, inner⟩ := List.forall_mem_append.1 parts
      have extended := ih last (by simp) (List.forall_mem_singleton.1 inner)
      rw [readable_iff, legible, closed, behind]
      exact ⟨node, List.forall_mem_append.2 ⟨others, List.forall_mem_singleton.2 extended⟩⟩
    · rw [whole, readable_iff]
      exact ⟨⟨trivial, closed⟩, List.forall_mem_cons.2 ⟨ht, List.forall_mem_singleton.2 hu⟩⟩

theorem binder_types_map (f : Term → Term) (bs : List Binder) :
    (bs.map (Binder.mapType f)).flatMap (·.type.toList) = (bs.flatMap (·.type.toList)).map f := by
  induction bs with
  | nil => rfl
  | cons b bs ih =>
    obtain ⟨x, ty, implicit⟩ := b
    rw [List.map_cons, List.flatMap_cons, List.flatMap_cons, List.map_append, ih]
    cases ty <;> rfl

theorem binder_names_map {f : Term → Term} {bs : List Binder}
    (h : ∀ b ∈ bs, Identifier.Legible b.name) :
    ∀ b ∈ bs.map (Binder.mapType f), Identifier.Legible b.name := by
  rw [List.forall_mem_map]
  rintro ⟨x, ty, implicit⟩ hb
  exact h (.mk x ty implicit) hb

/-- Outside of function types settling a term is settling its children. -/
theorem settle_cases (t : Term) :
    (∃ s u, t = .arrow s u) ∨ (t.settle.children = t.children.map settle ∧
      (t.LegibleNode → t.settle.LegibleNode) ∧ t.settle.ClosedDomain) := by
  cases t with
  | arrow s u => exact .inl ⟨s, u, rfl⟩
  | app f ts => exact .inr ⟨by simp [settle, children, settleAll_eq], id, trivial⟩
  | lam bs t | pi bs t =>
    refine .inr ⟨?_, ?_, trivial⟩
    · simp only [settle, children, settleBinders_eq, binder_types_map, List.map_append,
        List.map_cons, List.map_nil]
    · rw [settle, settleBinders_eq]
      exact binder_names_map
  | fix x bs ty t =>
    refine .inr ⟨?_, ?_, trivial⟩
    · simp only [settle, children, settleBinders_eq, settleType_eq, binder_types_map,
        List.map_append, List.map_cons, List.map_nil]
      cases ty <;> rfl
    · rw [settle, settleBinders_eq]
      exact And.imp_right binder_names_map
  | letIn x bs ty v t =>
    refine .inr ⟨?_, ?_, trivial⟩
    · simp only [settle, children, settleBinders_eq, settleType_eq, binder_types_map,
        List.map_append, List.map_cons, List.map_nil]
      cases ty <;> rfl
    · rw [settle, settleBinders_eq]
      exact And.imp_right binder_names_map
  | caseOf ts as =>
    refine .inr ⟨?_, ?_, trivial⟩
    · have bodies : ∀ as : List Arm, (as.map (Arm.map id settle)).map Arm.body =
          (as.map Arm.body).map settle := by
        intro as
        rw [List.map_map, List.map_map]
        refine List.map_congr_left ?_
        rintro ⟨ps, t⟩ _
        rfl
      simp only [settle, children, settleAll_eq, settleArms_eq, List.map_append, bodies]
    · intro legible
      rw [settle, settleArms_eq, LegibleNode, List.forall_mem_map]
      rintro ⟨ps, t⟩ ha
      simpa [Arm.map, Arm.patterns] using legible _ ha
  | _ => exact .inr ⟨rfl, id, trivial⟩

theorem readable_settle {t : Term} (h : t.Legible) : t.settle.Readable := by
  induction t using induction_children with
  | step t ih =>
    obtain ⟨node, parts⟩ := every_iff.1 h
    have parts : ∀ u ∈ t.children, u.settle.Readable := fun u hu => ih u hu (parts u hu)
    rcases settle_cases t with ⟨s, u, rfl⟩ | ⟨children_eq, legible, closed⟩
    · obtain ⟨dom, rest⟩ := List.forall_mem_cons.1 parts
      have cod := List.forall_mem_singleton.1 rest
      rw [settle]
      split
      · exact dom.extend cod
      · have inner : (parens s.settle).Readable :=
          readable_iff.2 ⟨⟨trivial, trivial⟩, List.forall_mem_singleton.2 dom⟩
        exact readable_iff.2 ⟨⟨trivial, rfl⟩,
          List.forall_mem_cons.2 ⟨inner, List.forall_mem_singleton.2 cod⟩⟩
    · rw [readable_iff, children_eq, List.forall_mem_map]
      exact ⟨⟨legible node, closed⟩, parts⟩

section Skeleton

/-- Applications in a skeleton have arguments. -/
theorem skeleton_app {t f : Term} {ts : List Term} (h : t.skeleton = .app f ts) : ts ≠ [] := by
  induction t using induction_children generalizing f ts with
  | step t ih =>
    cases t with
    | app g us =>
      rw [skeleton] at h
      cases args : skeletonAll us with
      | nil =>
        rw [args, apply_nil] at h
        exact ih g (List.mem_cons_self ..) h
      | cons u us =>
        rw [args] at h
        rintro rfl
        cases head : g.skeleton <;> simp [head, apply] at h
    | parens u =>
      rw [skeleton] at h
      exact ih u (List.mem_cons_self ..) h
    | _ => simp [skeleton] at h

theorem apply_cases (f : Term) :
    (∃ k us, f = .app k us ∧ ∀ a as, f.apply (a :: as) = .app k (us ++ a :: as)) ∨
      ∀ a as, f.apply (a :: as) = .app f (a :: as) := by
  cases f with
  | app k us => exact .inl ⟨k, us, rfl, fun _ _ => rfl⟩
  | _ => exact .inr fun _ _ => rfl

/-- Skeletons applied to equally many arguments differ in the head or in the arguments. -/
theorem apply_skeleton_inj {s t : Term} {as bs : List Term} (length : as.length = bs.length) :
    s.skeleton.apply as = t.skeleton.apply bs ↔ s.skeleton = t.skeleton ∧ as = bs := by
  constructor
  · intro h
    rcases as with _ | ⟨a, as⟩ <;> rcases bs with _ | ⟨b, bs⟩
    · rw [apply_nil, apply_nil] at h
      exact ⟨h, rfl⟩
    · cases length
    · cases length
    · rcases apply_cases s.skeleton with ⟨k, us, head, whole⟩ | whole <;>
        rcases apply_cases t.skeleton with ⟨l, vs, other, total⟩ | total <;>
        rw [whole, total] at h
      · obtain ⟨rfl, args⟩ := app.inj h
        obtain ⟨rfl, rest⟩ := List.append_inj' args length
        exact ⟨head.trans other.symm, rest⟩
      · obtain ⟨-, args⟩ := app.inj h
        have longer := congrArg List.length args
        have some := List.length_pos_iff.2 (skeleton_app head)
        simp at length longer
        omega
      · obtain ⟨-, args⟩ := app.inj h
        have longer := congrArg List.length args
        have some := List.length_pos_iff.2 (skeleton_app other)
        simp at length longer
        omega
      · exact app.inj h
  · rintro ⟨head, rfl⟩
    rw [head]

theorem binders_skeleton_iff {bs : List Binder} :
    (bs.map (Binder.mapType settle)).map (Binder.mapType skeleton) =
      bs.map (Binder.mapType skeleton) ↔
        ∀ u ∈ bs.flatMap (·.type.toList), u.settle.skeleton = u.skeleton := by
  rw [List.map_map, List.map_inj_left, forall_binder_types]
  refine forall₂_congr fun b _ => ?_
  obtain ⟨x, ty, implicit⟩ := b
  cases ty <;> simp [Binder.mapType, Binder.type]

theorem type_skeleton_iff {ty : Option Term} :
    (ty.map settle).map skeleton = ty.map skeleton ↔
      ∀ u ∈ ty.toList, u.settle.skeleton = u.skeleton := by
  cases ty <;> simp

theorem arms_skeleton_iff {as : List Arm} :
    (as.map (Arm.map id settle)).map (Arm.map Pattern.skeleton skeleton) =
      as.map (Arm.map Pattern.skeleton skeleton) ↔
        ∀ u ∈ as.map Arm.body, u.settle.skeleton = u.skeleton := by
  rw [List.map_map, List.map_inj_left, List.forall_mem_map]
  refine forall₂_congr fun a _ => ?_
  obtain ⟨ps, t⟩ := a
  simp [Arm.map, Arm.body]

theorem skeleton_settle_arrow {t : Term} (closed : t.isOpen = false) (u : Term) :
    (arrow t u).settle.skeleton = .arrow t.settle.skeleton u.settle.skeleton := by
  rw [settle]
  cases t with
  | pi bs t => rfl
  | arrow s t => rfl
  | _ => first | rfl | cases closed

/-- With an open domain the outermost form of a function type is that of the domain. -/
theorem skeleton_settle_ne_arrow {t : Term} (opened : t.isOpen) (u v w : Term) :
    (arrow t u).settle.skeleton ≠ .arrow v w := by
  rw [settle]
  cases t with
  | lam bs t => simp [isDomain, settle, extend, skeleton]
  | fix x bs ty t => simp [isDomain, settle, extend, skeleton]
  | ite c s t => simp [isDomain, settle, extend, skeleton]
  | letIn x bs ty s t => simp [isDomain, settle, extend, skeleton]
  | ascribed s t => simp [isDomain, settle, extend, skeleton]
  | _ => cases opened

/-- Settling keeps the skeleton of a term if and only if it keeps those of its children and the
term is no function type with an open domain. -/
theorem skeleton_settle_children (t : Term) :
    t.settle.skeleton = t.skeleton ↔
      t.ClosedDomain ∧ ∀ u ∈ t.children, u.settle.skeleton = u.skeleton := by
  cases t with
  | app f ts =>
    simp only [settle, skeleton, settleAll_eq, skeletonAll_eq, ClosedDomain, children, true_and,
      List.forall_mem_cons]
    rw [apply_skeleton_inj (by simp), List.map_map, List.map_inj_left]
    rfl
  | lam bs t | pi bs t =>
    simp only [settle, skeleton, settleBinders_eq, skeletonBinders_eq, ClosedDomain, children,
      true_and, List.forall_mem_append, List.forall_mem_singleton, ← binders_skeleton_iff]
    simp
  | fix x bs ty t =>
    simp only [settle, skeleton, settleBinders_eq, skeletonBinders_eq, settleType_eq,
      skeletonType_eq, ClosedDomain, children, true_and, List.forall_mem_append,
      List.forall_mem_singleton, ← binders_skeleton_iff, ← type_skeleton_iff]
    simp
  | letIn x bs ty v t =>
    simp only [settle, skeleton, settleBinders_eq, skeletonBinders_eq, settleType_eq,
      skeletonType_eq, ClosedDomain, children, true_and, List.forall_mem_append,
      List.forall_mem_cons, ← binders_skeleton_iff, ← type_skeleton_iff]
    simp
  | caseOf ts as =>
    simp only [settle, skeleton, settleAll_eq, skeletonAll_eq, settleArms_eq, skeletonArms_eq,
      ClosedDomain, children, true_and, List.forall_mem_append, ← arms_skeleton_iff,
      caseOf.injEq]
    simp [List.map_inj_left]
  | arrow t u =>
    cases opened : t.isOpen with
    | true => simp [ClosedDomain, opened, skeleton, skeleton_settle_ne_arrow opened]
    | false => simp [ClosedDomain, opened, skeleton, skeleton_settle_arrow opened, children]
  | _ => simp [settle, skeleton, ClosedDomain, children]

theorem skeleton_settle_iff (t : Term) : t.settle.skeleton = t.skeleton ↔ t.ClosedDomains := by
  induction t using induction_children with
  | step t ih =>
    rw [skeleton_settle_children, ClosedDomains, every_iff]
    exact and_congr_right fun _ => forall₂_congr ih

end Skeleton

theorem skeleton_eq_of_print_eq {t u : Term} (ht : t.Readable) (hu : u.Readable)
    (same : t.print = u.print) : t.skeleton = u.skeleton := by
  have tokens := tokens_eq_of_print_eq ht.legible hu.legible same
  have left := Reader.term_tokens (sizeOf t + sizeOf u) ht (by omega) [] rfl
  have right := Reader.term_tokens (sizeOf t + sizeOf u) hu (by omega) [] rfl
  rw [tokens] at left
  simpa using left.symm.trans right

/-- Legible terms without open domains that are written alike agree up to parentheses, the nesting
of applications and the kinds of names. What is written alike besides is accounted for by settling:
a legible term with an open domain is written like its settled form, which is another term. -/
theorem print_determines (t u : Term) (ht : t.Legible) (hu : u.Legible) :
    (t.ClosedDomains → u.ClosedDomains → t.print = u.print → t.skeleton = u.skeleton) ∧
    (t.print = u.print → t.settle.skeleton = u.settle.skeleton) ∧
    t.settle.Legible ∧ t.settle.ClosedDomains ∧ t.settle.print = t.print ∧
      (t.settle.skeleton = t.skeleton ↔ t.ClosedDomains) := by
  refine ⟨fun closed other same => ?_, fun same => ?_, ?_⟩
  · exact skeleton_eq_of_print_eq ⟨ht, closed⟩ ⟨hu, other⟩ same
  · refine skeleton_eq_of_print_eq (readable_settle ht) (readable_settle hu) ?_
    rw [print_settle, print_settle, same]
  · obtain ⟨legible, closed⟩ := readable_settle ht
    exact ⟨legible, closed, print_settle t, skeleton_settle_iff t⟩

def nestedCall : Term :=
  .app (.app (.var "f") [.typeSort]) [.var "x'"]

def parenthesizedCall : Term :=
  .parens (.app (.parens (.app (.var "f") [.var "Type"])) [.var "x'"])

def kindedDomain : Term :=
  .arrow (.ascribed (.var "a") .typeSort) (.var "b")

theorem kindedDomain_settled :
    (nestedCall.parens.print = "((f Type) x')" ∧
      parenthesizedCall.print = "((f Type) x')" ∧
      nestedCall.parens.skeleton = parenthesizedCall.skeleton) ∧
    kindedDomain.settle.print = "a : Type -> b" ∧
      kindedDomain.settle.skeleton ≠ kindedDomain.skeleton := by
  have names : ∀ x ∈ ["f", "x'", "a", "b", "Type"], Identifier.Legible x := by decide
  have nested : nestedCall.parens.Legible := by
    simp [Legible, Every, subterms, subtermsAll, nestedCall, typeSort, LegibleNode, names]
  have parenthesized : parenthesizedCall.Legible := by
    simp [Legible, Every, subterms, subtermsAll, parenthesizedCall, LegibleNode, names]
  have kinded : kindedDomain.Legible := by
    simp [Legible, Every, subterms, kindedDomain, typeSort, LegibleNode, names]
  have opened : ¬ kindedDomain.ClosedDomains := fun closed =>
    Bool.noConfusion (closed.self : true = false)
  have determined := (print_determines _ _ nested parenthesized).1
  obtain ⟨-, -, -, -, written, kept⟩ := print_determines _ _ kinded kinded
  refine ⟨⟨rfl, rfl, determined ?_ ?_ rfl⟩, written.trans rfl, mt kept.1 opened⟩
  · simp [ClosedDomains, Every, subterms, subtermsAll, nestedCall, typeSort, ClosedDomain]
  · simp [ClosedDomains, Every, subterms, subtermsAll, parenthesizedCall, ClosedDomain]

/-- A function type over a function literal, and a function literal over a function type. -/
def literalDomain : Term :=
  .arrow (.lam [.plain "x"] (.var "a")) (.var "b")

def literalBody : Term :=
  .lam [.plain "x"] (.arrow (.var "a") (.var "b"))

theorem literalDomain_written_like_literalBody :
    literalDomain.Legible ∧ literalBody.Legible ∧ literalDomain.print = "fun x => a -> b" ∧
      literalBody.print = "fun x => a -> b" ∧ literalDomain.skeleton ≠ literalBody.skeleton := by
  have names : ∀ x ∈ ["x", "a", "b"], Identifier.Legible x := by decide
  refine ⟨?_, ?_, rfl, rfl, ?_⟩
  · simp [Legible, Every, subterms, subtermsBinders, subtermsType, literalDomain, Binder.plain,
      Binder.name, LegibleNode, names]
  · simp [Legible, Every, subterms, subtermsBinders, subtermsType, literalBody, Binder.plain,
      Binder.name, LegibleNode, names]
  · simp [literalDomain, literalBody, skeleton]

end Term

end Vernacular
