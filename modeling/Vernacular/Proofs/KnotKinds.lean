import Vernacular.Proofs.Resolution

/-!
The kinds of the parameters of a synonym in a knot. New parameter names keep off the names of the
definition, but not off those of the kinds. So the kind of a later parameter means the same under
the new names exactly if none of them captures a name in it.
-/

set_option autoImplicit false

namespace Vernacular

/-- Binding `new` instead of `old` captures nothing in a term that is renamed accordingly: no free
name of the term is a new name, and no parameter occurs inside a binder of its own new name. Of
repeated parameters the last one is meant. -/
structure Term.ClearOf (t : Term) (old new : List String) : Prop where
  outer : ∀ x ∈ t.free, x ∈ new → x ∈ old
  inner : ∀ x ys, t.Occurs x ys → x ∉ ys → Renaming.apply (old.zip new).reverse x ∉ ys

/-- An outer name stays one under other binders iff none of these has its name. -/
theorem Scope.binds_outside_iff {old new : List String} {x : String} (h : x ∉ old) :
    outside.binds new x = outside.binds old x ↔ x ∉ new := by
  have outer : ∀ n, Reference.shift^[n] (.free x) = .free x := Function.iterate_fixed rfl
  have before : outside.binds old x = .free x := (binds_of_not_mem outside h).trans (outer _)
  rw [before]
  by_cases bound : x ∈ new
  · obtain ⟨i, -, found⟩ := binds_of_mem bound
    simp [found, bound]
  · simp only [bound, not_false_eq_true, iff_true]
    exact (binds_of_not_mem outside bound).trans (outer _)

namespace Renaming

theorem apply_append_congr {m n : Renaming} (h : ∀ x, m.apply x = n.apply x) (front : Renaming)
    (x : String) : (front ++ m).apply x = (front ++ n).apply x := by
  by_cases key : x ∈ front.map Prod.fst
  · rw [apply_append_of_mem key, apply_append_of_mem key]
  · rw [apply_append_of_not_mem key, apply_append_of_not_mem key, h]

theorem apply_zip_of_not_mem {old new : List String} {x : String} (h : x ∉ old) :
    apply (old.zip new).reverse x = x := by
  refine apply_of_not_mem fun key => h ?_
  obtain ⟨e, listed, rfl⟩ := List.mem_map.1 key
  exact (List.of_mem_zip (List.mem_reverse.1 listed)).1

end Renaming

section Params

variable {others taken : List String} {m : Renaming} {bs : List Binder}

/-- The renaming that comes out of the parameters takes each to its new name. -/
theorem apply_renameParams (keys : ∀ e ∈ m, e.1 ∈ others) (x : String) :
    (renameParams others taken m bs).2.apply x =
      Renaming.apply (((bs.map Binder.name).zip
        ((renameParams others taken m bs).1.map Binder.name)).reverse ++ m) x := by
  induction bs generalizing taken m with
  | nil => rfl
  | cons b bs ih =>
    obtain ⟨y, type, implicit⟩ := b
    by_cases clash : y ∈ others
    · have more : ∀ e ∈ (y, Identifier.fresh taken y) :: m, e.1 ∈ others :=
        List.forall_mem_cons.2 ⟨clash, keys⟩
      simp only [renameParams, clash, if_true, List.map_cons, Binder.name, List.zip_cons_cons,
        List.reverse_cons, List.append_assoc, List.singleton_append, ih more]
    · -- a parameter that stays is no old name, so that it can as well be renamed to itself
      have same : ∀ z, m.apply z = Renaming.apply ((y, y) :: m) z := by
        intro z
        rw [Renaming.apply_cons]
        split
        · rename_i eq
          rw [eq]
          exact Renaming.apply_of_not_mem fun key => by
            obtain ⟨e, listed, rfl⟩ := List.mem_map.1 key
            exact clash (keys e listed)
        · rfl
      simp only [renameParams, clash, if_false, List.map_cons, Binder.name, List.zip_cons_cons,
        List.reverse_cons, List.append_assoc, List.singleton_append, ih keys,
        Renaming.apply_append_congr same]

theorem renameParams_at (others taken : List String) (m : Renaming) {k : Nat} {b : Binder}
    (h : bs[k]? = some b) :
    (renameParams others taken m bs).1.take k = (renameParams others taken m (bs.take k)).1 ∧
      ∃ y, (renameParams others taken m bs).1[k]? = some (.mk y
        (Term.renameType (renameParams others taken m (bs.take k)).2 b.type) b.implicit) := by
  induction bs generalizing taken m k with
  | nil => cases h
  | cons c bs ih =>
    obtain ⟨x, type, implicit⟩ := c
    cases k with
    | zero =>
      cases h
      by_cases clash : x ∈ others
      · simp [renameParams, clash, Binder.type, Binder.implicit]
      · simp [renameParams, clash, Binder.type, Binder.implicit]
    | succ k =>
      by_cases clash : x ∈ others
      · simpa [renameParams, clash] using ih _ _ h
      · simpa [renameParams, clash] using ih _ _ h

/-- A name in the scope of the parameters stands for the same under their new names iff it is not
an outer name that one of them has got. -/
theorem resolved_renameParams (params : bs.map Binder.name ⊆ taken) (x : String) :
    Scope.outside.binds ((renameParams others taken [] bs).1.map Binder.name)
        ((renameParams others taken [] bs).2.apply x) =
      Scope.outside.binds (bs.map Binder.name) x ↔
      (x ∈ (renameParams others taken [] bs).1.map Binder.name → x ∈ bs.map Binder.name) := by
  by_cases param : x ∈ bs.map Binder.name
  · have start : Renaming.Carries [] Scope.outside Scope.outside (bs.map Binder.name) :=
      ⟨fun _ _ => rfl, fun _ _ => List.forall_mem_nil _⟩
    have carried := renameParams_carries others start (List.forall_mem_nil _)
      (List.forall_mem_nil _) params (List.Subset.refl _)
    simp only [carried.resolved x param, param, implies_true]
  · have stays : (renameParams others taken [] bs).2.apply x = x := by
      rw [apply_renameParams (List.forall_mem_nil _), List.append_nil,
        Renaming.apply_zip_of_not_mem param]
    rw [stays, Scope.binds_outside_iff param]
    simp only [param, imp_false]

theorem nameless_renameParams_iff (params : bs.map Binder.name ⊆ taken) {kind : Term} :
    (kind.rename (renameParams others taken [] bs).2).nameless
        (Scope.outside.binds ((renameParams others taken [] bs).1.map Binder.name)) =
      kind.nameless (Scope.outside.binds (bs.map Binder.name)) ↔
      kind.ClearOf (bs.map Binder.name) ((renameParams others taken [] bs).1.map Binder.name) := by
  have new : ∀ x, (renameParams others taken [] bs).2.apply x =
      Renaming.apply ((bs.map Binder.name).zip
        ((renameParams others taken [] bs).1.map Binder.name)).reverse x := by
    intro x
    rw [apply_renameParams (List.forall_mem_nil _), List.append_nil]
  rw [Term.nameless_rename_iff_uncaptured]
  constructor
  · refine fun h => ⟨fun x free => ?_, fun x ys occurs outside => ?_⟩
    · obtain ⟨ys, occurs, outside⟩ := Term.mem_free_iff_occurs.1 free
      exact (resolved_renameParams params x).1 (h x ys occurs outside).2
    · rw [← new]
      exact (h x ys occurs outside).1
  · intro clear x ys occurs outside
    have free := Term.mem_free_iff_occurs.2 ⟨ys, occurs, outside⟩
    refine ⟨?_, (resolved_renameParams params x).2 (clear.outer x free)⟩
    rw [new]
    exact clear.inner x ys occurs outside

end Params

/-- The kind of a parameter of a synonym in a knot means under the new names of the parameters
before it what it meant under the old ones exactly if these names are clear of it. -/
theorem Group.knot_keeps_kind_iff (g : Group) (i : Nat) (s : Synonym) (k : Nat) (b : Binder)
    (param : s.params[k]? = some b) :
    ∃ c, (g.knotParams i s).1[k]? = some c ∧ c.implicit = b.implicit ∧
      (Term.namelessType
          (Scope.outside.binds (((g.knotParams i s).1.take k).map Binder.name)) c.type =
        Term.namelessType (Scope.outside.binds ((s.params.take k).map Binder.name)) b.type ↔
        ∀ kind ∈ b.type, kind.ClearOf ((s.params.take k).map Binder.name)
          (((g.knotParams i s).1.take k).map Binder.name)) := by
  have known : (s.params.take k).map Binder.name ⊆ g.takenNames i s :=
    List.Subset.trans (List.map_subset _ (List.take_subset k _)) (g.params_subset_takenNames i s)
  obtain ⟨front, y, found⟩ := renameParams_at (g.otherParams i) (g.takenNames i s) [] param
  rw [knotParams_eq]
  refine ⟨_, found, rfl, ?_⟩
  rw [front, Binder.type]
  cases b.type with
  | none => simp [Term.renameType, Term.namelessType]
  | some kind =>
    simp only [Term.renameType, Term.namelessType, Option.some.injEq, Option.mem_some_iff,
      forall_eq']
    exact nameless_renameParams_iff known

/-- A synonym of which the second parameter has the first one as its kind, and the third a kind from
outside. The type that it is in a knot with has a parameter `a` too. -/
def kindedSynonym : Synonym where
  name := "S"
  params := [.plain "a", .mk "b" (some (.var "a")) false, .mk "c" (some (.var "a_")) false]
  kind := none
  body := .app (.var "T") [.var "a"]

def kindedKnot : Group :=
  .ofMembers
    [.data
      { name := "T"
        params := [.plain "a"]
        type := .typeSort
        constructors :=
          [⟨"Mk_Node", [], .arrow (.app (.var "S") [.var "a", .var "a", .var "a"])
            (.app (.var "T") [.var "a"])⟩] },
    .synonym kindedSynonym]

theorem kindedKnot_keeps_second_kind :
    kindedKnot.kind = .mixed ∧ kindedKnot.synonyms[0]? = some kindedSynonym ∧
      kindedSynonym.params[1]? = some (.mk "b" (some (.var "a")) false) ∧
      (Term.var "a").ClearOf ["a"] ["a_"] ∧
      ∃ c, (kindedKnot.knotParams 0 kindedSynonym).1[1]? = some c ∧
        Term.namelessType (Scope.outside.binds ["a_"]) c.type = some (.ref (.bound 0)) := by
  have clear : (Term.var "a").ClearOf ["a"] ["a_"] := by
    constructor
    · rintro x free -
      exact free
    · rintro x ys occurs -
      cases occurs with
      | here => exact List.not_mem_nil
      | inside part => cases part
  obtain ⟨c, found, -, iff⟩ := Group.knot_keeps_kind_iff kindedKnot 0 kindedSynonym 1 _ rfl
  refine ⟨rfl, rfl, rfl, clear, c, found, iff.2 ?_⟩
  rintro kind ⟨⟩
  exact clear

/-- The new name `a_` captures the kind of the third parameter, which was an outer name. -/
theorem kindedKnot_captures_third_kind :
    kindedKnot.kind = .mixed ∧ kindedKnot.synonyms[0]? = some kindedSynonym ∧
      (kindedKnot.shorthand 0 kindedSynonym).term.print =
        "fun a_ (b : a_) (c : a_) => Synonym S__raw (T a_)" ∧
      ∃ b c, kindedSynonym.params[2]? = some b ∧
        (kindedKnot.knotParams 0 kindedSynonym).1[2]? = some c ∧
        Term.namelessType (Scope.outside.binds
            (((kindedKnot.knotParams 0 kindedSynonym).1.take 2).map Binder.name)) c.type ≠
          Term.namelessType (Scope.outside.binds ((kindedSynonym.params.take 2).map Binder.name))
            b.type := by
  refine ⟨rfl, rfl, rfl, _, _, rfl, rfl, ?_⟩
  change some (Nameless.ref (.bound 1)) ≠ some (.ref (.free "a_"))
  intro same
  cases same

end Vernacular
