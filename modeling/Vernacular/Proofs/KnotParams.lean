import Vernacular.Group.Knot
import Vernacular.Proofs.Fresh

/-!
The names of the parameters of a synonym in a knot. A parameter that clashes with another member is
renamed by a search that keeps off the names of the definition, of the other members and of all
parameters, and off the new names before it. So no two of the new names meet.
-/

set_option autoImplicit false

namespace Vernacular

open Identifier

/-- What becomes of a parameter: it stays, or, if it clashes with `others`, gets a name that a
search among the names in use has found for it. -/
structure Binder.Apart (others used : List String) (old new : Binder) : Prop where
  implicit : new.implicit = old.implicit
  kept : old.name ∉ others → new.name = old.name
  renamed : old.name ∈ others → ∃ r, Settles used old.name (r + 1) new.name

theorem settles_fresh_of_mem {taken : List String} {x : String} (used : x ∈ taken) :
    ∃ r, Settles taken x (r + 1) (fresh taken x) := by
  obtain ⟨k, settled⟩ := exists_settles_fresh taken x
  cases k with
  | zero =>
    obtain ⟨eq, off⟩ := settles_zero_iff.1 settled
    exact absurd used (eq ▸ off)
  | succ r => exact ⟨r, settled⟩

section Params

variable {others taken : List String} {m : Renaming} {b : Binder} {bs : List Binder}

/-- The first parameter is kept apart from the names in use, and its new name is then in use too. -/
theorem renameParams_cons (others : List String) (m : Renaming)
    (params : (b :: bs).map Binder.name ⊆ taken) :
    ∃ c later m', (renameParams others taken m (b :: bs)).1 =
        c :: (renameParams others later m' bs).1 ∧
      b.Apart others taken c ∧ (∀ z, z ∈ later ↔ z = c.name ∨ z ∈ taken) ∧
      bs.map Binder.name ⊆ later := by
  obtain ⟨x, type, implicit⟩ := b
  obtain ⟨used, rest⟩ := List.cons_subset.1 params
  by_cases clash : x ∈ others
  · refine ⟨.mk (fresh taken x) (Term.renameType m type) implicit, fresh taken x :: taken,
      (x, fresh taken x) :: m, ?_, ⟨rfl, absurd clash, fun _ => settles_fresh_of_mem used⟩,
      fun z => List.mem_cons, List.subset_cons_of_subset _ rest⟩
    simp only [renameParams, clash, if_true]
  · refine ⟨.mk x (Term.renameType m type) implicit, taken, m, ?_,
      ⟨rfl, fun _ => rfl, fun h => absurd h clash⟩, fun z => ?_, rest⟩
    · simp only [renameParams, clash, if_false]
    · exact ⟨.inr, fun h => h.elim (fun eq => eq ▸ used) id⟩

/-- Each parameter is kept apart from the names taken at the start and the new names before it. -/
theorem renameParams_apart {k : Nat} (params : bs.map Binder.name ⊆ taken)
    (old : bs[k]? = some b) :
    ∃ c, (renameParams others taken m bs).1[k]? = some c ∧
      b.Apart others (taken ++ ((renameParams others taken m bs).1.take k).map Binder.name) c := by
  induction bs generalizing taken m k with
  | nil => cases old
  | cons first bs ih =>
    obtain ⟨c, later, m', eq, apart, grown, known⟩ := renameParams_cons others m params
    rw [eq]
    cases k with
    | zero =>
      cases old
      exact ⟨c, rfl, by simpa using apart⟩
    | succ k =>
      obtain ⟨d, found, implicit, kept, renamed⟩ := ih (m := m') known old
      refine ⟨d, found, implicit, kept, fun clash => ?_⟩
      obtain ⟨r, settled⟩ := renamed clash
      -- the search keeps off the same names, listed with the first new one in another place
      refine ⟨r, settled.congr fun z => ?_⟩
      simp only [List.take_succ_cons, List.map_cons, List.mem_append, List.mem_cons, grown]
      tauto

theorem renameParams_implicit (params : bs.map Binder.name ⊆ taken) :
    (renameParams others taken m bs).1.map Binder.implicit = bs.map Binder.implicit := by
  induction bs generalizing taken m with
  | nil => rfl
  | cons b bs ih =>
    obtain ⟨c, later, m', eq, apart, -, known⟩ := renameParams_cons others m params
    rw [eq, List.map_cons, List.map_cons, apart.implicit, ih known]

theorem length_renameParams (params : bs.map Binder.name ⊆ taken) :
    (renameParams others taken m bs).1.length = bs.length := by
  rw [← List.length_map Binder.implicit, renameParams_implicit params, List.length_map]

/-- A new name is that of a parameter that does not clash, or has got underscores and was not
taken. -/
theorem name_of_mem_renameParams (params : bs.map Binder.name ⊆ taken) {c : Binder}
    (new : c ∈ (renameParams others taken m bs).1) :
    (c.name ∈ bs.map Binder.name ∧ c.name ∉ others) ∨
      (c.name ∉ taken ∧ ∃ x r, c.name = underscored x (r + 1)) := by
  obtain ⟨k, found⟩ := List.mem_iff_getElem?.1 new
  have inside : k < bs.length := by
    obtain ⟨below, -⟩ := List.getElem?_eq_some_iff.1 found
    rwa [length_renameParams params] at below
  have old := List.getElem?_eq_getElem inside
  obtain ⟨d, same, apart⟩ := renameParams_apart params old
  obtain rfl : d = c := Option.some.inj (same.symm.trans found)
  by_cases clash : bs[k].name ∈ others
  · obtain ⟨r, settled⟩ := apart.renamed clash
    obtain ⟨padded, off, -⟩ := settles_iff.1 settled
    exact .inr ⟨fun used => off (List.mem_append_left _ used), _, r, padded⟩
  · rw [apart.kept clash]
    exact .inl ⟨List.mem_map_of_mem (List.getElem_mem inside), clash⟩

theorem renameParams_nodup (params : bs.map Binder.name ⊆ taken)
    (distinct : (bs.map Binder.name).Nodup) :
    ((renameParams others taken m bs).1.map Binder.name).Nodup := by
  induction bs generalizing taken m with
  | nil => exact List.nodup_nil
  | cons b bs ih =>
    obtain ⟨unlike, tail⟩ := List.nodup_cons.1 distinct
    obtain ⟨c, later, m', eq, apart, grown, known⟩ := renameParams_cons others m params
    rw [eq, List.map_cons, List.nodup_cons]
    refine ⟨fun again => ?_, ih known tail⟩
    obtain ⟨d, new, same⟩ := List.mem_map.1 again
    obtain ⟨listed, -⟩ | ⟨off, -⟩ := name_of_mem_renameParams known new
    · rw [same] at listed
      by_cases clash : b.name ∈ others
      · obtain ⟨r, settled⟩ := apart.renamed clash
        exact settled.not_mem (params (List.mem_cons_of_mem _ listed))
      · exact unlike (apart.kept clash ▸ listed)
    · exact off ((grown _).2 (.inl same))

theorem renameParams_names (params : bs.map Binder.name ⊆ taken) {y : String}
    (hy : y ∈ (renameParams others taken m bs).1.map Binder.name) :
    y ∈ bs.map Binder.name ∨ ∃ x k, y = underscored x (k + 1) := by
  obtain ⟨c, new, rfl⟩ := List.mem_map.1 hy
  exact (name_of_mem_renameParams params new).imp And.left And.right

end Params

def Synonym.placeholderBody (s : Synonym) : InductiveBody :=
  { name := placeholder s.name, params := [], type := .typeSort, constructors := [] }

namespace Group

variable (g : Group) (i : Nat) (s : Synonym)

/-- The names that the new parameters of a synonym keep off. -/
def takenNames : List String :=
  s.body.names ++ g.otherParams i ++ s.params.map Binder.name

theorem params_subset_takenNames : s.params.map Binder.name ⊆ g.takenNames i s :=
  List.subset_append_right _ _

theorem otherParams_subset_takenNames : g.otherParams i ⊆ g.takenNames i s :=
  List.Subset.trans (List.subset_append_right _ _) (List.subset_append_left _ _)

theorem names_subset_takenNames : s.body.names ⊆ g.takenNames i s :=
  List.Subset.trans (List.subset_append_left _ _) (List.subset_append_left _ _)

theorem knotParams_eq :
    g.knotParams i s =
      ((renameParams (g.otherParams i) (g.takenNames i s) [] s.params).1,
        s.body.rename (renameParams (g.otherParams i) (g.takenNames i s) [] s.params).2) :=
  rfl

theorem knotParams_implicit :
    (g.knotParams i s).1.map Binder.implicit = s.params.map Binder.implicit := by
  rw [knotParams_eq, renameParams_implicit (g.params_subset_takenNames i s)]

theorem shorthand_names :
    (g.synonyms.mapIdx g.shorthand).map Shorthand.name = g.synonyms.map Synonym.name := by
  refine List.ext_getElem? fun i => ?_
  rw [List.getElem?_map, List.getElem?_mapIdx, List.getElem?_map, Option.map_map]
  rfl

/-- Whether a name is that of a parameter of a member other than the `i`-th synonym. -/
def OtherParam (x : String) : Prop :=
  (∃ b ∈ g.inductives, x ∈ b.params.map Binder.name) ∨
    ∃ j t, j ≠ i ∧ g.synonyms[j]? = some t ∧ x ∈ t.params.map Binder.name

theorem mem_otherParams_iff {x : String} : x ∈ g.otherParams i ↔ g.OtherParam i x := by
  rw [otherParams, List.mem_append, List.mem_flatMap, List.mem_flatMap, OtherParam]
  refine or_congr_right ⟨?_, ?_⟩
  · rintro ⟨t, listed, param⟩
    obtain ⟨j, other, found⟩ := List.mem_eraseIdx_iff_getElem?.1 listed
    exact ⟨j, t, other, found, param⟩
  · rintro ⟨j, t, other, found, param⟩
    exact ⟨t, List.mem_eraseIdx_iff_getElem?.2 ⟨j, other, found⟩, param⟩

/-- A name without an underscore at its end is that of a new parameter if it was that of an old one
and no other member has it. -/
theorem mem_knotParams_iff {x : String} (plain : ∀ y r, x ≠ underscored y (r + 1)) :
    x ∈ (g.knotParams i s).1.map Binder.name ↔
      x ∈ s.params.map Binder.name ∧ ¬ g.OtherParam i x := by
  have known := g.params_subset_takenNames i s
  rw [knotParams_eq, ← mem_otherParams_iff]
  constructor
  · intro bound
    obtain ⟨c, new, rfl⟩ := List.mem_map.1 bound
    obtain kept | ⟨-, y, r, padded⟩ := name_of_mem_renameParams known new
    · exact kept
    · exact absurd padded (plain y r)
  · rintro ⟨bound, clear⟩
    obtain ⟨b, listed, rfl⟩ := List.mem_map.1 bound
    obtain ⟨k, old⟩ := List.mem_iff_getElem?.1 listed
    obtain ⟨c, new, apart⟩ := renameParams_apart known old
    rw [← apart.kept clear]
    exact List.mem_map_of_mem (List.mem_of_getElem? new)

end Group

/-- A synonym gets as many parameters as it had, with different names that no other member has for a
parameter. A parameter keeps its name if it clashes with no other member. If it does, the search for
a new name ends, and adds underscores until the name is neither in the definition nor among the
parameters. -/
theorem Group.knotParams_collisionFree (g : Group) (i : Nat) (s : Synonym)
    (distinct : (s.params.map Binder.name).Nodup) :
    ∃ params body, g.knotParams i s = (params, body) ∧
      params.length = s.params.length ∧
      params.map Binder.implicit = s.params.map Binder.implicit ∧
      (params.map Binder.name).Nodup ∧
      (∀ c ∈ params, ¬ g.OtherParam i c.name) ∧
      ∀ k b c, s.params[k]? = some b → params[k]? = some c →
        (¬ g.OtherParam i b.name → c.name = b.name) ∧
        (g.OtherParam i b.name → ∃ r,
          Settles (g.takenNames i s ++ (params.take k).map Binder.name) b.name (r + 1) c.name ∧
          c.name = underscored b.name (r + 1) ∧ c.name ∉ s.body.names ∧
          c.name ∉ s.params.map Binder.name) := by
  have known := g.params_subset_takenNames i s
  refine ⟨_, _, g.knotParams_eq i s, length_renameParams known, renameParams_implicit known,
    renameParams_nodup known distinct, fun c new => ?_, fun k b c old new => ?_⟩
  · rw [← mem_otherParams_iff]
    obtain ⟨-, clear⟩ | ⟨off, -⟩ := name_of_mem_renameParams known new
    · exact clear
    · exact fun other => off (g.otherParams_subset_takenNames i s other)
  · obtain ⟨d, found, apart⟩ := renameParams_apart known old
    obtain rfl : d = c := Option.some.inj (found.symm.trans new)
    simp only [← mem_otherParams_iff]
    refine ⟨apart.kept, fun clash => ?_⟩
    obtain ⟨r, settled⟩ := apart.renamed clash
    obtain ⟨padded, off, -⟩ := settles_iff.1 settled
    have untaken := fun used => off (List.mem_append_left _ used)
    exact ⟨r, settled, padded, fun used => untaken (g.names_subset_takenNames i s used),
      fun used => untaken (known used)⟩

/-- A synonym over `a`, `a_` and `b`, of which the other members have the first two, in a definition
that mentions `a__`. -/
def crowdedSynonym : Synonym where
  name := "S"
  params := [.plain "a", .hidden (.plain "a_"), .plain "b"]
  kind := none
  body := .app (.var "T") [.var "a", .var "a__"]

def crowdedKnot : Group :=
  .ofMembers
    [.synonym crowdedSynonym,
    .data
      { name := "T"
        params := [.plain "a"]
        type := .typeSort
        constructors := [⟨"Mk_T", [], .arrow (.var "R") (.app (.var "T") [.var "a"])⟩] },
    .synonym { name := "R", params := [.plain "a_"], kind := none, body := .var "S" }]

theorem crowdedKnot_collisionFree :
    crowdedKnot.synonyms[0]? = some crowdedSynonym ∧
      (crowdedSynonym.params.map Binder.name).Nodup ∧
      crowdedKnot.OtherParam 0 "a" ∧ crowdedKnot.OtherParam 0 "a_" ∧
      ∃ params body, crowdedKnot.knotParams 0 crowdedSynonym = (params, body) ∧
        params.map Binder.name = ["a___", "a____", "b"] ∧
        params.map Binder.implicit = [false, true, false] ∧ (params.map Binder.name).Nodup ∧
        ∀ c ∈ params, ¬ crowdedKnot.OtherParam 0 c.name := by
  have distinct : (crowdedSynonym.params.map Binder.name).Nodup := by decide
  obtain ⟨params, body, eq, -, flags, apart, clear, -⟩ :=
    crowdedKnot.knotParams_collisionFree 0 crowdedSynonym distinct
  refine ⟨rfl, distinct, .inl ⟨_, .head _, .head _⟩, .inr ⟨1, _, by decide, rfl, .head _⟩,
    params, body, eq, ?_, flags, apart, clear⟩
  have first : params = (crowdedKnot.knotParams 0 crowdedSynonym).1 := (congrArg Prod.fst eq).symm
  rw [first]
  rfl

end Vernacular
