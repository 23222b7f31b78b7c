import Vernacular.Proofs.KnotParams
import Vernacular.Proofs.Nameless
import Vernacular.Proofs.Referents

set_option autoImplicit false

namespace Vernacular

open Renaming

namespace Renaming.Carries

variable {m : Renaming} {ρ ρ' : Scope} {names : List String}

/-- Binding the new name where the old one was bound. -/
theorem bind_new {x y : String} (h : m.Carries ρ ρ' names) (unused : y ∉ names)
    (apart : ∀ e ∈ m, e.2 ≠ y) :
    Carries ((x, y) :: m) (ρ.bind x) (ρ'.bind y) names where
  resolved z hz := by
    rw [apply_cons]
    by_cases same : z = x
    · simp [Scope.bind, same]
    · have other : m.apply z ≠ y := by
        rcases m.apply_eq_or_mem z with keep | ⟨e, he, eq⟩
        · rw [keep]
          exact fun eq => unused (eq ▸ hz)
        · exact eq ▸ apart e he
      simp [Scope.bind, same, other, h.resolved z hz]
  fresh z hz e he := by
    rcases List.mem_cons.1 he with rfl | he
    · rintro (rfl : y = z)
      exact unused hz
    · exact h.fresh z hz e he

theorem bind_same {x : String} (h : m.Carries ρ ρ' names) (hx : x ∈ names)
    (off : x ∉ m.map Prod.fst) : m.Carries (ρ.bind x) (ρ'.bind x) names := by
  have kept : m.without [x] = m := by
    refine List.filter_eq_self.2 fun e he => ?_
    have : e.1 ≠ x := fun eq => off (eq ▸ List.mem_map_of_mem he)
    simpa using this
  rw [← kept]
  exact h.bind hx

end Renaming.Carries

/-- The renaming of parameters leads from under the old ones to under the new ones. -/
theorem renameParams_carries (others : List String) {avoid taken : List String} {bs : List Binder}
    {m : Renaming} {ρ ρ' : Scope} (h : m.Carries ρ ρ' avoid) (keys : ∀ e ∈ m, e.1 ∈ others)
    (values : ∀ e ∈ m, e.2 ∈ taken) (sub : avoid ⊆ taken) (params : bs.map Binder.name ⊆ avoid) :
    (renameParams others taken m bs).2.Carries (ρ.binds (bs.map Binder.name))
      (ρ'.binds ((renameParams others taken m bs).1.map Binder.name)) avoid := by
  induction bs generalizing taken m ρ ρ' with
  | nil => exact h
  | cons b bs ih =>
    obtain ⟨x, type, implicit⟩ := b
    have hx : x ∈ avoid := params (List.mem_cons_self ..)
    have rest : bs.map Binder.name ⊆ avoid := fun y hy => params (List.mem_cons_of_mem _ hy)
    by_cases clash : x ∈ others
    · have new := Identifier.fresh_not_mem taken x
      generalize hy : Identifier.fresh taken x = y at new
      simp only [renameParams, clash, if_true, hy, List.map_cons]
      refine ih (h.bind_new (fun hy => new (sub hy)) fun e he eq => new (eq ▸ values e he))
        ?_ ?_ (fun z hz => List.mem_cons_of_mem _ (sub hz)) rest
      · intro e he
        rcases List.mem_cons.1 he with rfl | he
        · exact clash
        · exact keys e he
      · intro e he
        rcases List.mem_cons.1 he with rfl | he
        · exact List.mem_cons_self ..
        · exact List.mem_cons_of_mem _ (values e he)
    · have off : x ∉ m.map Prod.fst := by
        intro hx
        obtain ⟨e, he, rfl⟩ := List.mem_map.1 hx
        exact clash (keys e he)
      simp only [renameParams, clash, if_false, List.map_cons]
      exact ih (h.bind_same hx off) keys values sub rest

theorem getLast_underscored (x : String) (k : Nat) :
    (Identifier.underscored x (k + 1)).toList.getLast? = some '_' := by
  simp [Identifier.underscored, List.replicate_succ', ← List.append_assoc]

theorem getLast_placeholder (x : String) : (placeholder x).toList.getLast? = some 'w' := by
  simp [placeholder]

theorem ne_underscored {x : String} (last : x.toList.getLast? ≠ some '_') (y : String) (k : Nat) :
    x ≠ Identifier.underscored y (k + 1) := by
  rintro rfl
  exact last (getLast_underscored y k)

theorem knotMarker_ne_underscored (x : String) (k : Nat) :
    knotMarker ≠ Identifier.underscored x (k + 1) :=
  ne_underscored (by simp [knotMarker]) x k

theorem placeholder_ne_underscored (x y : String) (k : Nat) :
    placeholder x ≠ Identifier.underscored y (k + 1) :=
  ne_underscored (by simp [getLast_placeholder]) y k

theorem placeholder_ne_knotMarker (x : String) : placeholder x ≠ knotMarker := by
  intro eq
  have last := getLast_placeholder x
  rw [eq] at last
  simp [knotMarker] at last

namespace Group

variable (g : Group) (i : Nat) (s : Synonym)

theorem knotParams_nameless :
    (g.knotParams i s).2.nameless
        (Scope.outside.binds ((g.knotParams i s).1.map Binder.name)) =
      s.body.nameless (Scope.outside.binds (s.params.map Binder.name)) := by
  rw [knotParams_eq]
  have start : Carries [] Scope.outside Scope.outside (g.takenNames i s) :=
    ⟨fun _ _ => rfl, fun _ _ _ he => by cases he⟩
  have carried := renameParams_carries (g.otherParams i) start (by simp) (by simp)
    (List.Subset.refl _) (params_subset_takenNames g i s)
  exact Term.nameless_rename s.body (carried.subset (names_subset_takenNames g i s))

/-- Renaming brings neither the marker nor the placeholder under a parameter of its name. -/
theorem knotParams_apart {x : String} (hx : x = knotMarker ∨ x = placeholder s.name)
    (bound : x ∈ (g.knotParams i s).1.map Binder.name) : x ∈ s.params.map Binder.name := by
  refine ((mem_knotParams_iff g i s ?_).1 bound).1
  rcases hx with rfl | rfl
  · exact knotMarker_ne_underscored
  · exact placeholder_ne_underscored s.name

def knotBodies : List InductiveBody :=
  g.inductives ++ g.synonyms.map Synonym.placeholderBody

theorem marker_mem_members :
    knotMarker ∈ Sentence.members g.knotBodies (g.synonyms.mapIdx g.shorthand) ↔
      knotMarker ∈ g.names := by
  simp [Sentence.members, knotBodies, Synonym.placeholderBody, shorthand_names, names,
    placeholder_ne_knotMarker]

theorem marker_referent_iff (earlier : List Sentence) (params : List Binder) :
    Referent.of (preamble ++ earlier ++ g.synonyms.map fun s => .reserve s.name)
        (Sentence.members g.knotBodies (g.synonyms.mapIdx g.shorthand)) params knotMarker =
      .sentence 0 ↔
    knotMarker ∉ g.names ∧ knotMarker ∉ params.map Binder.name ∧
      ∀ t ∈ earlier, knotMarker ∉ t.declared := by
  have reserved : (∀ t ∈ g.synonyms.map fun s => Sentence.reserve s.name,
      knotMarker ∉ t.declared) ↔ knotMarker ∉ g.synonyms.map Synonym.name := by
    rw [List.forall_mem_map]
    simp [Sentence.declared, eq_comm]
  have placed : Sentence.declaredAt? knotMarker
        (preamble ++ earlier ++ g.synonyms.map fun s => .reserve s.name) = some 0 ↔
      (∀ t ∈ earlier, knotMarker ∉ t.declared) ∧ knotMarker ∉ g.synonyms.map Synonym.name := by
    simp only [preamble, List.cons_append, List.nil_append, Sentence.declaredAt?_cons_eq_zero,
      List.forall_mem_cons, List.forall_mem_append, reserved]
    exact ⟨fun h => h.2.2, fun h => ⟨List.mem_singleton_self _, List.not_mem_nil, h⟩⟩
  have member : knotMarker ∈ g.synonyms.map Synonym.name → knotMarker ∈ g.names :=
    List.mem_append_right _
  rw [Referent.of_eq_sentence, marker_mem_members, placed]
  tauto

theorem unfolded?_shorthand_iff {earlier : List Sentence}
    (clear : ∀ t ∈ earlier, knotMarker ∉ t.declared) :
    (g.shorthand i s).unfolded? (preamble ++ earlier ++ g.synonyms.map fun s => .reserve s.name)
        (Sentence.members g.knotBodies (g.synonyms.mapIdx g.shorthand)) =
      some (.lambda (g.knotParams i s).1 (g.knotParams i s).2) ↔
    knotMarker ∉ g.names ∧ knotMarker ∉ (g.knotParams i s).1.map Binder.name := by
  have split : (g.shorthand i s).term.splitLambda = ((g.knotParams i s).1,
      .app (.var knotMarker) [.var (placeholder s.name), (g.knotParams i s).2]) :=
    Term.splitLambda_lambda_app ..
  have head := g.marker_referent_iff earlier (g.knotParams i s).1
  simp only [Shorthand.unfolded?, split]
  constructor
  · intro h
    split at h
    · rename_i k refers
      obtain ⟨param, member, -⟩ := Referent.of_eq_sentence.1 refers
      exact ⟨mt g.marker_mem_members.2 member, param⟩
    · cases h
  · rintro ⟨member, param⟩
    simp only [head.2 ⟨member, param, clear⟩]
    rfl

theorem sentences_mixed (mixed : g.kind = .mixed) : g.sentences = .ok g.knot := by
  rw [sentences, mixed]

end Group

/-- Every synonym of a knot has a shorthand in the block, over as many parameters, for its
definition, which the marker gives back. The head of the shorthand is the marker of the preamble
exactly if no member of the knot, no parameter and no sentence in between has its name, and then it
unfolds to the definition. -/
theorem Group.knot_keeps_definition (g : Group) (mixed : g.kind = .mixed) (i : Nat) (s : Synonym)
    (member : g.synonyms[i]? = some s) :
    ∃ front bodies shorthands params body marker,
      g.sentences = .ok (front ++ [.block bodies shorthands]) ∧
      shorthands[i]? = some
        { name := s.name
          term := .lambda params (.app (.var knotMarker) [.var (placeholder s.name), body]) } ∧
      params.map Binder.implicit = s.params.map Binder.implicit ∧
      body.nameless (Scope.outside.binds (params.map Binder.name)) =
        s.body.nameless (Scope.outside.binds (s.params.map Binder.name)) ∧
      (∀ x, x = knotMarker ∨ x = placeholder s.name → x ∈ params.map Binder.name →
        x ∈ s.params.map Binder.name) ∧
      (knotMarker ∈ params.map Binder.name ↔
        knotMarker ∈ s.params.map Binder.name ∧ ¬ g.OtherParam i knotMarker) ∧
      preamble[0]? = some (.define marker) ∧ marker.name = knotMarker ∧
      marker.returned [.var (placeholder s.name), body] = some body ∧
      ∀ earlier,
        (Referent.of (preamble ++ earlier ++ front) (Sentence.members bodies shorthands) params
            knotMarker = .sentence 0 ↔
          knotMarker ∉ g.names ∧ knotMarker ∉ params.map Binder.name ∧
            ∀ t ∈ earlier, knotMarker ∉ t.declared) ∧
        ((∀ t ∈ earlier, knotMarker ∉ t.declared) → ∀ h, shorthands[i]? = some h →
          (h.unfolded? (preamble ++ earlier ++ front) (Sentence.members bodies shorthands) =
              some (.lambda params body) ↔
            knotMarker ∉ g.names ∧ knotMarker ∉ params.map Binder.name)) := by
  have found : (g.synonyms.mapIdx g.shorthand)[i]? = some (g.shorthand i s) := by
    rw [List.getElem?_mapIdx, member]
    rfl
  refine ⟨_, _, _, (g.knotParams i s).1, (g.knotParams i s).2, _, sentences_mixed g mixed, found,
    knotParams_implicit g i s, knotParams_nameless g i s, fun x => knotParams_apart g i s,
    mem_knotParams_iff g i s knotMarker_ne_underscored, rfl, rfl, rfl, fun earlier => ?_⟩
  refine ⟨g.marker_referent_iff earlier _, fun clear h listed => ?_⟩
  obtain rfl : g.shorthand i s = h := Option.some.inj (found.symm.trans listed)
  exact g.unfolded?_shorthand_iff i s clear

def forestKnot : Group :=
  .ofMembers
    [.data
      { name := "Tree"
        params := [.plain "a"]
        type := .typeSort
        constructors :=
          [⟨"Mk_Node", [],
            .arrow (.app (.var "Forest") [.var "a"]) (.app (.var "Tree") [.var "a"])⟩] },
    .synonym
      { name := "Forest"
        params := [.plain "a"]
        kind := none
        body := .app (.var "list") [.app (.var "Tree") [.var "a"]] }]

theorem forestKnot_keeps_definition :
    ∃ s, forestKnot.kind = .mixed ∧ forestKnot.synonyms[0]? = some s ∧
      ∃ front bodies shorthands params body,
        forestKnot.sentences = .ok (front ++ [.block bodies shorthands]) ∧
        shorthands[0]? = some
          { name := "Forest"
            term := .lambda params (.app (.var "Synonym") [.var "Forest__raw", body]) } ∧
        body.nameless (Scope.outside.binds (params.map Binder.name)) =
          .app (.ref (.free "list")) [.app (.ref (.free "Tree")) [.ref (.bound 0)]] ∧
        ∃ h, shorthands[0]? = some h ∧
          h.unfolded? (preamble ++ [.assume "list" .typeSort] ++ front)
            (Sentence.members bodies shorthands) = some (.lambda params body) := by
  refine ⟨_, rfl, rfl, ?_⟩
  obtain ⟨front, bodies, shorthands, params, body, -, emitted, shorthand, -, same, -, params_iff,
    -, -, -, unfolding⟩ := Group.knot_keeps_definition forestKnot rfl 0 _ rfl
  have unbound : knotMarker ∉ params.map Binder.name := fun bound => by
    simpa [Binder.name, Binder.plain, knotMarker] using (params_iff.1 bound).1
  refine ⟨front, bodies, shorthands, params, body, emitted, shorthand, same.trans (by rfl), _,
    shorthand, ?_⟩
  exact ((unfolding [.assume "list" .typeSort]).2 (by simp [Sentence.declared, knotMarker]) _
    shorthand).2 ⟨by decide, unbound⟩

/-- A data type with the name of the marker, and a synonym for lists of it. -/
def markerKnot : Group :=
  .ofMembers
    [.data
      { name := "Synonym"
        params := []
        type := .typeSort
        constructors := [⟨"Mk_Mk", [], .arrow (.var "S") (.var "Synonym")⟩] },
    .synonym
      { name := "S", params := [], kind := none, body := .app (.var "list") [.var "Synonym"] }]

/-- In this knot the head of the shorthand is the data type. -/
theorem markerKnot_hides_marker :
    markerKnot.kind = .mixed ∧
      ∃ front bodies shorthands h,
        markerKnot.sentences = .ok (front ++ [.block bodies shorthands]) ∧
        (Sentence.block bodies shorthands).print =
          "Inductive Synonym : Type :=\n  | Mk_Mk : S -> Synonym\nwith S__raw : Type :=\n" ++
            "where \"'S'\" := (Synonym S__raw (list Synonym))." ∧
        shorthands[0]? = some h ∧
        Referent.of (preamble ++ front) (Sentence.members bodies shorthands) [] knotMarker =
          .member ∧
        h.unfolded? (preamble ++ front) (Sentence.members bodies shorthands) = none :=
  ⟨rfl, [.reserve "S"], markerKnot.knotBodies, markerKnot.synonyms.mapIdx markerKnot.shorthand, _,
    rfl, by rfl, rfl, by decide, rfl⟩

end Vernacular
