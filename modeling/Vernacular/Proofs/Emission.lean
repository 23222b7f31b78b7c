import Vernacular.Proofs.Grouping
import Vernacular.Proofs.KnotParams
import Vernacular.Proofs.Outcome

set_option autoImplicit false

namespace Vernacular

namespace Declaration

/-- Whether two places are in one strongly connected component of the references. -/
def Joined (ds : List Declaration) (u v : Fin ds.length) : Prop :=
  u = v ∨ Relation.TransGen (Refers ds) u v ∧ Relation.TransGen (Refers ds) v u

theorem joined_iff_mem_component {ds : List Declaration} {u v : Fin ds.length} :
    Joined ds u v ↔ ∃ part ∈ (references ds).components, u ∈ part ∧ v ∈ part :=
  (Graph.same_component_iff.trans Group.eq_or_mutual_iff).symm

theorem mem_component_iff {ds : List Declaration} {part : List (Fin ds.length)}
    (hpart : part ∈ (references ds).components) {u v : Fin ds.length} (hu : u ∈ part) :
    v ∈ part ↔ Joined ds u v := by
  rw [joined_iff_mem_component]
  constructor
  · exact fun hv => ⟨part, hpart, hu, hv⟩
  · rintro ⟨other, hother, hu', hv⟩
    rwa [Graph.component_unique hpart hother hu hu']

def inductivesAt (ds : List Declaration) (part : List (Fin ds.length)) : List InductiveBody :=
  (part.map ds.get).filterMap inductive?

def synonymsAt (ds : List Declaration) (part : List (Fin ds.length)) : List Synonym :=
  (part.map ds.get).filterMap synonym?

theorem inductive?_eq_none {d : Declaration} : d.inductive? = none ↔ ∃ s, d = .synonym s := by
  cases d with
  | data b => simp [inductive?]
  | synonym s => simp [inductive?]

theorem length_synonyms {ds : List Declaration} (h : ds.filterMap inductive? = []) :
    (ds.filterMap synonym?).length = ds.length := by
  induction ds with
  | nil => rfl
  | cons d ds ih =>
    cases d with
    | data b => simp [inductive?] at h
    | synonym s =>
      have rest : ds.filterMap inductive? = [] := by simpa [inductive?] using h
      simp [synonym?, ih rest]

theorem inductivesAt_eq_nil {ds : List Declaration} {part : List (Fin ds.length)} :
    inductivesAt ds part = [] ↔ ∀ w ∈ part, ∃ s, ds.get w = .synonym s := by
  simp only [inductivesAt, List.filterMap_eq_nil_iff, List.mem_map, forall_exists_index, and_imp,
    forall_apply_eq_imp_iff₂, inductive?_eq_none]

theorem mem_inductivesAt {ds : List Declaration} {part : List (Fin ds.length)} {b : InductiveBody} :
    b ∈ inductivesAt ds part ↔ ∃ w ∈ part, ds.get w = .data b := by
  rw [inductivesAt, List.filterMap_map, List.mem_filterMap]
  refine exists_congr fun w => and_congr_right fun _ => ?_
  rw [Function.comp_apply]
  cases ds.get w with
  | data c => simp [inductive?]
  | synonym s => simp [inductive?]

theorem mem_synonymsAt {ds : List Declaration} {part : List (Fin ds.length)} {s : Synonym} :
    s ∈ synonymsAt ds part ↔ ∃ w ∈ part, ds.get w = .synonym s := by
  rw [synonymsAt, List.filterMap_map, List.mem_filterMap]
  refine exists_congr fun w => and_congr_right fun _ => ?_
  rw [Function.comp_apply]
  cases ds.get w with
  | data c => simp [synonym?]
  | synonym r => simp [synonym?]

end Declaration

/-- The sentences that a component may be written as: a block of inductive types, the definition of
a synonym, or a block of inductive types and placeholders with a shorthand for each synonym, behind
the reservations of the synonyms' names. -/
inductive Piece : List InductiveBody → List Synonym → List Sentence → Prop
  | block {bs : List InductiveBody} (nonempty : bs ≠ []) : Piece bs [] [.block bs []]
  | definition {s : Synonym} :
      Piece [] [s]
        [.define { name := s.name, binders := s.params, type := s.kind, body := s.body }]
  | knot {bs : List InductiveBody} {ss : List Synonym} {shorthands : List Shorthand}
      (inductives : bs ≠ []) (synonyms : ss ≠ [])
      (named : shorthands.map Shorthand.name = ss.map Synonym.name) :
      Piece bs ss
        (ss.map (fun s => .reserve s.name) ++
          [.block (bs ++ ss.map Synonym.placeholderBody) shorthands])

section Sequence

variable {α β : Type} {f : α → Except Fault β}

/-- Where all members that fail do so with the same fault, that is the fault of the sequence. -/
theorem mapM_eq_error {xs : List α} {fault : Fault}
    (only : ∀ x ∈ xs, ∀ e, f x = .error e → e = fault)
    {e : Fault} : xs.mapM f = .error e ↔ e = fault ∧ ∃ x ∈ xs, f x = .error fault := by
  induction xs with
  | nil => simp [pure, Except.pure]
  | cons x xs ih =>
    rw [List.mapM_cons]
    have ih := ih fun y hy => only y (List.mem_cons_of_mem _ hy)
    cases hx : f x with
    | error d =>
      have same := only x (List.mem_cons_self ..) d hx
      subst same
      constructor
      · intro h
        cases h
        exact ⟨rfl, x, List.mem_cons_self .., hx⟩
      · rintro ⟨rfl, -⟩
        rfl
    | ok y =>
      have later : (∃ z ∈ x :: xs, f z = .error fault) ↔ ∃ z ∈ xs, f z = .error fault := by
        simp [hx]
      rw [later, ← ih]
      cases hxs : xs.mapM f with
      | error d => exact Iff.rfl
      | ok ys => exact ⟨nofun, nofun⟩

theorem map_eq_error {γ : Type} {r : Except Fault β} {k : β → γ} {e : Fault} :
    r.map k = .error e ↔ r = .error e := by
  cases r with
  | ok b => exact ⟨nofun, nofun⟩
  | error d => exact ⟨fun h => by cases h; rfl, fun h => by cases h; rfl⟩

end Sequence

namespace Group

open Declaration

theorem kindOf_mixed (b : InductiveBody) (bs : List InductiveBody) (s : Synonym)
    (ss : List Synonym) : kindOf (b :: bs) (s :: ss) = .mixed := by
  cases ss <;> rfl

theorem sentences_ofMembers_error {ds : List Declaration} {f : Fault} :
    (ofMembers ds).sentences = .error f ↔
      f = .rejected "mutually-recursive type synonyms" ∧ ds.filterMap inductive? = [] ∧
        2 ≤ (ds.filterMap synonym?).length := by
  simp only [sentences, ofMembers_eq]
  generalize ds.filterMap inductive? = bs
  generalize ds.filterMap synonym? = ss
  rcases ss with _ | ⟨s, _ | ⟨r, ss⟩⟩
  · simp [kindOf]
  · cases bs <;> simp [kindOf]
  · cases bs <;> simp [kindOf, eq_comm]

theorem piece_ofMembers {ds : List Declaration} {sentences : List Sentence} (nonempty : ds ≠ [])
    (h : (ofMembers ds).sentences = .ok sentences) :
    Piece (ds.filterMap inductive?) (ds.filterMap synonym?) sentences := by
  have members : ds.filterMap inductive? ≠ [] ∨ ds.filterMap synonym? ≠ [] := by
    obtain ⟨d, rest, rfl⟩ := List.exists_cons_of_ne_nil nonempty
    cases d with
    | data b => exact .inl (by simp [inductive?])
    | synonym s => exact .inr (by simp [synonym?])
  -- the kind of a group, and with it the form of its sentences, depends on these two lists only
  simp only [Group.sentences, ofMembers_eq] at h
  generalize ds.filterMap inductive? = bs at h members ⊢
  generalize ds.filterMap synonym? = ss at h members ⊢
  cases ss with
  | nil =>
    cases h
    exact .block (members.resolve_right (by simp))
  | cons s ss =>
    cases bs with
    | nil =>
      cases ss with
      | nil =>
        cases h
        exact .definition
      | cons r ss => cases h
    | cons b bs =>
      rw [kindOf_mixed] at h
      cases h
      refine .knot (List.cons_ne_nil _ _) (List.cons_ne_nil _ _) ?_
      exact shorthand_names _

theorem ofDeclarations_eq (ds : List Declaration) :
    ofDeclarations ds = (references ds).components.map fun part => ofMembers (part.map ds.get) :=
  rfl

/-- The sentences of the groups are pieces for the components. -/
theorem pieces_of_sentences {ds : List Declaration} {pieces : List (List Sentence)}
    (each : List.Forall₂ (fun g piece => g.sentences = .ok piece) (ofDeclarations ds) pieces) :
    List.Forall₂ (fun part => Piece (inductivesAt ds part) (synonymsAt ds part))
      (references ds).components pieces := by
  rw [ofDeclarations_eq, List.forall₂_map_left_iff] at each
  have nonempty : ∀ part ∈ (references ds).components, part ≠ [] :=
    fun _ hpart => Graph.component_ne_nil hpart
  refine ((List.forall₂_and_left _ _).2 ⟨nonempty, each⟩).imp fun part piece h => ?_
  exact piece_ofMembers (by simpa using h.1) h.2

/-- Some component has two synonyms and no inductive type. -/
def SynonymCycle (ds : List Declaration) : Prop :=
  ∃ u v, u ≠ v ∧ Joined ds u v ∧ ∀ w, Joined ds u w → ∃ s, ds.get w = .synonym s

theorem synonymCycle_iff {ds : List Declaration} :
    SynonymCycle ds ↔ ∃ part ∈ (references ds).components,
      inductivesAt ds part = [] ∧ 2 ≤ (synonymsAt ds part).length := by
  simp only [SynonymCycle, joined_iff_mem_component]
  constructor
  · rintro ⟨u, v, other, ⟨part, hpart, hu, hv⟩, synonyms⟩
    have only : inductivesAt ds part = [] :=
      inductivesAt_eq_nil.2 fun w hw => synonyms w ⟨part, hpart, hu, hw⟩
    refine ⟨part, hpart, only, ?_⟩
    rw [synonymsAt, length_synonyms only, List.length_map]
    match part, hu, hv with
    | [w], hu, hv =>
      have same : u = v := (List.mem_singleton.1 hu).trans (List.mem_singleton.1 hv).symm
      exact absurd same other
    | _ :: _ :: _, _, _ => simp
  · rintro ⟨part, hpart, only, several⟩
    rw [synonymsAt, length_synonyms only, List.length_map] at several
    -- a component lists no place twice, so that its first two places are different ones
    have distinct := Graph.component_nodup hpart
    match part, several with
    | u :: v :: rest, _ =>
      have other : u ≠ v := by
        rintro rfl
        simp at distinct
      refine ⟨u, v, other, ⟨_, hpart, by simp, by simp⟩, ?_⟩
      rintro w ⟨other, hother, hu, hw⟩
      have same := Graph.component_unique hother hpart hu (List.mem_cons_self ..)
      exact inductivesAt_eq_nil.1 only w (same ▸ hw)

theorem exists_rejected_iff {ds : List Declaration} :
    (∃ g ∈ ofDeclarations ds, g.sentences = .error (.rejected "mutually-recursive type synonyms")) ↔
      SynonymCycle ds := by
  simp only [ofDeclarations_eq, List.mem_map, exists_exists_and_eq_and, sentences_ofMembers_error,
    true_and, synonymCycle_iff, inductivesAt, synonymsAt]

theorem emit_eq_error_iff {ds : List Declaration} {f : Fault} :
    emit (ofDeclarations ds) = .error f ↔
      f = .rejected "mutually-recursive type synonyms" ∧ SynonymCycle ds := by
  have only : ∀ g ∈ ofDeclarations ds, ∀ f, g.sentences = .error f →
      f = .rejected "mutually-recursive type synonyms" := by
    rw [ofDeclarations_eq]
    intro g hg f h
    obtain ⟨part, -, rfl⟩ := List.mem_map.1 hg
    exact (sentences_ofMembers_error.1 h).1
  rw [emit, map_eq_error, mapM_eq_error only, exists_rejected_iff]

/-- Only components of several synonyms without an inductive type have no sentences. The sentences
of all others are one piece for each component, in which every member has its place. -/
theorem emit_ofDeclarations (ds : List Declaration) :
    (∀ f, emit (ofDeclarations ds) = .error f ↔
      f = .rejected "mutually-recursive type synonyms" ∧ SynonymCycle ds) ∧
    (¬ SynonymCycle ds →
      ∃ (parts : List (List (Fin ds.length))) (pieces : List (List Sentence)),
        emit (ofDeclarations ds) = .ok pieces.flatten ∧
        parts.flatten.Perm (List.finRange ds.length) ∧
        (∀ u v, (∃ part ∈ parts, u ∈ part ∧ v ∈ part) ↔ Joined ds u v) ∧
        List.Forall₂ (fun part => Piece (inductivesAt ds part) (synonymsAt ds part))
          parts pieces) := by
  refine ⟨fun f => emit_eq_error_iff, fun acyclic => ?_⟩
  cases h : emit (ofDeclarations ds) with
  | error f => exact absurd (emit_eq_error_iff.1 h).2 acyclic
  | ok sentences =>
    obtain ⟨pieces, each, rfl⟩ := Surface.map_eq_ok.1 h
    rw [Surface.mapM_eq_ok] at each
    exact ⟨_, pieces, rfl, Graph.components_perm _, fun u v => joined_iff_mem_component.symm,
      pieces_of_sentences each⟩

def namedForest : List Declaration :=
  [.synonym { name := "Label", params := [], kind := none, body := .var "string" },
    .data
      { name := "Tree"
        params := []
        type := .typeSort
        constructors :=
          [⟨"Mk_Node", [], .arrow (.var "Label") (.arrow (.var "Forest") (.var "Tree"))⟩] },
    .synonym
      { name := "Forest"
        params := []
        kind := none
        body := .app (.var "list") [.var "Tree"] }]

theorem namedForest_emitted :
    ¬ SynonymCycle namedForest ∧
      ∃ (parts : List (List (Fin 3))) (pieces : List (List Sentence)),
        emit (ofDeclarations namedForest) = .ok pieces.flatten ∧
        parts.flatten.Perm (List.finRange 3) ∧
        List.Forall₂
          (fun part => Piece (inductivesAt namedForest part) (synonymsAt namedForest part))
          parts pieces := by
  obtain ⟨rejected, emitted⟩ := emit_ofDeclarations namedForest
  have acyclic : ¬ SynonymCycle namedForest := by
    intro cycle
    have failed := (rejected _).2 ⟨rfl, cycle⟩
    cases failed
  obtain ⟨parts, pieces, written, places, -, each⟩ := emitted acyclic
  exact ⟨acyclic, parts, pieces, written, places, each⟩

end Group

end Vernacular
