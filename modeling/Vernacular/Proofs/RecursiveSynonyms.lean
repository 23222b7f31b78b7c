import Vernacular.Proofs.Emission
import Vernacular.Proofs.FreeNames

set_option autoImplicit false

namespace Vernacular

namespace Declaration

variable {ds : List Declaration}

/-- Whether the declaration at `u` is on no cycle through another one. -/
def Alone (ds : List Declaration) (u : Fin ds.length) : Prop :=
  ∀ v, Joined ds u v → v = u

theorem component_eq_singleton_iff {part : List (Fin ds.length)}
    (hpart : part ∈ (references ds).components) {u : Fin ds.length} (hu : u ∈ part) :
    part = [u] ↔ Alone ds u := by
  constructor
  · rintro rfl v joined
    exact List.mem_singleton.1 ((mem_component_iff hpart hu).2 joined)
  · intro alone
    have only : ∀ v ∈ part, v = u := fun v hv => alone v ((mem_component_iff hpart hu).1 hv)
    have length : part = List.replicate part.length u := List.eq_replicate_iff.2 ⟨rfl, only⟩
    have distinct := Graph.component_nodup hpart
    rw [length, List.nodup_replicate] at distinct
    have some := List.length_pos_of_mem hu
    rw [length, show part.length = 1 by omega, List.replicate_one]

theorem single_synonym_iff {part : List (Fin ds.length)} {s : Synonym} :
    inductivesAt ds part = [] ∧ synonymsAt ds part = [s] ↔
      ∃ u, part = [u] ∧ ds.get u = .synonym s := by
  constructor
  · rintro ⟨only, single⟩
    have length : part.length = 1 := by
      rw [← List.length_map ds.get, ← length_synonyms only]
      exact congrArg List.length single
    obtain ⟨u, rfl⟩ := List.length_eq_one_iff.1 length
    obtain ⟨r, found⟩ := inductivesAt_eq_nil.1 only u (List.mem_singleton_self u)
    refine ⟨u, rfl, ?_⟩
    rw [synonymsAt, List.map_singleton, found] at single
    rw [found, List.head_eq_of_cons_eq single]
  · rintro ⟨u, rfl, found⟩
    simp only [inductivesAt, synonymsAt, List.map_singleton, found]
    exact ⟨rfl, rfl⟩

end Declaration

namespace Piece

variable {bs : List InductiveBody} {ss : List Synonym} {sentences : List Sentence}

/-- Only a synonym by itself becomes a definition. -/
theorem mem_define (h : Piece bs ss sentences) {d : Definition} :
    .define d ∈ sentences ↔ ∃ s : Synonym, (bs = [] ∧ ss = [s]) ∧ s.definition = d := by
  cases h with
  | block nonempty => simp [nonempty]
  | definition => simp [Synonym.definition, eq_comm]
  | knot inductives _ _ => simp [inductives]

/-- A synonym beside others, or beside an inductive type, becomes a shorthand of a block. -/
theorem shorthand_of_mem (h : Piece bs ss sentences) {s : Synonym} (hs : s ∈ ss)
    (beside : ¬ (bs = [] ∧ ss = [s])) :
    bs ≠ [] ∧ ∃ bodies shorthands, bs ⊆ bodies ∧ s.name ∈ shorthands.map Shorthand.name ∧
      .block bodies shorthands ∈ sentences := by
  cases h with
  | block _ => cases hs
  | definition =>
    obtain rfl := List.mem_singleton.1 hs
    exact absurd ⟨rfl, rfl⟩ beside
  | knot inductives _ named =>
    refine ⟨inductives, _, _, List.subset_append_left _ _, ?_,
      List.mem_append_right _ (List.mem_singleton_self _)⟩
    rw [named]
    exact List.mem_map_of_mem hs

end Piece

namespace Group

open Declaration

variable {ds : List Declaration} {sentences : List Sentence}

/-- Components and pieces side by side. -/
theorem exists_pieces (h : emit (ofDeclarations ds) = .ok sentences) :
    ∃ pieces, sentences = pieces.flatten ∧
      List.Forall₂ (fun part => Piece (inductivesAt ds part) (synonymsAt ds part))
        (references ds).components pieces := by
  obtain ⟨pieces, each, rfl⟩ := Surface.map_eq_ok.1 h
  exact ⟨pieces, rfl, pieces_of_sentences (Surface.mapM_eq_ok.1 each)⟩

/-- The definitions among the sentences are those of the synonyms that are alone. -/
theorem mem_define_iff (h : emit (ofDeclarations ds) = .ok sentences) {d : Definition} :
    .define d ∈ sentences ↔
      ∃ u s, ds.get u = .synonym s ∧ Alone ds u ∧ Synonym.definition s = d := by
  obtain ⟨pieces, rfl, each⟩ := exists_pieces h
  constructor
  · intro written
    obtain ⟨piece, listed, written⟩ := List.mem_flatten.1 written
    obtain ⟨part, hpart, made⟩ := Surface.exists_of_mem_forall₂ each.flip listed
    obtain ⟨s, single, rfl⟩ := made.mem_define.1 written
    obtain ⟨u, rfl, found⟩ := single_synonym_iff.1 single
    have alone := (component_eq_singleton_iff hpart (List.mem_singleton_self u)).1 rfl
    exact ⟨u, s, found, alone, rfl⟩
  · rintro ⟨u, s, found, alone, rfl⟩
    obtain ⟨part, hpart, hu⟩ := Graph.exists_component (references ds) u
    obtain ⟨piece, listed, made⟩ := Surface.exists_of_mem_forall₂ each hpart
    have single := (component_eq_singleton_iff hpart hu).2 alone
    refine List.mem_flatten.2 ⟨piece, listed, made.mem_define.2 ⟨s, ?_, rfl⟩⟩
    exact single_synonym_iff.2 ⟨u, single, found⟩

/-- A synonym that is not alone is a shorthand of a block with an inductive type of its cycle. -/
theorem exists_shorthand (h : emit (ofDeclarations ds) = .ok sentences) {u : Fin ds.length}
    {s : Synonym} (found : ds.get u = .synonym s) (beside : ¬ Alone ds u) :
    ∃ w b bodies shorthands, Joined ds u w ∧ ds.get w = .data b ∧ b ∈ bodies ∧
      s.name ∈ shorthands.map Shorthand.name ∧ .block bodies shorthands ∈ sentences := by
  obtain ⟨pieces, rfl, each⟩ := exists_pieces h
  obtain ⟨part, hpart, hu⟩ := Graph.exists_component (references ds) u
  obtain ⟨piece, listed, made⟩ := Surface.exists_of_mem_forall₂ each hpart
  have several : ¬ (inductivesAt ds part = [] ∧ synonymsAt ds part = [s]) := by
    intro single
    obtain ⟨v, rfl, -⟩ := single_synonym_iff.1 single
    obtain rfl := List.mem_singleton.1 hu
    exact beside ((component_eq_singleton_iff hpart hu).1 rfl)
  obtain ⟨types, bodies, shorthands, inside, named, block⟩ :=
    made.shorthand_of_mem (mem_synonymsAt.2 ⟨u, hu, found⟩) several
  obtain ⟨b, hb⟩ := List.exists_mem_of_ne_nil _ types
  obtain ⟨w, hw, data⟩ := mem_inductivesAt.1 hb
  exact ⟨w, b, bodies, shorthands, (mem_component_iff hpart hu).1 hw, data, inside hb, named,
    List.mem_flatten.2 ⟨piece, listed, block⟩⟩

/-- A definition among the sentences has its own name free exactly if it is that of a synonym which
refers to its own name and is on no cycle through another declaration. A synonym on such a cycle is
rejected or encoded by an inductive block. -/
theorem own_name_defined_iff (ds : List Declaration) :
    (∀ sentences, emit (ofDeclarations ds) = .ok sentences → ∀ d : Definition,
      .define d ∈ sentences ∧ d.name ∈ d.free ↔
        ∃ u s, ds.get u = .synonym s ∧ Alone ds u ∧ s.name ∈ s.free ∧
          d = { name := s.name, binders := s.params, type := s.kind, body := s.body }) ∧
    ∀ u v s, ds.get u = .synonym s → v ≠ u → Joined ds u v →
      emit (ofDeclarations ds) = .error (.rejected "mutually-recursive type synonyms") ∨
      ∃ sentences w b bodies shorthands, emit (ofDeclarations ds) = .ok sentences ∧
        Joined ds u w ∧ ds.get w = .data b ∧ b ∈ bodies ∧
        s.name ∈ shorthands.map Shorthand.name ∧ .block bodies shorthands ∈ sentences := by
  refine ⟨fun sentences h d => ?_, fun u v s found other joined => ?_⟩
  · rw [mem_define_iff h]
    constructor
    · rintro ⟨⟨u, s, found, alone, rfl⟩, own⟩
      exact ⟨u, s, found, alone, own, rfl⟩
    · rintro ⟨u, s, found, alone, own, rfl⟩
      exact ⟨⟨u, s, found, alone, rfl⟩, own⟩
  · cases h : emit (ofDeclarations ds) with
    | error f =>
      rw [(emit_eq_error_iff.1 h).1]
      exact .inl rfl
    | ok sentences =>
      have beside : ¬ Alone ds u := fun alone => other (alone v joined)
      obtain ⟨w, b, bodies, shorthands, encoded⟩ := exists_shorthand h found beside
      exact .inr ⟨sentences, w, b, bodies, shorthands, rfl, encoded⟩

/-- A synonym whose only reference is to itself, under another type. -/
def optionLoop : Synonym :=
  { name := "Chain", params := [], kind := none, body := .app (.var "option") [.var "Chain"] }

theorem optionLoop_defined :
    ∃ d, emit (ofDeclarations [.synonym optionLoop]) = .ok [.define d] ∧ d.name ∈ d.free :=
  ⟨optionLoop.definition, rfl, by decide⟩

theorem optionLoop_beside_forest :
    ∃ rest, emit (ofDeclarations (.synonym optionLoop :: namedForest)) =
        .ok (.define optionLoop.definition :: rest) ∧
      (∃ u s, (.synonym optionLoop :: namedForest).get u = .synonym s ∧
        Alone (.synonym optionLoop :: namedForest) u ∧ s.name ∈ s.free ∧
        optionLoop.definition =
          { name := s.name, binders := s.params, type := s.kind, body := s.body }) ∧
      ∃ bodies shorthands, "Forest" ∈ shorthands.map Shorthand.name ∧
        .block bodies shorthands ∈ rest := by
  obtain ⟨defined, encoded⟩ := own_name_defined_iff (.synonym optionLoop :: namedForest)
  obtain ⟨rest, written⟩ : ∃ rest, emit (ofDeclarations (.synonym optionLoop :: namedForest)) =
      .ok (.define optionLoop.definition :: rest) := ⟨_, rfl⟩
  have own := (defined _ written optionLoop.definition).1 ⟨List.mem_cons_self .., by decide⟩
  have joined : Joined (.synonym optionLoop :: namedForest) 3 2 :=
    .inr ⟨.single ⟨by decide, by decide⟩, .single ⟨by decide, by decide⟩⟩
  refine ⟨rest, written, own, ?_⟩
  rcases encoded 3 2 _ rfl (by decide) joined with
    rejected | ⟨sentences, _, _, bodies, shorthands, succeeded, -, -, -, named, block⟩
  · rw [written] at rejected
    cases rejected
  · rw [written] at succeeded
    cases succeeded
    exact ⟨bodies, shorthands, named, by simpa using block⟩

end Group

end Vernacular
