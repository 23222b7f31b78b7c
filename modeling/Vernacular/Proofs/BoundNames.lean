import Vernacular.Proofs.Grouping
import Vernacular.Proofs.Knot
import Vernacular.Proofs.Nodes

set_option autoImplicit false

namespace Vernacular

namespace Term

/-- The names that a node binds, not those bound inside it. -/
def binds : Term → List String
  | .lam bs _ | .pi bs _ => bs.map Binder.name
  | .fix x bs _ _ | .letIn x bs _ _ _ => x :: bs.map Binder.name
  | .caseOf _ arms => arms.flatMap fun a => Pattern.boundAll a.patterns
  | _ => []

def boundNames (t : Term) : List String :=
  t.subterms.flatMap binds

def BindsOnly (P : String → Prop) (t : Term) : Prop :=
  ∀ x ∈ t.binds, P x

theorem binds_rename (m : Renaming) (t : Term) : (t.rename m).binds = t.binds := by
  cases t with
  | lam bs t => exact names_renameBinders m bs
  | pi bs t => exact names_renameBinders m bs
  | fix x bs ty t => exact congrArg (x :: ·) (names_renameBinders _ bs)
  | letIn x bs ty v t => exact congrArg (x :: ·) (names_renameBinders m bs)
  | caseOf ts arms =>
    have arms_eq := congrArg (·.flatMap Pattern.boundAll) (patterns_renameArms m arms)
    simpa only [Term.rename, binds, List.flatMap_map, Pattern.boundAll_renameAll] using arms_eq
  | _ => rfl

end Term

def Binder.boundNames (bs : List Binder) : List String :=
  bs.map Binder.name ++ (Term.subtermsBinders bs).flatMap Term.binds

def Definition.boundNames (d : Definition) : List String :=
  d.name :: (Binder.boundNames d.binders ++ (Term.subtermsType d.type).flatMap Term.binds ++
    d.body.boundNames)

def Constructor.boundNames (c : Constructor) : List String :=
  c.name :: (Binder.boundNames c.binders ++ c.type.boundNames)

def InductiveBody.boundNames (b : InductiveBody) : List String :=
  b.name :: (Binder.boundNames b.params ++ b.type.boundNames ++
    b.constructors.flatMap Constructor.boundNames)

def Shorthand.boundNames (s : Shorthand) : List String :=
  s.name :: s.term.boundNames

def Declaration.boundNames : Declaration → List String
  | .data b => b.boundNames
  | .synonym s => s.definition.boundNames

def Sentence.boundNames : Sentence → List String
  | .block bodies shorthands =>
    bodies.flatMap InductiveBody.boundNames ++ shorthands.flatMap Shorthand.boundNames
  | .define d => d.boundNames
  | .reserve name => [name]
  | .assume name type => name :: type.boundNames
  | .missing | .arguments _ _ | .comment _ => []

section Forall

variable {P : String → Prop}

theorem forall_flatMap_binds {ts : List Term} :
    (∀ x ∈ ts.flatMap Term.binds, P x) ↔ ∀ t ∈ ts, t.BindsOnly P := by
  simp only [List.forall_mem_flatMap, Term.BindsOnly]

theorem Term.forall_boundNames {t : Term} :
    (∀ x ∈ t.boundNames, P x) ↔ t.Every (BindsOnly P) :=
  forall_flatMap_binds

theorem Binder.forall_boundNames {bs : List Binder} :
    (∀ x ∈ Binder.boundNames bs, P x) ↔
      (∀ x ∈ bs.map Binder.name, P x) ∧ ∀ b ∈ bs, ∀ u ∈ b.type, u.Every (Term.BindsOnly P) := by
  rw [Binder.boundNames, List.forall_mem_append, forall_flatMap_binds, Term.forall_subtermsBinders]

theorem Definition.forall_boundNames {d : Definition} :
    (∀ x ∈ d.boundNames, P x) ↔
      P d.name ∧ ((∀ x ∈ Binder.boundNames d.binders, P x) ∧
        ∀ u ∈ d.type, u.Every (Term.BindsOnly P)) ∧ d.body.Every (Term.BindsOnly P) := by
  rw [Definition.boundNames, List.forall_mem_cons, List.forall_mem_append, List.forall_mem_append,
    forall_flatMap_binds, Term.forall_subtermsType, Term.forall_boundNames]

end Forall

section Knot

variable {P : String → Prop}

theorem Term.BindsOnly.rename (m : Renaming) (t : Term) (h : t.BindsOnly P) :
    (t.rename m).BindsOnly P := by
  rwa [BindsOnly, binds_rename]

theorem renameParams_types {others taken : List String} {m : Renaming} {bs : List Binder}
    (h : ∀ b ∈ bs, ∀ u ∈ b.type, u.Every (Term.BindsOnly P)) :
    ∀ b ∈ (renameParams others taken m bs).1, ∀ u ∈ b.type, u.Every (Term.BindsOnly P) := by
  induction bs generalizing taken m with
  | nil => exact h
  | cons b bs ih =>
    obtain ⟨x, type, implicit⟩ := b
    obtain ⟨first, rest⟩ := List.forall_mem_cons.1 h
    have kind := Term.Every.renameType Term.BindsOnly.rename m first
    unfold renameParams
    split
    · exact List.forall_mem_cons.2 ⟨kind, ih rest⟩
    · exact List.forall_mem_cons.2 ⟨kind, ih rest⟩

namespace Group

variable {g : Group}

theorem mem_of_mem_members {ds : List Declaration} {d : Declaration} (hg : g ∈ ofDeclarations ds)
    (hd : d ∈ g.members) : d ∈ ds := by
  obtain ⟨part, -, rfl⟩ := List.mem_map.1 hg
  obtain ⟨v, -, rfl⟩ := List.mem_map.1 ((members_ofMembers _).mem_iff.1 hd)
  exact List.get_mem ds v

/-- New parameters have the names of old ones, or names that end in an underscore. -/
theorem forall_shorthand {i : Nat} {s : Synonym} (low : ∀ x, Identifier.EndsLow x → P x)
    (h : ∀ x ∈ s.definition.boundNames, P x) : ∀ x ∈ (g.shorthand i s).boundNames, P x := by
  obtain ⟨name, ⟨params, -⟩, body⟩ := Definition.forall_boundNames.1 h
  obtain ⟨names, types⟩ := Binder.forall_boundNames.1 params
  have new : ∀ x ∈ (g.knotParams i s).1.map Binder.name, P x := by
    intro y hy
    rcases renameParams_names (g.params_subset_takenNames i s) hy with old | ⟨x, k, rfl⟩
    · exact names y old
    · exact low _ ⟨_, Identifier.underscored_succ x k⟩
  -- renaming the definition for the new parameters leaves the names bound inside it
  have inner : ((Term.var knotMarker).apply
      [.var (placeholder s.name), (g.knotParams i s).2]).Every (Term.BindsOnly P) := by
    refine Term.every_app.2 ⟨nofun, Term.every_leaf rfl nofun, ?_⟩
    exact List.forall_mem_cons.2 ⟨Term.every_leaf rfl nofun,
      List.forall_mem_singleton.2 (body.rename Term.BindsOnly.rename _)⟩
  refine List.forall_mem_cons.2 ⟨name, Term.forall_boundNames.2 ?_⟩
  change (Term.lambda (g.knotParams i s).1 _).Every _
  unfold Term.lambda
  split
  · exact inner
  · exact Term.every_lam.2 ⟨new, renameParams_types types, inner⟩

/-- The sentences of a group bind what its members bind, the names of placeholders and new names. -/
theorem forall_sentences {sentences : List Sentence} (h : g.sentences = .ok sentences)
    (members : ∀ d ∈ g.members, ∀ x ∈ d.boundNames, P x)
    (low : ∀ x, Identifier.EndsLow x → P x) (raw : ∀ x, P (placeholder x)) :
    ∀ x ∈ sentences.flatMap Sentence.boundNames, P x := by
  have inductives : ∀ b ∈ g.inductives, ∀ x ∈ b.boundNames, P x := fun b hb =>
    members (.data b) (List.mem_append_left _ (List.mem_map_of_mem hb))
  have synonyms : ∀ s ∈ g.synonyms, ∀ x ∈ s.definition.boundNames, P x := fun s hs =>
    members (.synonym s) (List.mem_append_right _ (List.mem_map_of_mem hs))
  rw [List.forall_mem_flatMap]
  unfold Group.sentences at h
  split at h
  · cases h
    refine List.forall_mem_singleton.2 ?_
    rw [Sentence.boundNames, List.flatMap_nil, List.append_nil, List.forall_mem_flatMap]
    exact inductives
  · cases h
    rw [List.forall_mem_map]
    exact fun s hs => synonyms s (List.mem_of_mem_take hs)
  · cases h
  · cases h
    refine List.forall_mem_append.2 ⟨?_, List.forall_mem_singleton.2 ?_⟩
    · rw [List.forall_mem_map]
      exact fun s hs => List.forall_mem_singleton.2 (synonyms s hs _ (List.mem_cons_self ..))
    · rw [Sentence.boundNames, List.forall_mem_append, List.forall_mem_flatMap,
        List.forall_mem_flatMap, List.forall_mem_append, List.forall_mem_map]
      refine ⟨⟨inductives, fun s _ => List.forall_mem_singleton.2 (raw s.name)⟩, ?_⟩
      intro short hshort
      obtain ⟨i, hi, rfl⟩ := List.mem_mapIdx.1 hshort
      exact forall_shorthand low (synonyms _ (List.getElem_mem hi))
  · cases h

end Group

end Knot

end Vernacular
