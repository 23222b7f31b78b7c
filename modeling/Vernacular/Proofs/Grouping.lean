import Vernacular.Group.Basic
import Vernacular.Proofs.Components

set_option autoImplicit false

namespace Vernacular

namespace Declaration

/-- Whether the declaration at `u` refers to the one at `v`: it has the name free, and no
declaration before `v` has the same name. -/
def Refers (ds : List Declaration) (u v : Fin ds.length) : Prop :=
  (ds.get v).name ∈ (ds.get u).free ∧ ∀ w < v, (ds.get w).name ≠ (ds.get v).name

theorem mem_references {ds : List Declaration} {u v : Fin ds.length} :
    v ∈ references ds u ↔ Refers ds u v := by
  simp only [references, Refers, List.mem_filter, List.mem_finRange, true_and, decide_eq_true_eq]
  refine and_congr_right fun _ => ?_
  rw [List.findIdx_eq v.isLt]
  constructor
  · intro h w hw
    simpa using h.2 w hw
  · intro h
    refine ⟨by simp, fun j hj => ?_⟩
    simpa using h ⟨j, by omega⟩ hj

theorem reaches_references (ds : List Declaration) :
    (references ds).Reaches = Relation.ReflTransGen (Refers ds) := by
  have edges : (fun u v => v ∈ references ds u) = Refers ds := by
    funext u v
    exact propext mem_references
  rw [Graph.Reaches, edges]

def inductive? : Declaration → Option InductiveBody
  | .data b => some b
  | .synonym _ => none

def synonym? : Declaration → Option Synonym
  | .data _ => none
  | .synonym s => some s

end Declaration

namespace Group

open Declaration

/-- The kind of a group with these inductive types and synonyms, in whatever order they came. -/
def kindOf : List InductiveBody → List Synonym → GroupKind
  | _, [] => .inductives
  | [], [_] => .synonym
  | [], _ => .synonyms
  | _, _ => .mixed

theorem kindOf_eq (bs : List InductiveBody) (ss : List Synonym) :
    kindOf bs ss =
      if ss.length = 0 then .inductives
      else if bs.length = 0 then if ss.length = 1 then .synonym else .synonyms
      else .mixed := by
  rcases ss with _ | ⟨s, _ | ⟨r, ss⟩⟩ <;> cases bs <;> rfl

theorem kindOf_snoc_inductive (bs : List InductiveBody) (ss : List Synonym) (b : InductiveBody) :
    (kindOf bs ss).addInductive (bs.isEmpty && ss.isEmpty) = kindOf (bs ++ [b]) ss := by
  rcases ss with _ | ⟨s, _ | ⟨r, ss⟩⟩ <;> cases bs <;> rfl

theorem kindOf_snoc_synonym (bs : List InductiveBody) (ss : List Synonym) (s : Synonym) :
    (kindOf bs ss).addSynonym (bs.isEmpty && ss.isEmpty) = kindOf bs (ss ++ [s]) := by
  rcases ss with _ | ⟨r, _ | ⟨r', ss⟩⟩ <;> cases bs <;> rfl

theorem add_classified (bs : List InductiveBody) (ss : List Synonym) (d : Declaration) :
    add { kind := kindOf bs ss, inductives := bs, synonyms := ss } d =
      { kind := kindOf (bs ++ d.inductive?.toList) (ss ++ d.synonym?.toList)
        inductives := bs ++ d.inductive?.toList
        synonyms := ss ++ d.synonym?.toList } := by
  cases d with
  | data b => simp [add, isEmpty, inductive?, synonym?, kindOf_snoc_inductive bs ss b]
  | synonym s => simp [add, isEmpty, inductive?, synonym?, kindOf_snoc_synonym bs ss s]

/-- What kind a group gets does not depend on the order in which its members are added. -/
theorem ofMembers_eq (ds : List Declaration) :
    ofMembers ds =
      { kind := kindOf (ds.filterMap inductive?) (ds.filterMap synonym?)
        inductives := ds.filterMap inductive?
        synonyms := ds.filterMap synonym? } := by
  induction ds using List.reverseRecOn with
  | nil => rfl
  | append_singleton ds d ih =>
    have snoc : ofMembers (ds ++ [d]) = (ofMembers ds).add d := List.foldl_concat ..
    rw [snoc, ih, add_classified]
    simp only [List.filterMap_append, List.filterMap_cons, List.filterMap_nil]
    cases d <;> rfl

def members (g : Group) : List Declaration :=
  g.inductives.map .data ++ g.synonyms.map .synonym

theorem members_ofMembers (ds : List Declaration) : (ofMembers ds).members.Perm ds := by
  rw [ofMembers_eq, members]
  induction ds with
  | nil => exact .nil
  | cons d ds ih =>
    cases d with
    | data b => exact ih.cons (.data b)
    | synonym s =>
      refine List.perm_middle.trans ?_
      exact ih.cons (.synonym s)

/-- Two places lie in one component when they are the same or lead to each other. -/
theorem eq_or_mutual_iff {ds : List Declaration} {u v : Fin ds.length} :
    (references ds).Reaches u v ∧ (references ds).Reaches v u ↔
      u = v ∨ Relation.TransGen (Refers ds) u v ∧ Relation.TransGen (Refers ds) v u := by
  rw [reaches_references]
  simp only [Relation.reflTransGen_iff_eq_or_transGen]
  constructor
  · rintro ⟨rfl | out, back⟩
    · exact .inl rfl
    · exact back.imp id fun back => ⟨out, back⟩
  · rintro (rfl | ⟨out, back⟩)
    · exact ⟨.inl rfl, .inl rfl⟩
    · exact ⟨.inr out, .inr back⟩

/-- The groups are the components of the references, each with its members and after those that it
refers to. -/
theorem ofDeclarations_components (ds : List Declaration) :
    ∃ parts : List (List (Fin ds.length)),
      List.Forall₂ (fun part group => part ≠ [] ∧ group.members.Perm (part.map ds.get))
        parts (ofDeclarations ds) ∧
      parts.flatten.Perm (List.finRange ds.length) ∧
      (∀ u v, (∃ part ∈ parts, u ∈ part ∧ v ∈ part) ↔
        u = v ∨ Relation.TransGen (Refers ds) u v ∧ Relation.TransGen (Refers ds) v u) ∧
      ∀ u v, Refers ds u v → ∃ i j, ∃ (hi : i < parts.length) (hj : j < parts.length),
        j ≤ i ∧ u ∈ parts[i] ∧ v ∈ parts[j] := by
  refine ⟨(references ds).components, ?_, Graph.components_perm _, fun u v => ?_, fun u v h => ?_⟩
  · rw [ofDeclarations, List.forall₂_map_right_iff, List.forall₂_same]
    intro part hpart
    obtain ⟨front, rest, place⟩ := List.append_of_mem hpart
    exact ⟨(Graph.component_spec place).1, members_ofMembers _⟩
  · exact Graph.same_component_iff.trans eq_or_mutual_iff
  · exact Graph.component_order (mem_references.2 h)

end Group

end Vernacular
