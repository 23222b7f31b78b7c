import Vernacular.Proofs.Emission
import Vernacular.Proofs.Recovery
import Vernacular.Proofs.Reserved

/-!
Constructors beside types. A run introduces each constructor once, under its name with the mark in
front. The mark is an ordinary beginning of a name: where a type is called like a marked
constructor, or a synonym in a knot has such a placeholder, the run introduces one name twice.
-/

set_option autoImplicit false

namespace Vernacular

namespace Sentence

def constructors : Sentence → List String
  | .block bodies _ => bodies.flatMap fun b => b.constructors.map Constructor.name
  | _ => []

/-- The type-level names that a sentence about types introduces. -/
def typeNames : Sentence → List String
  | .block bodies shorthands => bodies.map InductiveBody.name ++ shorthands.map Shorthand.name
  | .define d => [d.name]
  | .reserve name => [name]
  | _ => []

end Sentence

namespace Declaration

def constructorNames : Declaration → List String
  | .data b => b.constructors.map Constructor.name
  | .synonym _ => []

theorem flatMap_constructorNames (ds : List Declaration) :
    ds.flatMap constructorNames =
      (ds.filterMap inductive?).flatMap fun b => b.constructors.map Constructor.name := by
  induction ds with
  | nil => rfl
  | cons d ds ih =>
    cases d with
    | data b => simp [constructorNames, inductive?, ih]
    | synonym s => rw [List.flatMap_cons, ih]; rfl

/-- Whether a name is that of a synonym in a component with an inductive type. -/
def InKnot (ds : List Declaration) (x : String) : Prop :=
  ∃ u v s b, ds.get u = .synonym s ∧ s.name = x ∧ Joined ds u v ∧ ds.get v = .data b

theorem InKnot.mem_names {ds : List Declaration} {x : String} (h : InKnot ds x) :
    x ∈ ds.map name := by
  obtain ⟨u, v, s, b, synonym, rfl, -⟩ := h
  exact List.mem_map.2 ⟨ds.get u, List.get_mem ds u, by rw [synonym, name]⟩

theorem mem_map_name {ds : List Declaration} {x : String} :
    x ∈ ds.map name ↔ x ∈ (ds.filterMap inductive?).map InductiveBody.name ∨
      x ∈ (ds.filterMap synonym?).map Synonym.name := by
  induction ds with
  | nil => simp
  | cons d ds ih =>
    cases d with
    | data b => simp [name, inductive?, synonym?, ih, or_assoc]
    | synonym s => simp [name, inductive?, synonym?, ih, or_left_comm]

end Declaration

namespace Piece

variable {bs : List InductiveBody} {ss : List Synonym} {sentences : List Sentence}

theorem constructors (h : Piece bs ss sentences) :
    sentences.flatMap Sentence.constructors =
      bs.flatMap fun b => b.constructors.map Constructor.name := by
  cases h with
  | block _ => simp [Sentence.constructors]
  | definition => rfl
  | knot _ _ _ =>
    have none : ∀ ss : List Synonym, ss.flatMap (fun _ => ([] : List String)) = [] := by simp
    simp [Sentence.constructors, Synonym.placeholderBody, List.flatMap_map, none]

theorem mem_reserve (h : Piece bs ss sentences) {y : String} :
    .reserve y ∈ sentences ↔ bs ≠ [] ∧ y ∈ ss.map Synonym.name := by
  cases h with
  | block _ => simp
  | definition => simp
  | knot inductives _ _ => simp [inductives]

/-- Apart from the members' own names a piece introduces the placeholders of those it reserves. -/
theorem mem_typeNames (h : Piece bs ss sentences) {x : String} :
    x ∈ sentences.flatMap Sentence.typeNames ↔
      (x ∈ bs.map InductiveBody.name ∨ x ∈ ss.map Synonym.name) ∨
        ∃ y, .reserve y ∈ sentences ∧ placeholder y = x := by
  cases h with
  | block _ => simp [Sentence.typeNames]
  | definition => simp [Sentence.typeNames]
  | @knot _ _ shorthands _ _ named =>
    have reserved : (ss.map fun s => Sentence.reserve s.name).flatMap Sentence.typeNames =
        ss.map Synonym.name := by
      rw [List.flatMap_map, List.map_eq_flatMap]
      rfl
    have bodies : x ∈ (bs ++ ss.map Synonym.placeholderBody).map InductiveBody.name ↔
        x ∈ bs.map InductiveBody.name ∨ ∃ s ∈ ss, placeholder s.name = x := by
      simp [Synonym.placeholderBody]
    have held : (∃ y, .reserve y ∈ ss.map (fun s => Sentence.reserve s.name) ++
        [.block (bs ++ ss.map Synonym.placeholderBody) shorthands] ∧ placeholder y = x) ↔
          ∃ s ∈ ss, placeholder s.name = x := by
      simp
    rw [List.flatMap_append, reserved, List.flatMap_singleton, Sentence.typeNames, named, held,
      List.mem_append, List.mem_append, bodies]
    constructor
    · rintro (own | (own | raw) | own)
      · exact .inl (.inr own)
      · exact .inl (.inl own)
      · exact .inr raw
      · exact .inl (.inr own)
    · rintro ((own | own) | raw)
      · exact .inr (.inl (.inl own))
      · exact .inl own
      · exact .inr (.inl (.inr raw))

end Piece

namespace Group

open Declaration

/-- The lists of members of the groups that declarations fall into, each with its piece. -/
theorem pieces_ofDeclarations {ds : List Declaration} {log : List Event}
    {sentences : List Sentence} (h : Run.emit (ofDeclarations ds) = (log, .ok sentences)) :
    ∃ parts pieces, parts.flatten.Perm ds ∧ sentences = pieces.flatten ∧
      List.Forall₂ (fun part => Piece (part.filterMap inductive?) (part.filterMap synonym?))
        parts pieces := by
  obtain ⟨pieces, each, rfl⟩ := Run.pieces_of_emit h
  refine ⟨(references ds).components.map (·.map ds.get), pieces, ?_, rfl, ?_⟩
  · rw [← List.map_flatten]
    have places := (Graph.components_perm (references ds)).map ds.get
    rwa [List.map_get_finRange] at places
  · rw [List.forall₂_map_left_iff]
    exact pieces_of_sentences each

/-- The names that are reserved are those of the synonyms in knots. -/
theorem mem_reserve_iff {ds : List Declaration} {log : List Event} {sentences : List Sentence}
    (h : Run.emit (ofDeclarations ds) = (log, .ok sentences)) {x : String} :
    .reserve x ∈ sentences ↔ InKnot ds x := by
  obtain ⟨pieces, groups, rfl⟩ := Run.pieces_of_emit h
  have each := pieces_of_sentences groups
  constructor
  · intro reserved
    obtain ⟨piece, listed, reserved⟩ := List.mem_flatten.1 reserved
    obtain ⟨part, hpart, made⟩ := Surface.exists_of_mem_forall₂ each.flip listed
    obtain ⟨inductives, named⟩ := made.mem_reserve.1 reserved
    obtain ⟨s, hs, rfl⟩ := List.mem_map.1 named
    obtain ⟨u, hu, synonym⟩ := mem_synonymsAt.1 hs
    obtain ⟨b, hb⟩ := List.exists_mem_of_ne_nil _ inductives
    obtain ⟨v, hv, data⟩ := mem_inductivesAt.1 hb
    exact ⟨u, v, s, b, synonym, rfl, (mem_component_iff hpart hu).1 hv, data⟩
  · rintro ⟨u, v, s, b, synonym, rfl, joined, data⟩
    obtain ⟨part, hpart, hu⟩ := Graph.exists_component (references ds) u
    obtain ⟨piece, listed, made⟩ := Surface.exists_of_mem_forall₂ each hpart
    have hs : s ∈ synonymsAt ds part := mem_synonymsAt.2 ⟨u, hu, synonym⟩
    have hb : b ∈ inductivesAt ds part :=
      mem_inductivesAt.2 ⟨v, (mem_component_iff hpart hu).2 joined, data⟩
    refine List.mem_flatten.2 ⟨piece, listed, made.mem_reserve.2 ⟨?_, List.mem_map_of_mem hs⟩⟩
    exact List.ne_nil_of_mem hb

section Pieces

variable {parts : List (List Declaration)} {pieces : List (List Sentence)}

theorem constructors_pieces
    (h : List.Forall₂ (fun part => Piece (part.filterMap inductive?) (part.filterMap synonym?))
      parts pieces) :
    pieces.flatten.flatMap Sentence.constructors = parts.flatten.flatMap constructorNames := by
  induction h with
  | nil => rfl
  | cons first _ ih =>
    rw [List.flatten_cons, List.flatten_cons, List.flatMap_append, List.flatMap_append, ih,
      first.constructors, ← flatMap_constructorNames]

theorem mem_typeNames_pieces
    (h : List.Forall₂ (fun part => Piece (part.filterMap inductive?) (part.filterMap synonym?))
      parts pieces) {x : String} :
    x ∈ pieces.flatten.flatMap Sentence.typeNames ↔
      x ∈ parts.flatten.map name ∨ ∃ y, .reserve y ∈ pieces.flatten ∧ placeholder y = x := by
  induction h with
  | nil => simp
  | cons first _ ih =>
    rw [List.flatten_cons, List.flatten_cons, List.flatMap_append, List.map_append, List.mem_append,
      List.mem_append, ih, first.mem_typeNames, ← mem_map_name]
    simp only [List.mem_append, or_and_right, exists_or]
    exact or_or_or_comm

end Pieces

end Group

namespace Surface

namespace Declaration

def typeName? : Declaration → Option String
  | .data d => some d.name
  | .synonym d => some d.name
  | .value _ | .foreign _ => none

end Declaration

namespace Module

def typeNames (m : Module) : List String :=
  m.declarations.filterMap Declaration.typeName?

def constructors (m : Module) : List String :=
  m.declarations.flatMap Declaration.constructors

end Module

section Lower

variable {t : Table}

theorem DataType.constructors_lower {d : DataType} {body : InductiveBody}
    (h : d.lower (d.register t) = .ok body) :
    body.constructors.map Constructor.name =
      (d.constructors.map DataConstructor.name).map Table.constructorName := by
  obtain ⟨-, -, -, each⟩ := d.lower_parts h
  have registered := Table.registered_registerAll (d.constructors.map DataConstructor.name) t
  rw [← d.register_eq] at registered
  have marked : ∀ c ∈ d.constructors,
      (d.register t).valueName c.name = Table.constructorName c.name :=
    fun c hc => registered.valueName (List.mem_map_of_mem hc)
  have pairs := (List.forall₂_and_left _ _).2 ⟨marked, mapM_eq_ok.1 each⟩
  have same : List.Forall₂ Eq ((d.constructors.map DataConstructor.name).map Table.constructorName)
      (body.constructors.map Constructor.name) := by
    rw [List.map_map, List.forall₂_map_left_iff, List.forall₂_map_right_iff]
    refine pairs.imp fun c k pair => ?_
    obtain ⟨binders, fields, -, -, made⟩ := DataConstructor.lower_parts pair.2
    rw [Function.comp_apply, made, pair.1]
  rw [List.forall₂_eq_eq_eq] at same
  exact same.symm

theorem TypeSynonym.name_lower {d : TypeSynonym} {s : Synonym} (h : d.lower t = .ok s) :
    s.name = t.typeName d.name := by
  simp only [TypeSynonym.lower, bind_eq_ok, pure_eq_ok] at h
  obtain ⟨params, -, body, -, rfl⟩ := h
  rfl

end Lower

end Surface

namespace Table

open Identifier (isReserved stem escape reserved)

theorem typeName_initial (x : String) :
    initial.typeName x = (builtins.reverse.lookup ⟨x, .type⟩).getD (escape x) := by
  rw [typeName, initial, lookup_foldl_rename]
  rfl

theorem stem_isPrefix (x : String) : (stem x).toList <+: x.toList := by
  have back := List.dropWhile_suffix (· = '_') (l := x.toList.reverse)
  rw [stem, String.toList_ofList, ← List.reverse_suffix, List.reverse_reverse]
  exact back

/-- A name that begins like a marked constructor is not escaped. -/
theorem escape_of_mark {x : String} (mark : x.toList.take 2 = ['M', 'k']) : escape x = x := by
  have words : ∀ w ∈ reserved, 2 ≤ w.toList.length ∧ w.toList.take 2 ≠ ['M', 'k'] := by decide
  have free : ¬ isReserved (stem x) := by
    intro h
    obtain ⟨long, other⟩ := words _ (Identifier.mem_reserved.1 h)
    obtain ⟨rest, split⟩ := stem_isPrefix x
    rw [← split, List.take_append_of_le_length long] at mark
    exact other mark
  rw [escape, if_neg free]

/-- Names that begin like marked constructors are targets of themselves and of no other type. -/
theorem typeName_initial_eq_iff {x y : String} (mark : y.toList.take 2 = ['M', 'k']) :
    initial.typeName x = y ↔ x = y := by
  have unmarked : ∀ e ∈ builtins.reverse, e.1.source.toList.take 2 ≠ ['M', 'k'] ∧
      e.2.toList.take 2 ≠ ['M', 'k'] := by decide
  rw [typeName_initial]
  constructor
  · intro h
    cases found : builtins.reverse.lookup (⟨x, .type⟩ : Slot) with
    | none =>
      rw [found, Option.getD_none, ← escape_of_mark mark] at h
      exact Identifier.escape_injective h
    | some target =>
      rw [found, Option.getD_some] at h
      obtain ⟨front, back, place, -⟩ := List.lookup_eq_some_iff.1 found
      have listed : (⟨x, .type⟩, target) ∈ builtins.reverse := by
        rw [place]
        exact List.mem_append_right front (List.mem_cons_self ..)
      exact absurd (h ▸ mark) (unmarked _ listed).2
  · rintro rfl
    have absent : builtins.reverse.lookup ⟨x, .type⟩ = none := by
      rw [List.lookup_eq_none_iff]
      intro e he
      by_contra same
      have slot : ⟨x, .type⟩ = e.1 := by simpa using same
      exact (unmarked e he).1 (by rw [← slot]; exact mark)
    rw [absent, Option.getD_none, escape_of_mark mark]

theorem mark_constructorName (c : String) :
    (constructorName c).toList.take 2 = ['M', 'k'] := by
  simp [constructorName]

theorem mark_of_placeholder {s c : String} (h : placeholder s = constructorName c) :
    s.toList.take 2 = ['M', 'k'] := by
  have chars := congrArg String.toList h
  rw [placeholder, constructorName, String.toList_append, String.toList_append] at chars
  rcases list : s.toList with _ | ⟨a, _ | ⟨b, rest⟩⟩
  · simp [list] at chars
  · simp [list] at chars
  · simp [list] at chars
    simp [chars.1, chars.2.1]

end Table

namespace Run

open Surface (Module Value)

section Collect

variable {t final : Table} {types : List Declaration} {rest : List Value}

theorem names_of_collect {ds : List Surface.Declaration}
    (h : collect t ds = (final, .ok (types, rest))) :
    types.map Declaration.name = (ds.filterMap Surface.Declaration.typeName?).map t.typeName ∧
      types.flatMap Declaration.constructorNames =
        (ds.flatMap Surface.Declaration.constructors).map Table.constructorName := by
  induction ds generalizing t types rest with
  | nil =>
    cases h
    exact ⟨rfl, rfl⟩
  | cons d ds ih =>
    obtain ⟨next, others, values, onward, first⟩ := collect_cons h
    obtain ⟨names, constructors⟩ := ih onward
    rw [List.flatMap_cons, List.map_append]
    rcases first with ⟨e, body, rfl, rfl, lowered, rfl, rfl⟩ |
      ⟨e, body, rfl, rfl, lowered, rfl, rfl⟩ | ⟨e, rfl, rfl, rfl, rfl⟩
    · have target : (e.register t).typeName = t.typeName := funext (Table.typeName_register t e)
      have own : body.name = t.typeName e.name := by
        rw [(e.lower_parts lowered).1, target]
      rw [target] at names
      refine ⟨congrArg₂ List.cons own names, ?_⟩
      rw [List.flatMap_cons, constructors]
      exact congrArg (· ++ _) (e.constructors_lower lowered)
    · exact ⟨congrArg₂ List.cons (e.name_lower lowered) names, constructors⟩
    · exact ⟨names, constructors⟩

/-- Without its values a module has the same types. -/
theorem collect_types_of_collect {m : Module}
    (h : collect t m.declarations = (final, .ok (types, rest))) :
    collect t m.types.declarations = (final, .ok (types, [])) := by
  have whole : m.declarations.filter (·.value?.isNone) = m.types.declarations := rfl
  rw [collect_eq, whole] at h
  rcases typed : collect t m.types.declarations with ⟨last, failure | ⟨made, none⟩⟩
  · rw [typed] at h
    cases h
  · rw [typed] at h
    cases h
    rw [(collect_types typed).1]

end Collect

theorem constructors_contribution (table : Table) (d : Value) :
    (d.contribution table).flatMap Sentence.constructors = [] := by
  unfold Value.contribution
  cases d.lower table with
  | ok definition => rfl
  | error f => rfl

theorem opening_cases (options : Options) (types : List Declaration) :
    opening options types = [] ∨ opening options types = preamble := by
  unfold opening
  split
  · exact .inr rfl
  · exact .inl rfl

section Front

variable {options : Options} {types : List Declaration} {log : List Event}
  {sentences : List Sentence}

theorem result_types {m : Module} {table : Table} {ds : List Value}
    (collected : collect options.table m.declarations = (table, .ok (types, ds)))
    (emitted : emit (Group.ofDeclarations types) = (log, .ok sentences)) :
    (ofModule m.types options).result = .ok ⟨opening options types ++ sentences, []⟩ := by
  have typed := (ofModule_of_parts options (collect_types_of_collect collected) emitted).2
  rw [values_nil] at typed
  simpa [Except.map, reportOf] using typed

theorem constructors_front (options : Options)
    (emitted : emit (Group.ofDeclarations types) = (log, .ok sentences)) :
    ((opening options types ++ sentences).flatMap Sentence.constructors).Perm
      (types.flatMap Declaration.constructorNames) := by
  obtain ⟨parts, pieces, perm, rfl, each⟩ := Group.pieces_ofDeclarations emitted
  have none : (opening options types).flatMap Sentence.constructors = [] := by
    rcases opening_cases options types with empty | marker
    · rw [empty]; rfl
    · rw [marker]; rfl
  rw [List.flatMap_append, none, List.nil_append, Group.constructors_pieces each]
  exact perm.flatMap_right _

theorem mem_typeNames_front (emitted : emit (Group.ofDeclarations types) = (log, .ok sentences))
    {x : String} (other : x ≠ knotMarker) :
    x ∈ (opening options types ++ sentences).flatMap Sentence.typeNames ↔
      x ∈ types.map Declaration.name ∨ ∃ y, Declaration.InKnot types y ∧ placeholder y = x := by
  have reserved := fun y => Group.mem_reserve_iff emitted (x := y)
  obtain ⟨parts, pieces, perm, rfl, each⟩ := Group.pieces_ofDeclarations emitted
  have marker : x ∉ (opening options types).flatMap Sentence.typeNames := by
    rcases opening_cases options types with empty | marker
    · simp [empty]
    · simpa [marker, preamble, Sentence.typeNames] using other
  rw [List.flatMap_append, List.mem_append, or_iff_right marker, Group.mem_typeNames_pieces each,
    (perm.map _).mem_iff]
  simp only [reserved]

theorem mem_reserve_front (emitted : emit (Group.ofDeclarations types) = (log, .ok sentences))
    {x : String} :
    .reserve x ∈ opening options types ++ sentences ↔ Declaration.InKnot types x := by
  have marker : .reserve x ∉ opening options types := by
    rcases opening_cases options types with empty | marker
    · simp [empty]
    · simp [marker, preamble]
  rw [List.mem_append, or_iff_right marker, Group.mem_reserve_iff emitted]

/-- Over the built-in table a marked constructor meets the types that are called so in the source,
for these are targets of themselves. -/
theorem mem_typeNames_marked {m : Module} {table : Table} {ds : List Value}
    (collected : collect .initial m.declarations = (table, .ok (types, ds)))
    (emitted : emit (Group.ofDeclarations types) = (log, .ok sentences)) {c : String} :
    Table.constructorName c ∈ (opening options types ++ sentences).flatMap Sentence.typeNames ↔
      Table.constructorName c ∈ m.typeNames ∨
        ∃ s ∈ m.typeNames, Declaration.InKnot types s ∧
          placeholder s = Table.constructorName c := by
  have names := (names_of_collect collected).1
  have mark := Table.mark_constructorName c
  have other : Table.constructorName c ≠ knotMarker := by
    intro same
    rw [same] at mark
    exact absurd mark (by decide)
  rw [mem_typeNames_front emitted other, names]
  refine or_congr ?_ ⟨?_, ?_⟩
  · simp [Table.typeName_initial_eq_iff mark, Module.typeNames]
  · rintro ⟨y, knot, raw⟩
    have listed := knot.mem_names
    rw [names] at listed
    obtain ⟨x, source, target⟩ := List.mem_map.1 listed
    rw [Table.typeName_initial_eq_iff (Table.mark_of_placeholder raw)] at target
    exact ⟨y, target ▸ source, knot, raw⟩
  · rintro ⟨y, -, knot, raw⟩
    exact ⟨y, knot, raw⟩

end Front

/-- A run introduces each constructor once, under its marked name. That is also the name of a type
where the module declares a type called so, or a synonym in a knot that has the name for its
placeholder, and nowhere else. So the two never meet in a module without types that begin like the
mark. -/
theorem constructors_ofModule (m : Module) (recover preamble : Bool) (outcome : Outcome)
    (h : (ofModule m ⟨recover, preamble, .initial⟩).result = .ok outcome) :
    ∃ table types front others,
      collect .initial m.declarations = (table, .ok (types, m.values)) ∧
      (ofModule m.types ⟨recover, preamble, .initial⟩).result = .ok front ∧
      outcome.sentences = front.sentences ++ others ∧
      others.flatMap Sentence.constructors = [] ∧
      (front.sentences.flatMap Sentence.constructors).Perm
        (m.constructors.map Table.constructorName) ∧
      (m.constructors.Nodup → (outcome.sentences.flatMap Sentence.constructors).Nodup) ∧
      (∀ s, .reserve s ∈ front.sentences ↔ Declaration.InKnot types s) ∧
      (∀ c ∈ m.constructors,
        (Table.constructorName c ∈ front.sentences.flatMap Sentence.typeNames ↔
          Table.constructorName c ∈ m.typeNames ∨
            ∃ s ∈ m.typeNames, Declaration.InKnot types s ∧
              placeholder s = Table.constructorName c)) ∧
      ((∀ s ∈ m.typeNames, s.toList.take 2 ≠ ['M', 'k']) →
        (outcome.sentences.flatMap Sentence.constructors).Disjoint
          (front.sentences.flatMap Sentence.typeNames)) := by
  obtain ⟨types, ds, log, sentences, replaced, others, collected, emitted, converted, written⟩ :=
    parts_of_ofModule h
  have constructors := (names_of_collect collected).2
  have values : others.flatMap Sentence.constructors = [] := by
    rw [values_eq_ok (congrArg Prod.snd converted), List.flatMap_assoc]
    simp [constructors_contribution]
  have marked := constructors_front ⟨recover, preamble, .initial⟩ emitted
  rw [constructors] at marked
  have introduced : outcome.sentences.flatMap Sentence.constructors =
      (opening ⟨recover, preamble, .initial⟩ types ++ sentences).flatMap Sentence.constructors := by
    rw [written, List.flatMap_append, values, List.append_nil]
  rw [values_of_collect collected] at collected
  refine ⟨_, types, _, others, collected, result_types collected emitted, written, values, marked,
    fun distinct => ?_, fun s => mem_reserve_front emitted,
    fun c _ => mem_typeNames_marked collected emitted, fun unmarked x hx typed => ?_⟩
  · have injective : Function.Injective Table.constructorName :=
      fun c d same => (String.append_right_inj "Mk_").1 same
    rw [introduced]
    exact marked.nodup_iff.2 (distinct.map injective)
  · rw [introduced, marked.mem_iff] at hx
    obtain ⟨c, -, rfl⟩ := List.mem_map.1 hx
    rcases (mem_typeNames_marked collected emitted).1 typed with own | ⟨s, listed, -, raw⟩
    · exact unmarked _ own (Table.mark_constructorName c)
    · exact unmarked s listed (Table.mark_of_placeholder raw)

/-- A knot in which the placeholder of the synonym is called like a marked constructor. -/
def markedKnot : Module :=
  ⟨"Marked",
    [.data ⟨"Tree", [], none,
      [⟨{}, "Leaf", [], [], .ordinary, []⟩,
        ⟨{}, "F__raw", [], [], .ordinary, [.var {} "Mk_F"]⟩]⟩,
      .synonym ⟨"Mk_F", [], .list {} (.var {} "Tree")⟩]⟩

theorem markedKnot_constructors :
    ∃ outcome, (ofModule markedKnot ⟨false, true, .initial⟩).result = .ok outcome ∧
      (outcome.sentences.flatMap Sentence.constructors).Nodup ∧
      ∃ front, (ofModule markedKnot.types ⟨false, true, .initial⟩).result = .ok front ∧
        "Mk_Leaf" ∉ front.sentences.flatMap Sentence.typeNames ∧
        "Mk_F__raw" ∈ front.sentences.flatMap Sentence.typeNames ∧
      ∃ outcome, (ofModule lampModule ⟨true, true, .initial⟩).result = .ok outcome ∧
        ∃ front, (ofModule lampModule.types ⟨true, true, .initial⟩).result = .ok front ∧
          (outcome.sentences.flatMap Sentence.constructors).Disjoint
            (front.sentences.flatMap Sentence.typeNames) := by
  have succeeds : ∃ outcome, (ofModule markedKnot ⟨false, true, .initial⟩).result = .ok outcome :=
    ⟨_, rfl⟩
  have unmarked : ∃ outcome, (ofModule lampModule ⟨true, true, .initial⟩).result = .ok outcome :=
    ⟨_, rfl⟩
  have reserves : ∃ front, (ofModule markedKnot.types ⟨false, true, .initial⟩).result = .ok front ∧
      .reserve "Mk_F" ∈ front.sentences :=
    ⟨_, rfl, .tail _ (.tail _ (.head _))⟩
  obtain ⟨outcome, h⟩ := succeeds
  obtain ⟨table, types, front, others, -, typed, -, -, -, distinct, knots, shared, -⟩ :=
    constructors_ofModule markedKnot false true outcome h
  obtain ⟨again, same, reserved⟩ := reserves
  obtain rfl : again = front := Except.ok.inj (same.symm.trans typed)
  obtain ⟨lamps, h'⟩ := unmarked
  obtain ⟨-, -, types, -, -, typed', -, -, -, -, -, -, disjoint⟩ :=
    constructors_ofModule lampModule true true lamps h'
  refine ⟨outcome, h, distinct (by decide), again, typed, fun leaf => ?_, ?_, lamps, h', types,
    typed', disjoint (by decide)⟩
  · rcases (shared "Leaf" (by decide)).1 leaf with named | ⟨s, listed, -, raw⟩
    · exact absurd named (by decide)
    · have others : ∀ s ∈ markedKnot.typeNames, placeholder s ≠ "Mk_Leaf" := by decide
      exact others s listed raw
  · exact (shared "F__raw" (by decide)).2 (.inr ⟨"Mk_F", by decide, (knots _).1 reserved, rfl⟩)

def markedType : Module :=
  ⟨"Marked", [.data ⟨"Mk_Box", [], none, [⟨{}, "Box", [], [], .ordinary, []⟩]⟩]⟩

/-- The names in the source are distinct, and yet one name is introduced as type and constructor. -/
theorem markedType_shares_name :
    markedType.typeNames.Nodup ∧ markedType.constructors.Nodup ∧
      ∃ outcome, (ofModule markedType ⟨false, true, .initial⟩).result = .ok outcome ∧
        Sentence.render outcome.sentences = "Inductive Mk_Box : Type :=\n  | Mk_Box : Mk_Box." ∧
        outcome.sentences.flatMap Sentence.constructors = ["Mk_Box"] ∧
        outcome.sentences.flatMap Sentence.typeNames = ["Mk_Box"] :=
  ⟨by decide, by decide, _, rfl, by rfl, rfl, rfl⟩

end Run

end Vernacular
