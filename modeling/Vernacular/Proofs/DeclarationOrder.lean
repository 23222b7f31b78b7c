import Mathlib.Data.Finset.Dedup
import Vernacular.Proofs.Emission
import Vernacular.Proofs.Registration

set_option autoImplicit false

namespace Vernacular

namespace Declaration

section Distinct

variable {ds es : List Declaration}

theorem name_injective (distinct : (ds.map name).Nodup) {u v : Fin ds.length}
    (same : (ds.get u).name = (ds.get v).name) : u = v := by
  have names : (ds.map name).get (u.cast (ds.length_map name).symm) =
      (ds.map name).get (v.cast (ds.length_map name).symm) := by simpa using same
  simpa [Fin.ext_iff] using distinct.injective_get names

theorem refers_iff (distinct : (ds.map name).Nodup) {u v : Fin ds.length} :
    Refers ds u v ↔ (ds.get v).name ∈ (ds.get u).free := by
  refine and_iff_left_of_imp fun _ w before same => ?_
  exact absurd (name_injective distinct same) before.ne

/-- The place in another order of the declaration at a place. -/
theorem exists_moved (moved : ds.Perm es) (u : Fin ds.length) : ∃ v, es.get v = ds.get u :=
  List.mem_iff_get.1 (moved.subset (ds.get_mem u))

theorem Joined.moved (distinct : (ds.map name).Nodup) (moved : ds.Perm es) {u v : Fin ds.length}
    {x y : Fin es.length} (hu : es.get x = ds.get u) (hv : es.get y = ds.get v)
    (h : Joined ds u v) : Joined es x y := by
  have distinct' : (es.map name).Nodup := (moved.map name).nodup_iff.1 distinct
  choose place same using exists_moved moved
  have placed : ∀ {w : Fin ds.length} {z : Fin es.length}, es.get z = ds.get w → place w = z :=
    fun hw => name_injective distinct' (by rw [same, hw])
  have walk : ∀ {a b : Fin ds.length}, Relation.TransGen (Refers ds) a b →
      Relation.TransGen (Refers es) (place a) (place b) := by
    intro a b path
    refine path.lift place fun a b edge => ?_
    rw [Function.onFun, refers_iff distinct', same, same]
    exact (refers_iff distinct).1 edge
  rw [← placed hu, ← placed hv]
  rcases h with rfl | ⟨out, back⟩
  · exact .inl rfl
  · exact .inr ⟨walk out, walk back⟩

theorem component_subset (distinct : (ds.map name).Nodup) (moved : ds.Perm es)
    {part : List (Fin ds.length)} {other : List (Fin es.length)}
    (hpart : part ∈ (references ds).components) (hother : other ∈ (references es).components)
    {u : Fin ds.length} {x : Fin es.length} (hu : u ∈ part) (hx : x ∈ other)
    (same : es.get x = ds.get u) : part.map ds.get ⊆ other.map es.get := by
  intro d hd
  obtain ⟨v, hv, rfl⟩ := List.mem_map.1 hd
  obtain ⟨y, hy⟩ := exists_moved moved v
  have joined := ((mem_component_iff hpart hu).1 hv).moved distinct moved same hy
  exact List.mem_map.2 ⟨y, (mem_component_iff hother hx).2 joined, hy⟩

theorem nodup_component (distinct : (ds.map name).Nodup) {part : List (Fin ds.length)}
    (hpart : part ∈ (references ds).components) : (part.map ds.get).Nodup :=
  (Graph.component_nodup hpart).map fun _ _ same => name_injective distinct (by rw [same])

/-- Every component of a list has its counterpart in every other order of the list. -/
theorem exists_component_perm (distinct : (ds.map name).Nodup) (moved : ds.Perm es)
    {part : List (Fin ds.length)} (hpart : part ∈ (references ds).components) :
    ∃ other ∈ (references es).components, (part.map ds.get).Perm (other.map es.get) := by
  have distinct' : (es.map name).Nodup := (moved.map name).nodup_iff.1 distinct
  obtain ⟨u, hu⟩ := List.exists_mem_of_ne_nil part (Graph.component_ne_nil hpart)
  obtain ⟨x, same⟩ := exists_moved moved u
  obtain ⟨other, hother, hx⟩ := Graph.exists_component (references es) x
  refine ⟨other, hother, ?_⟩
  rw [List.perm_ext_iff_of_nodup (nodup_component distinct hpart)
    (nodup_component distinct' hother)]
  intro d
  constructor
  · exact fun hd => component_subset distinct moved hpart hother hu hx same hd
  · exact fun hd => component_subset distinct' moved.symm hother hpart hx hu same.symm hd

end Distinct

end Declaration

namespace Group

open Declaration

/-- What a group is apart from the order of its members. -/
def outline (g : Group) : Finset String × GroupKind :=
  (g.names.toFinset, g.kind)

theorem names_ofMembers (ds : List Declaration) : (ofMembers ds).names.Perm (ds.map name) := by
  have names : (ofMembers ds).names = (ofMembers ds).members.map name := by
    simp only [names, members, List.map_append, List.map_map]
    rfl
  rw [names]
  exact (members_ofMembers ds).map name

theorem outline_perm {ds es : List Declaration} (h : ds.Perm es) :
    (ofMembers ds).outline = (ofMembers es).outline := by
  have named : (ofMembers ds).names.toFinset = (ofMembers es).names.toFinset :=
    List.toFinset_eq_of_perm _ _
      ((names_ofMembers ds).trans ((h.map name).trans (names_ofMembers es).symm))
  have kind : (ofMembers ds).kind = (ofMembers es).kind := by
    simp only [ofMembers_eq, kindOf_eq, (h.filterMap _).length_eq]
  rw [outline, outline, named, kind]

theorem nodup_outlines {ds : List Declaration} (distinct : (ds.map name).Nodup) :
    ((ofDeclarations ds).map outline).Nodup := by
  rw [ofDeclarations_eq, List.map_map, List.Nodup, List.pairwise_map]
  have apart := (List.nodup_flatten.1 (Graph.components_nodup (references ds))).2
  refine apart.imp_of_mem fun {part other} hpart _ disjoint same => ?_
  -- two groups with the same names would share a declaration
  obtain ⟨u, hu⟩ := List.exists_mem_of_ne_nil part (Graph.component_ne_nil hpart)
  have listed : (ds.get u).name ∈ (ofMembers (part.map ds.get)).names :=
    (names_ofMembers _).mem_iff.2 (List.mem_map_of_mem (List.mem_map_of_mem hu))
  have names : (ofMembers (part.map ds.get)).names.toFinset =
      (ofMembers (other.map ds.get)).names.toFinset := congrArg Prod.fst same
  rw [← List.mem_toFinset, names, List.mem_toFinset, (names_ofMembers _).mem_iff, List.map_map,
    List.mem_map] at listed
  obtain ⟨v, hv, clash⟩ := listed
  rw [name_injective distinct clash] at hv
  exact disjoint hu hv

theorem outlines_subset {ds es : List Declaration} (distinct : (ds.map name).Nodup)
    (moved : ds.Perm es) :
    (ofDeclarations ds).map outline ⊆ (ofDeclarations es).map outline := by
  simp only [ofDeclarations_eq, List.map_map]
  intro o ho
  obtain ⟨part, hpart, rfl⟩ := List.mem_map.1 ho
  obtain ⟨other, hother, perm⟩ := exists_component_perm distinct moved hpart
  exact List.mem_map.2 ⟨other, hother, (outline_perm perm).symm⟩

theorem outlines_perm {ds es : List Declaration} (distinct : (ds.map name).Nodup)
    (moved : ds.Perm es) :
    ((ofDeclarations ds).map outline).Perm ((ofDeclarations es).map outline) := by
  have distinct' : (es.map name).Nodup := (moved.map name).nodup_iff.1 distinct
  rw [List.perm_ext_iff_of_nodup (nodup_outlines distinct) (nodup_outlines distinct')]
  intro o
  constructor
  · exact fun ho => outlines_subset distinct moved ho
  · exact fun ho => outlines_subset distinct' moved.symm ho

theorem sentences_ofMembers_ok {ds : List Declaration} :
    (∃ sentences, (ofMembers ds).sentences = .ok sentences) ↔ (ofMembers ds).kind ≠ .synonyms := by
  simp only [sentences, ofMembers_eq]
  generalize ds.filterMap inductive? = bs
  generalize ds.filterMap synonym? = ss
  rcases ss with _ | ⟨s, _ | ⟨r, ss⟩⟩ <;> cases bs <;> simp [kindOf]

/-- Whether groups have sentences can be told from their outlines. -/
theorem emit_ofDeclarations_ok (ds : List Declaration) :
    (∃ sentences, emit (ofDeclarations ds) = .ok sentences) ↔
      ∀ o ∈ (ofDeclarations ds).map outline, o.2 ≠ .synonyms := by
  have some : (∃ sentences, emit (ofDeclarations ds) = .ok sentences) ↔
      ∃ pieces, (ofDeclarations ds).mapM sentences = .ok pieces := by
    simp only [emit, Surface.map_eq_ok]
    constructor
    · rintro ⟨_, pieces, each, -⟩
      exact ⟨pieces, each⟩
    · rintro ⟨pieces, each⟩
      exact ⟨_, pieces, each, rfl⟩
  rw [some, Surface.exists_mapM_ok, List.forall_mem_map]
  refine forall₂_congr fun g hg => ?_
  rw [ofDeclarations_eq] at hg
  obtain ⟨part, -, rfl⟩ := List.mem_map.1 hg
  exact sentences_ofMembers_ok

end Group

namespace Run

section Order

variable {t : Table} {ds : List Surface.Declaration} {bodies : List Declaration}

/-- Each type is converted to what it is converted to alone. -/
theorem collect_of_bodies (h : List.Forall₂ (fun d b => d.convert t = .ok (some b)) ds bodies) :
    collect t ds = (t.registerAll (ds.flatMap (·.constructors)), .ok (bodies, [])) := by
  induction ds generalizing t bodies with
  | nil =>
    cases h
    rfl
  | cons d ds ih =>
    obtain ⟨b, rest, first, others, rfl⟩ := List.forall₂_cons_left_iff.1 h
    have later : List.Forall₂
        (fun e c => e.convert (t.registerAll d.constructors) = .ok (some c)) ds rest :=
      others.imp fun e c converted => (e.convert_registerAll t d.constructors).trans converted
    have type : d.value? = none := by
      rcases Surface.Declaration.convert_cases first with
        ⟨e, body, rfl, -, -⟩ | ⟨e, body, rfl, -, -⟩ | ⟨e, -, absent⟩
      · rfl
      · rfl
      · cases absent
    rw [collect_cons_ok first, ih later, type, List.flatMap_cons, Table.registerAll_append]
    rfl

end Order

/-- Types with distinct names may be declared in any order: each has the same target, identifiers
have the same targets in the end, and the groups differ in order only. -/
theorem collect_perm (t : Table) (ds es : List Surface.Declaration) (bodies : List Declaration)
    (converted : List.Forall₂ (fun d b => d.convert t = .ok (some b)) ds bodies)
    (distinct : (bodies.map Declaration.name).Nodup) (moved : ds.Perm es) :
    ∃ final other bodies',
      collect t ds = (final, .ok (bodies, [])) ∧
      collect t es = (other, .ok (bodies', [])) ∧
      List.Forall₂ (fun d b => d.convert t = .ok (some b)) es bodies' ∧
      (∀ space x, final.lookup space x = other.lookup space x) ∧
      ((Group.ofDeclarations bodies).map Group.outline).Perm
        ((Group.ofDeclarations bodies').map Group.outline) ∧
      ((∃ sentences, Group.emit (Group.ofDeclarations bodies) = .ok sentences) ↔
        ∃ sentences, Group.emit (Group.ofDeclarations bodies') = .ok sentences) := by
  obtain ⟨bodies', converted', back⟩ := List.perm_comp_forall₂ moved.symm converted
  have outlines := Group.outlines_perm distinct back.symm
  have cons : ∀ c, c ∈ ds.flatMap (·.constructors) ↔ c ∈ es.flatMap (·.constructors) :=
    fun c => (moved.flatMap_right _).mem_iff
  refine ⟨_, _, bodies', collect_of_bodies converted, collect_of_bodies converted', converted',
    ?_, outlines, ?_⟩
  · exact (Table.registered_registerAll _ t).lookup_eq (Table.registered_registerAll _ t) cons
  · rw [Group.emit_ofDeclarations_ok, Group.emit_ofDeclarations_ok]
    exact forall_congr' fun o => by rw [outlines.mem_iff]

def forestTypes : List Surface.Declaration :=
  [.synonym ⟨"Label", [], .var {} "String"⟩,
    .data ⟨"Tree", [], none,
      [⟨{}, "Node", [], [], .ordinary, [.var {} "Label", .var {} "Forest"]⟩]⟩,
    .synonym ⟨"Forest", [], .list {} (.var {} "Tree")⟩]

theorem forestTypes_reversed :
    ∃ final other bodies bodies',
      collect .initial forestTypes = (final, .ok (bodies, [])) ∧
      collect .initial forestTypes.reverse = (other, .ok (bodies', [])) ∧
      bodies.map Declaration.name = ["Label", "Tree", "Forest"] ∧
      bodies'.map Declaration.name = ["Forest", "Tree", "Label"] ∧
      final.lookup .value "Node" = other.lookup .value "Node" ∧
      ((Group.ofDeclarations bodies).map Group.outline).Perm
        ((Group.ofDeclarations bodies').map Group.outline) ∧
      ∃ sentences, Group.emit (Group.ofDeclarations bodies') = .ok sentences := by
  have moved : forestTypes.Perm forestTypes.reverse := (List.reverse_perm _).symm
  obtain ⟨final, other, bodies', first, second, -, lookups, outlines, emitted⟩ :=
    collect_perm .initial forestTypes forestTypes.reverse _
      (.cons rfl (.cons rfl (.cons rfl .nil))) (by decide) moved
  have named : (collect .initial forestTypes.reverse).2.map (fun p => p.1.map Declaration.name) =
      .ok ["Forest", "Tree", "Label"] := rfl
  rw [second] at named
  exact ⟨final, other, _, bodies', first, second, rfl, Except.ok.inj named, lookups .value "Node",
    outlines, emitted.1 ⟨_, rfl⟩⟩

end Run

end Vernacular
