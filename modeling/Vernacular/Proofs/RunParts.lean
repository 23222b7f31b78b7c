import Vernacular.Proofs.Outcome
import Vernacular.Run

set_option autoImplicit false

namespace Vernacular

def Table.registerAll (t : Table) (cons : List String) : Table :=
  cons.foldl registerConstructor t

namespace Surface

section Parts

variable {t : Table}

theorem DataConstructor.lower_parts {c : DataConstructor} {result : Term} {k : Constructor}
    (h : c.lower t result = .ok k) :
    ∃ binders fields, TyVar.lowerAll t c.vars = .ok binders ∧ Ty.lowerAll t c.fields = .ok fields ∧
      k = ⟨t.valueName c.name, binders.map Binder.hidden, .arrows fields result⟩ := by
  obtain ⟨pos, name, vs, context, style, tys⟩ := c
  cases context with
  | cons _ _ => cases h
  | nil =>
    by_cases record : style = .record
    · subst record
      cases h
    · simp only [DataConstructor.lower, List.isEmpty_nil, Bool.not_true, Bool.false_eq_true, record,
        if_false, bind_eq_ok, pure_eq_ok] at h
      obtain ⟨binders, vars, fields, types, rfl⟩ := h
      exact ⟨binders, fields, vars, types, rfl⟩

def DataType.lowerKind (t : Table) (d : DataType) : Except Fault Term :=
  match d.kind with
  | none => .ok .typeSort
  | some kind => kind.lower t

/-- With the kind as a step of its own, the steps of a conversion can be taken apart one by one. -/
theorem DataType.lower_eq (t : Table) (d : DataType) :
    d.lower t = (do
      let params ← TyVar.lowerAll t d.params
      let type ← d.lowerKind t
      let result := (Term.var (t.typeName d.name)).apply (params.map fun p => .var p.name)
      let constructors ← d.constructors.mapM (·.lower t result)
      return { name := t.typeName d.name, params, type, constructors }) := by
  unfold DataType.lower DataType.lowerKind
  cases d.kind <;> rfl

theorem DataType.lower_parts {d : DataType} {body : InductiveBody} (h : d.lower t = .ok body) :
    body.name = t.typeName d.name ∧ TyVar.lowerAll t d.params = .ok body.params ∧
      d.lowerKind t = .ok body.type ∧
        d.constructors.mapM (·.lower t
          ((Term.var body.name).apply (body.params.map fun p => .var p.name))) =
            .ok body.constructors := by
  simp only [DataType.lower_eq, bind_eq_ok, pure_eq_ok] at h
  obtain ⟨params, hparams, type, hkind, constructors, each, rfl⟩ := h
  exact ⟨rfl, hparams, hkind, each⟩

end Parts

theorem DataType.register_eq (d : DataType) (t : Table) :
    d.register t = t.registerAll (d.constructors.map DataConstructor.name) := by
  rw [DataType.register, Table.registerAll, List.foldl_map]

namespace Declaration

def value? : Declaration → Option Value
  | .value d => some d
  | _ => none

def constructors : Declaration → List String
  | .data d => d.constructors.map DataConstructor.name
  | .synonym _ | .value _ | .foreign _ => []

/-- What a run over a table makes of a declaration at its front: a target declaration, or nothing if
it is a value, which is set aside. -/
def convert (t : Table) : Declaration → Except Failure (Option Vernacular.Declaration)
  | .data d =>
    match d.lower (d.register t) with
    | .error f => .error ((Failure.ofFault f).within ("converting data type " ++ d.name))
    | .ok body => .ok (some (.data body))
  | .synonym d =>
    match d.lower t with
    | .error f => .error ((Failure.ofFault f).within ("converting type synonym " ++ d.name))
    | .ok body => .ok (some (.synonym body))
  | .value _ => .ok none
  | .foreign kind => .error (.plain ("unknown declaration " ++ kind))

theorem convert_cases {t : Table} {d : Declaration} {b : Option Vernacular.Declaration}
    (h : d.convert t = .ok b) :
    (∃ e body, d = .data e ∧ e.lower (e.register t) = .ok body ∧ b = some (.data body)) ∨
      (∃ e body, d = .synonym e ∧ e.lower t = .ok body ∧ b = some (.synonym body)) ∨
        ∃ e, d = .value e ∧ b = none := by
  cases d with
  | data e =>
    rw [convert] at h
    cases converted : e.lower (e.register t) with
    | error f =>
      rw [converted] at h
      cases h
    | ok body =>
      rw [converted] at h
      cases h
      exact .inl ⟨e, body, rfl, converted, rfl⟩
  | synonym e =>
    rw [convert] at h
    cases converted : e.lower t with
    | error f =>
      rw [converted] at h
      cases h
    | ok body =>
      rw [converted] at h
      cases h
      exact .inr (.inl ⟨e, body, rfl, converted, rfl⟩)
  | value e =>
    cases h
    exact .inr (.inr ⟨e, rfl, rfl⟩)
  | foreign kind => cases h

end Declaration

namespace Module

def types (m : Module) : Module :=
  { m with declarations := m.declarations.filter (·.value?.isNone) }

def values (m : Module) : List Value :=
  m.declarations.filterMap Declaration.value?

end Module

end Surface

namespace Run

open Surface (Module Value)

section Collect

variable {t : Table} {d : Surface.Declaration} {ds : List Surface.Declaration}

/-- The declaration at the front leaves its constructors behind, also if it cannot be converted. -/
theorem collect_cons_eq (t : Table) (d : Surface.Declaration) (ds : List Surface.Declaration) :
    collect t (d :: ds) =
      match d.convert t with
      | .error failure => (t.registerAll d.constructors, .error failure)
      | .ok b =>
        ((collect (t.registerAll d.constructors) ds).1,
          (collect (t.registerAll d.constructors) ds).2.map fun p =>
            (b.toList ++ p.1, d.value?.toList ++ p.2)) := by
  cases d with
  | data d =>
    rw [collect, Surface.Declaration.convert, Surface.Declaration.constructors, ← d.register_eq]
    cases d.lower (d.register t) <;> rfl
  | synonym d =>
    rw [collect, Surface.Declaration.convert]
    cases d.lower t <;> rfl
  | value d => rfl
  | foreign kind => rfl

theorem collect_cons_ok {b : Option Declaration} (h : d.convert t = .ok b) :
    collect t (d :: ds) =
      ((collect (t.registerAll d.constructors) ds).1,
        (collect (t.registerAll d.constructors) ds).2.map fun p =>
          (b.toList ++ p.1, d.value?.toList ++ p.2)) := by
  rw [collect_cons_eq, h]

theorem collect_cons_error {failure : Failure} (h : d.convert t = .error failure) :
    collect t (d :: ds) = (t.registerAll d.constructors, .error failure) := by
  rw [collect_cons_eq, h]

end Collect

theorem collect_eq (table : Table) (ds : List Surface.Declaration) :
    collect table ds =
      ((collect table (ds.filter (·.value?.isNone))).1,
        (collect table (ds.filter (·.value?.isNone))).2.map fun p =>
          (p.1, ds.filterMap Surface.Declaration.value?)) := by
  induction ds generalizing table with
  | nil => rfl
  | cons d ds ih =>
    cases hd : d.value? with
    | none =>
      rw [List.filter_cons_of_pos (by rw [hd]; rfl), List.filterMap_cons_none hd, collect_cons_eq,
        collect_cons_eq, ih, hd]
      cases d.convert table with
      | error failure => rfl
      | ok b =>
        cases (collect (table.registerAll d.constructors) (ds.filter (·.value?.isNone))).2 <;> rfl
    | some v =>
      obtain rfl : d = .value v := by
        cases d <;> cases hd
        rfl
      rw [List.filter_cons_of_neg (by rw [hd]; simp), List.filterMap_cons_some hd, collect, ih]
      cases (collect table (ds.filter (·.value?.isNone))).2 <;> rfl

theorem values_of_collect {table final : Table} {ds : List Surface.Declaration}
    {types : List Declaration} {rest : List Value}
    (h : collect table ds = (final, .ok (types, rest))) :
    rest = ds.filterMap Surface.Declaration.value? := by
  have second := congrArg Prod.snd h
  rw [collect_eq] at second
  cases collected : (collect table (ds.filter (·.value?.isNone))).2 with
  | error failure =>
    rw [collected] at second
    cases second
  | ok p =>
    rw [collected] at second
    cases second
    rfl

theorem collect_types {m : Module} {table final : Table} {types : List Declaration}
    {ds : List Value} (h : collect table m.types.declarations = (final, .ok (types, ds))) :
    ds = [] ∧ collect table m.declarations = (final, .ok (types, m.values)) := by
  have again := collect_eq table m.types.declarations
  have none : m.types.declarations.filterMap Surface.Declaration.value? = [] := by
    simp [Module.types]
  rw [show m.types.declarations.filter (·.value?.isNone) = m.types.declarations by
    simp [Module.types], h, none] at again
  refine ⟨?_, ?_⟩
  · simpa [Except.map] using again
  · rw [collect_eq]
    have whole : m.declarations.filter (·.value?.isNone) = m.types.declarations := rfl
    rw [whole, h]
    rfl

/-- What the first declaration contributes, and the table over which the others are converted. -/
theorem collect_cons {t final : Table} {d : Surface.Declaration} {ds : List Surface.Declaration}
    {types : List Declaration} {rest : List Value}
    (h : collect t (d :: ds) = (final, .ok (types, rest))) :
    ∃ next others values, collect next ds = (final, .ok (others, values)) ∧
      ((∃ e body, d = .data e ∧ next = e.register t ∧ e.lower next = .ok body ∧
          types = .data body :: others ∧ rest = values) ∨
        (∃ e body, d = .synonym e ∧ next = t ∧ e.lower next = .ok body ∧
          types = .synonym body :: others ∧ rest = values) ∨
        ∃ e, d = .value e ∧ next = t ∧ types = others ∧ rest = e :: values) := by
  cases converted : d.convert t with
  | error failure =>
    rw [collect_cons_error converted] at h
    cases h
  | ok b =>
    rw [collect_cons_ok converted] at h
    rcases onward : collect (t.registerAll d.constructors) ds with
      ⟨last, failure | ⟨others, values⟩⟩
    · rw [onward] at h
      cases h
    · rw [onward] at h
      cases h
      refine ⟨_, others, values, onward, ?_⟩
      rcases Surface.Declaration.convert_cases converted with
        ⟨e, body, rfl, lowered, rfl⟩ | ⟨e, body, rfl, lowered, rfl⟩ | ⟨e, rfl, rfl⟩
      · rw [e.register_eq] at lowered
        exact .inl ⟨e, body, rfl, (e.register_eq t).symm, lowered, rfl, rfl⟩
      · exact .inr (.inl ⟨e, body, rfl, rfl, lowered, rfl, rfl⟩)
      · exact .inr (.inr ⟨e, rfl, rfl, rfl, rfl⟩)

/-- Each group has a piece of the sentences of its own. -/
theorem pieces_of_emit {gs : List Group} {log : List Event} {sentences : List Sentence}
    (h : emit gs = (log, .ok sentences)) :
    ∃ pieces, List.Forall₂ (fun g piece => g.sentences = .ok piece) gs pieces ∧
      sentences = pieces.flatten := by
  induction gs generalizing log sentences with
  | nil =>
    cases h
    exact ⟨[], .nil, rfl⟩
  | cons g gs ih =>
    cases first : g.sentences with
    | error f => simp [emit, first] at h
    | ok piece =>
      rcases onward : emit gs with ⟨events, failure | others⟩
      · simp [emit, first, onward, Except.map] at h
      · simp only [emit, first, onward, Except.map, Prod.mk.injEq, Except.ok.injEq] at h
        obtain ⟨-, rfl⟩ := h
        obtain ⟨pieces, each, rfl⟩ := ih onward
        exact ⟨piece :: pieces, .cons first each, rfl⟩

theorem exists_group_of_emit {gs : List Group} {log : List Event} {sentences : List Sentence}
    (h : emit gs = (log, .ok sentences)) {s : Sentence} (hs : s ∈ sentences) :
    ∃ g ∈ gs, ∃ piece, g.sentences = .ok piece ∧ s ∈ piece := by
  obtain ⟨pieces, each, rfl⟩ := pieces_of_emit h
  obtain ⟨piece, listed, mem⟩ := List.mem_flatten.1 hs
  obtain ⟨g, hg, made⟩ := Surface.exists_of_mem_mapM (Surface.mapM_eq_ok.2 each) listed
  exact ⟨g, hg, piece, made, mem⟩

def opening (options : Options) (types : List Declaration) : List Sentence :=
  if options.preamble && Group.needsPreamble (Group.ofDeclarations types) then preamble else []

section Parts

variable {m : Module} {options : Options} {table : Table} {types : List Declaration}
  {ds : List Value} {log : List Event} {sentences : List Sentence}

theorem ofModule_of_parts (options : Options)
    (collected : collect options.table m.declarations = (table, .ok (types, ds)))
    (emitted : emit (Group.ofDeclarations types) = (log, .ok sentences)) :
    (ofModule m options).table = table ∧
      (ofModule m options).result =
        (values options.recover table ds).2.map fun others =>
          { sentences := opening options types ++ sentences ++ others
            report := reportOf (values options.recover table ds).1 } := by
  unfold ofModule
  simp only [collected, emitted]
  rcases values options.recover table ds with ⟨replaced, failure | others⟩
  · exact ⟨rfl, rfl⟩
  · exact ⟨rfl, rfl⟩

theorem parts_of_ofModule {outcome : Outcome} (h : (ofModule m options).result = .ok outcome) :
    ∃ types ds log sentences replaced others,
      collect options.table m.declarations = ((ofModule m options).table, .ok (types, ds)) ∧
      emit (Group.ofDeclarations types) = (log, .ok sentences) ∧
      values options.recover (ofModule m options).table ds = (replaced, .ok others) ∧
      outcome.sentences = opening options types ++ sentences ++ others := by
  rcases collected : collect options.table m.declarations with ⟨table, failure | ⟨types, ds⟩⟩
  · simp [ofModule, collected] at h
  · rcases emitted : emit (Group.ofDeclarations types) with ⟨log, failure | sentences⟩
    · simp [ofModule, collected, emitted] at h
    · obtain ⟨final, result⟩ := ofModule_of_parts options collected emitted
      rcases converted : values options.recover table ds with ⟨replaced, failure | others⟩
      · rw [result, converted] at h
        cases h
      · rw [result, converted] at h
        cases h
        exact ⟨types, ds, log, sentences, replaced, others, by rw [final], emitted,
          by rw [final, converted], rfl⟩

end Parts

end Run

end Vernacular
