import Vernacular.Proofs.Recovery
import Vernacular.Proofs.Registration

set_option autoImplicit false

namespace Vernacular

theorem Table.entries_registerAll {t u : Table} (same : t.entries = u.entries)
    (cons : List String) : (t.registerAll cons).entries = (u.registerAll cons).entries := by
  induction cons generalizing t u with
  | nil => exact same
  | cons c cons ih => exact ih (Table.entries_rename same .value c (Table.constructorName c))

namespace Surface

section Congruence

variable {t u : Table}

theorem Declaration.convert_congr (same : t.entries = u.entries) (d : Declaration) :
    d.convert t = d.convert u := by
  cases d with
  | data d =>
    have registered : (d.register t).entries = (d.register u).entries := by
      rw [d.register_eq, d.register_eq]
      exact Table.entries_registerAll same _
    have agree := Table.agreeOn_of_entries registered
    have lowered := DataType.lower_congr (agree .type) d fun c _ => (agree .value).lookup c.name
    rw [convert, convert, lowered]
  | synonym d =>
    rw [convert, convert, TypeSynonym.lower_congr (Table.agreeOn_of_entries same .type) d]
  | value d => rfl
  | foreign kind => rfl

theorem Value.lowerAll_congr {σ : Type} (agree : ∀ space, Table.AgreeOn space t u)
    (recovery : Recovery σ) (s : σ) (ds : List Value) :
    lowerAll t recovery s ds = lowerAll u recovery s ds := by
  induction ds generalizing s with
  | nil => rfl
  | cons d ds ih => simp only [lowerAll, Value.lower_congr agree d, ih]

theorem Value.stub_congr (agree : ∀ space, Table.AgreeOn space t u) (d : Value) (f : Fault) :
    d.stub t f = d.stub u f := by
  rw [stub, stub, (agree .value).valueName]

end Congruence

end Surface

/-- The same choices, over tables with the same entries. -/
structure Options.Alike (o p : Options) : Prop where
  recover : o.recover = p.recover
  preamble : o.preamble = p.preamble
  entries : o.table.entries = p.table.entries

namespace Run

open Surface (Module Value)

section Congruence

variable {t u : Table}

theorem values_congr (agree : ∀ space, Table.AgreeOn space t u) (recover : Bool)
    (ds : List Value) : values recover t ds = values recover u ds := by
  have replacing : keepGoing t = keepGoing u := by
    funext replaced d f
    rw [keepGoing, keepGoing, Value.stub_congr agree]
  rw [values, values, replacing, Value.lowerAll_congr agree, Value.lowerAll_congr agree]

theorem collect_congr (same : t.entries = u.entries) (ds : List Surface.Declaration) :
    (collect t ds).2 = (collect u ds).2 ∧ (collect t ds).1.entries = (collect u ds).1.entries := by
  induction ds generalizing t u with
  | nil => exact ⟨rfl, same⟩
  | cons d ds ih =>
    have next := Table.entries_registerAll same d.constructors
    have converted := d.convert_congr same
    cases h : d.convert u with
    | error failure =>
      rw [collect_cons_error h, collect_cons_error (converted.trans h)]
      exact ⟨rfl, next⟩
    | ok b =>
      rw [collect_cons_ok h, collect_cons_ok (converted.trans h)]
      obtain ⟨results, entries⟩ := ih next
      exact ⟨by rw [results], entries⟩

end Congruence

theorem collect_interleaved {m n : Module} (types : m.types = n.types)
    (values : m.values = n.values) (t : Table) :
    collect t m.declarations = collect t n.declarations := by
  have others : m.declarations.filter (·.value?.isNone) = n.declarations.filter (·.value?.isNone) :=
    congrArg Module.declarations types
  rw [collect_eq t m.declarations, collect_eq t n.declarations, others,
    show m.declarations.filterMap Surface.Declaration.value? =
      n.declarations.filterMap Surface.Declaration.value? from values]

/-- Tables with the same entries may be built differently, but no run can tell. -/
theorem ofModule_alike (m : Module) {o p : Options} (alike : o.Alike p) :
    (ofModule m o).result = (ofModule m p).result ∧ (ofModule m o).log = (ofModule m p).log ∧
      (ofModule m o).table.entries = (ofModule m p).table.entries := by
  obtain ⟨results, entries⟩ := collect_congr alike.entries m.declarations
  unfold ofModule
  generalize collect o.table m.declarations = first at results entries ⊢
  generalize collect p.table m.declarations = second at results entries ⊢
  obtain ⟨t, collected⟩ := first
  obtain ⟨u, _⟩ := second
  cases results
  obtain failure | ⟨types, ds⟩ := collected
  · exact ⟨rfl, rfl, entries⟩
  · have converted := values_congr (Table.agreeOn_of_entries entries) p.recover ds
    simp only [alike.recover, alike.preamble, converted]
    rcases emit (Group.ofDeclarations types) with ⟨log, failure | sentences⟩
    · exact ⟨rfl, rfl, entries⟩
    · rcases values p.recover u ds with ⟨replaced, failure | others⟩
      · exact ⟨rfl, rfl, entries⟩
      · exact ⟨rfl, rfl, entries⟩

theorem values_of_ofModule {m : Module} {options : Options} {outcome : Outcome}
    (h : (ofModule m options).result = .ok outcome) :
    ∃ front, outcome.sentences =
      front ++ m.values.flatMap (·.contribution (ofModule m options).table) := by
  obtain ⟨types, ds, log, sentences, replaced, others, collected, -, converted, written⟩ :=
    parts_of_ofModule h
  have listed : ds = m.values := values_of_collect collected
  have contributed := values_eq_ok (congrArg Prod.snd converted)
  exact ⟨_, by rw [written, contributed, listed]⟩

/-- Modules that differ in how their values are interleaved with their other declarations give the
same result. A value may use the constructors of a data type that is declared after it. -/
theorem ofModule_interleaved (m n : Module) (o p : Options) (types : m.types = n.types)
    (values : m.values = n.values) (alike : o.Alike p) :
    (ofModule m o).result = (ofModule n p).result ∧ (ofModule m o).log = (ofModule n p).log ∧
      (ofModule m o).table.entries = (ofModule n p).table.entries ∧
      ∀ outcome, (ofModule m o).result = .ok outcome →
        (∃ front, outcome.sentences =
          front ++ m.values.flatMap (·.contribution (ofModule m o).table)) ∧
        ∀ d, .data d ∈ m.declarations → ∀ c ∈ d.constructors,
          (ofModule m o).table.valueName c.name = "Mk_" ++ c.name := by
  have moved : ofModule m p = ofModule n p := by
    have name : m.name = n.name := by
      change m.types.name = n.types.name
      rw [types]
    unfold ofModule
    rw [collect_interleaved types values, name]
  obtain ⟨results, logs, entries⟩ := ofModule_alike m alike
  rw [← moved]
  refine ⟨results, logs, entries, fun outcome succeeded => ⟨values_of_ofModule succeeded, ?_⟩⟩
  intro d hd c hc
  have registered : c.name ∈ m.declarations.flatMap (·.constructors) :=
    List.mem_flatMap.2 ⟨_, hd, List.mem_map_of_mem hc⟩
  exact (registered_of_converted (converted_of_ofModule succeeded)).valueName registered

def sortedLamps : Module :=
  { lampModule with
    declarations := lampModule.types.declarations ++ lampModule.values.map .value }

theorem lamps_sorted :
    (ofModule lampModule ⟨true, true, .initial⟩).result =
        (ofModule sortedLamps ⟨true, true, Table.initial.rename .value "True" "true"⟩).result ∧
      (∃ outcome, (ofModule lampModule ⟨true, true, .initial⟩).result = .ok outcome) ∧
      (ofModule lampModule ⟨true, true, .initial⟩).table.valueName "Off" = "Mk_Off" := by
  obtain ⟨results, -, -, converted⟩ :=
    ofModule_interleaved lampModule sortedLamps ⟨true, true, .initial⟩
      ⟨true, true, Table.initial.rename .value "True" "true"⟩ rfl rfl ⟨rfl, rfl, by decide⟩
  obtain ⟨-, constructors⟩ := converted _ rfl
  refine ⟨results, ⟨_, rfl⟩, ?_⟩
  exact constructors
    ⟨"Lamp", [], none,
      [⟨{}, "On", [], [], .ordinary, []⟩, ⟨{}, "Off", [], [], .ordinary, []⟩]⟩
    (by simp [lampModule]) ⟨{}, "Off", [], [], .ordinary, []⟩ (by simp)

end Run

end Vernacular
