import Vernacular.Proofs.Agreement

set_option autoImplicit false

namespace Vernacular

namespace Table

theorem registerAll_append (t : Table) (cons others : List String) :
    t.registerAll (cons ++ others) = (t.registerAll cons).registerAll others :=
  List.foldl_append

/-- The later table is the earlier one with some constructors registered. -/
structure Registered (cons : List String) (t u : Table) : Prop where
  types : AgreeOn .type t u
  constructors : ∀ c ∈ cons, u.target? ⟨c, .value⟩ = some ("Mk_" ++ c)
  others : ∀ x, x ∉ cons → u.target? ⟨x, .value⟩ = t.target? ⟨x, .value⟩

theorem registered_registerAll (cons : List String) (t : Table) :
    Registered cons t (t.registerAll cons) := by
  induction cons generalizing t with
  | nil => exact ⟨fun _ => rfl, List.forall_mem_nil _, fun _ _ => rfl⟩
  | cons c cons ih =>
    have rest := ih (t.registerConstructor c)
    have first : (t.registerConstructor c).target? ⟨c, .value⟩ = some ("Mk_" ++ c) := by
      rw [registerConstructor, target?_rename, if_pos rfl, constructorName]
    refine ⟨fun x => ?_, fun x hx => ?_, fun x hx => ?_⟩
    · have kept : (t.registerConstructor c).target? ⟨x, .type⟩ = t.target? ⟨x, .type⟩ := by
        rw [registerConstructor, target?_rename, if_neg (by simp)]
      exact kept.symm.trans (rest.types x)
    · by_cases again : x ∈ cons
      · exact rest.constructors x again
      · -- the constructor is not written again after its own turn
        obtain rfl : x = c := (List.mem_cons.1 hx).resolve_right again
        exact (rest.others x again).trans first
    · have other : c ≠ x := fun same => hx (same ▸ List.mem_cons_self ..)
      have later : x ∉ cons := fun h => hx (List.mem_cons_of_mem _ h)
      refine (rest.others x later).trans ?_
      rw [registerConstructor, target?_rename, if_neg (by simpa using other)]

section Registered

variable {cons : List String} {t u : Table}

theorem Registered.isSome (h : Registered cons t u) {slot : Slot}
    (written : (t.target? slot).isSome) : (u.target? slot).isSome := by
  obtain ⟨x, space⟩ := slot
  cases space with
  | type => rwa [← h.types x]
  | value =>
    by_cases registered : x ∈ cons
    · rw [h.constructors x registered, Option.isSome_some]
    · rwa [h.others x registered]

theorem Registered.valueName (h : Registered cons t u) {c : String} (hc : c ∈ cons) :
    u.valueName c = "Mk_" ++ c := by
  rw [Table.valueName, lookup_eq, h.constructors c hc, Option.getD_some]

/-- Which constructors are registered matters, and not in which order or how often. -/
theorem Registered.lookup_eq {others : List String} {v : Table} (h : Registered cons t u)
    (k : Registered others t v) (same : ∀ c, c ∈ cons ↔ c ∈ others) (space : Namespace)
    (x : String) : u.lookup space x = v.lookup space x := by
  have slots : AgreeOn space u v := by
    intro y
    cases space with
    | type => exact (h.types y).symm.trans (k.types y)
    | value =>
      by_cases registered : y ∈ cons
      · rw [h.constructors y registered, k.constructors y ((same y).1 registered)]
      · rw [h.others y registered, k.others y fun hy => registered ((same y).2 hy)]
  exact slots.lookup x

end Registered

end Table

namespace Surface

open Table (AgreeOn Registered registered_registerAll)

theorem DataType.lower_register_registerAll (d : DataType) (t : Table) (cons : List String) :
    d.lower (d.register (t.registerAll cons)) = d.lower (d.register t) := by
  rw [d.register_eq, d.register_eq]
  have before := registered_registerAll cons t
  have late := registered_registerAll (d.constructors.map DataConstructor.name) (t.registerAll cons)
  have early := registered_registerAll (d.constructors.map DataConstructor.name) t
  refine DataType.lower_congr (fun x => ?_) d fun c hc => ?_
  · rw [← late.types x, ← before.types x, early.types x]
  · have own := List.mem_map_of_mem (f := DataConstructor.name) hc
    rw [late.valueName own, early.valueName own]

theorem Declaration.convert_registerAll (d : Declaration) (t : Table) (cons : List String) :
    d.convert (t.registerAll cons) = d.convert t := by
  cases d with
  | data d => rw [convert, convert, d.lower_register_registerAll]
  | synonym d =>
    have types := (registered_registerAll cons t).types
    rw [convert, convert, ← d.lower_congr types]
  | value d => rfl
  | foreign kind => rfl

end Surface

namespace Run

open Surface (Module Value)
open Table (Registered registered_registerAll)

section Collect

variable {t : Table} {d : Surface.Declaration} {ds : List Surface.Declaration}

/-- Declarations that are converted leave their constructors behind for those that follow. -/
theorem collect_append {front : List Surface.Declaration}
    (h : ∀ d ∈ front, ∃ b, d.convert t = .ok b) :
    ∃ types values, ∀ rest, collect t (front ++ rest) =
      ((collect (t.registerAll (front.flatMap (·.constructors))) rest).1,
        (collect (t.registerAll (front.flatMap (·.constructors))) rest).2.map fun p =>
          (types ++ p.1, values ++ p.2)) := by
  induction front generalizing t with
  | nil =>
    refine ⟨[], [], fun rest => ?_⟩
    change collect t rest = ((collect t rest).1, (collect t rest).2.map fun p => p)
    rcases collect t rest with ⟨final, failure | p⟩ <;> rfl
  | cons d front ih =>
    obtain ⟨⟨b, first⟩, others⟩ := List.forall_mem_cons.1 h
    have onward : ∀ e ∈ front, ∃ c, e.convert (t.registerAll d.constructors) = .ok c := by
      intro e he
      rw [e.convert_registerAll]
      exact others e he
    obtain ⟨types, values, rest_eq⟩ := ih onward
    refine ⟨b.toList ++ types, d.value?.toList ++ values, fun rest => ?_⟩
    rw [List.cons_append, collect_cons_ok first, rest_eq, List.flatMap_cons,
      Table.registerAll_append]
    generalize collect _ rest = remaining
    obtain ⟨final, failure | p⟩ := remaining
    · rfl
    · simp [Except.map]

theorem collect_of_converted (h : ∀ d ∈ ds, ∃ b, d.convert t = .ok b) :
    ∃ p, collect t ds = (t.registerAll (ds.flatMap (·.constructors)), .ok p) := by
  obtain ⟨types, values, whole⟩ := collect_append h
  refine ⟨(types, values), ?_⟩
  have last := whole []
  rw [List.append_nil] at last
  simpa [collect, Except.map] using last

theorem collect_of_failed {front back : List Surface.Declaration} {failure : Failure}
    (h : ∀ d ∈ front, ∃ b, d.convert t = .ok b) (failed : d.convert t = .error failure) :
    collect t (front ++ d :: back) =
      (t.registerAll ((front ++ [d]).flatMap (·.constructors)), .error failure) := by
  obtain ⟨types, values, whole⟩ := collect_append h
  rw [← d.convert_registerAll t (front.flatMap (·.constructors))] at failed
  rw [whole, collect_cons_error failed, List.flatMap_append, List.flatMap_singleton,
    Table.registerAll_append]
  rfl

end Collect

theorem table_ofModule (m : Module) (options : Options) :
    (ofModule m options).table = (collect options.table m.declarations).1 := by
  unfold ofModule
  rcases collect options.table m.declarations with ⟨table, failure | ⟨types, ds⟩⟩
  · rfl
  · rcases emitted : emit (Group.ofDeclarations types) with ⟨log, failure | sentences⟩
    · simp only [emitted]
    · simp only [emitted]
      rcases values options.recover table ds with ⟨replaced, failure | others⟩ <;> rfl

theorem result_of_collect_error {m : Module} {options : Options} {table : Table} {failure : Failure}
    (h : collect options.table m.declarations = (table, .error failure)) :
    (ofModule m options).result = .error failure := by
  unfold ofModule
  rw [h]

section Registered

variable {m : Module} {options : Options}

theorem registered_of_converted (h : ∀ d ∈ m.declarations, ∃ b, d.convert options.table = .ok b) :
    Registered (m.declarations.flatMap (·.constructors)) options.table
      (ofModule m options).table := by
  obtain ⟨p, collected⟩ := collect_of_converted h
  rw [table_ofModule, collected]
  exact registered_registerAll _ _

theorem registered_of_failed {front back : List Surface.Declaration} {d : Surface.Declaration}
    {failure : Failure} (place : m.declarations = front ++ d :: back)
    (before : ∀ e ∈ front, ∃ b, e.convert options.table = .ok b)
    (failed : d.convert options.table = .error failure) :
    (ofModule m options).result = .error failure ∧
      Registered ((front ++ [d]).flatMap (·.constructors)) options.table
        (ofModule m options).table := by
  have collected : collect options.table (front ++ d :: back) = _ := collect_of_failed before failed
  rw [← place] at collected
  refine ⟨result_of_collect_error collected, ?_⟩
  rw [table_ofModule, collected]
  exact registered_registerAll _ _

theorem converted_of_ofModule {outcome : Outcome} (h : (ofModule m options).result = .ok outcome) :
    ∀ d ∈ m.declarations, ∃ b, d.convert options.table = .ok b := by
  by_contra stopped
  obtain ⟨front, d, back, failure, place, before, failed⟩ := Surface.exists_first_error stopped
  rw [(registered_of_failed place before failed).1] at h
  cases h

end Registered

/-- A run changes a table by registering constructors and in no other way: those of all data types
if all types are converted, as in a run that succeeds, and else those of the data types up to the
first declaration that fails. -/
theorem ofModule_registered (m : Module) (options : Options) :
    ((∀ d ∈ m.declarations, ∃ b, d.convert options.table = .ok b) →
      Registered (m.declarations.flatMap (·.constructors)) options.table
        (ofModule m options).table) ∧
    (∀ front d back failure, m.declarations = front ++ d :: back →
      (∀ e ∈ front, ∃ b, e.convert options.table = .ok b) →
        d.convert options.table = .error failure →
          (ofModule m options).result = .error failure ∧
            Registered ((front ++ [d]).flatMap (·.constructors)) options.table
              (ofModule m options).table) ∧
    (∀ outcome, (ofModule m options).result = .ok outcome →
      ∀ d ∈ m.declarations, ∃ b, d.convert options.table = .ok b) ∧
    ∀ slot, (options.table.target? slot).isSome →
      ((ofModule m options).table.target? slot).isSome := by
  refine ⟨registered_of_converted, fun front d back failure => registered_of_failed,
    fun outcome => converted_of_ofModule, fun slot written => ?_⟩
  by_cases converted : ∀ d ∈ m.declarations, ∃ b, d.convert options.table = .ok b
  · exact (registered_of_converted converted).isSome written
  · obtain ⟨front, d, back, failure, place, before, failed⟩ := Surface.exists_first_error converted
    exact (registered_of_failed place before failed).2.isSome written

def lampType : Surface.Declaration :=
  .data ⟨"Lamp", [], none, [⟨{}, "On", [], [], .ordinary, []⟩, ⟨{}, "True", [], [], .ordinary, []⟩]⟩

def recordType : Surface.Declaration :=
  .data ⟨"Point", [], none, [⟨{}, "Pt", [], [], .record, []⟩]⟩

def lateType : Surface.Declaration :=
  .data ⟨"Late", [], none, [⟨{}, "Last", [], [], .ordinary, []⟩]⟩

theorem lamps_registered :
    (∃ table, (ofModule ⟨"Lamps", [lampType, lateType]⟩ ⟨true, true, .initial⟩).table = table ∧
      table.target? ⟨"True", .value⟩ = some "Mk_True" ∧
      table.target? ⟨"Last", .value⟩ = some "Mk_Last" ∧
      table.target? ⟨"False", .value⟩ = some "false") ∧
    ∃ table, (ofModule ⟨"Lamps", [lampType, recordType, lateType]⟩ ⟨true, true, .initial⟩) =
        { table, log := [],
          result := .error (Failure.within "converting data type Point"
            (.ofFault (.unsupported "record syntax in data declarations"))) } ∧
      table.target? ⟨"True", .value⟩ = some "Mk_True" ∧
      table.target? ⟨"Pt", .value⟩ = some "Mk_Pt" ∧
      table.target? ⟨"Last", .value⟩ = none ∧
      table.target? ⟨"Bool", .type⟩ = some "bool" := by
  obtain ⟨completed, -, -, -⟩ :=
    ofModule_registered ⟨"Lamps", [lampType, lateType]⟩ ⟨true, true, .initial⟩
  obtain ⟨-, stopped, -, -⟩ :=
    ofModule_registered ⟨"Lamps", [lampType, recordType, lateType]⟩ ⟨true, true, .initial⟩
  have lamp : ∃ b, lampType.convert .initial = .ok b := ⟨_, rfl⟩
  have late : ∃ b, lateType.convert .initial = .ok b := ⟨_, rfl⟩
  have full := completed (List.forall_mem_cons.2 ⟨lamp, List.forall_mem_singleton.2 late⟩)
  have part := (stopped [lampType] recordType [lateType] _ rfl
    (List.forall_mem_singleton.2 lamp) rfl).2
  refine ⟨⟨_, rfl, ?_, ?_, ?_⟩, ⟨_, rfl, ?_, ?_, ?_, ?_⟩⟩
  · exact full.constructors "True" (by decide)
  · exact full.constructors "Last" (by decide)
  · exact (full.others "False" (by decide)).trans rfl
  · exact part.constructors "True" (by decide)
  · exact part.constructors "Pt" (by decide)
  · exact (part.others "Last" (by decide)).trans rfl
  · exact (part.types "Bool").symm.trans rfl

end Run

end Vernacular
