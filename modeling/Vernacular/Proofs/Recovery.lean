import Vernacular.Proofs.Referents
import Vernacular.Proofs.RunParts

/-!
Recovery in a run. The types of a module are converted as if its values were not there, and each
value as if it were alone, over the table that the types leave behind. A run with recovery replaces
exactly the values with a fault, and a run without it stops at the first of them.
-/

set_option autoImplicit false

namespace Vernacular

namespace Surface.Value

variable (table : Table)

def fault? (d : Value) : Option Fault :=
  match d.lower table with
  | .ok _ => none
  | .error f => some f

def contribution (d : Value) : List Sentence :=
  match d.lower table with
  | .ok definition => [.define definition]
  | .error f => d.stub table f

def warning? (d : Value) : Option Diagnostic :=
  (d.fault? table).map fun f => .recovered d.name (.ofFault f)

variable {table}

theorem fault?_eq_none {d : Value} :
    d.fault? table = none ↔ ∃ definition, d.lower table = .ok definition := by
  unfold fault?
  cases d.lower table with
  | ok definition => exact ⟨fun _ => ⟨definition, rfl⟩, fun _ => rfl⟩
  | error f => exact ⟨nofun, nofun⟩

section Outcomes

variable {d : Value}

theorem contribution_of_ok {definition : Definition} (h : d.lower table = .ok definition) :
    d.contribution table = [.define definition] := by
  simp only [contribution, h]

theorem contribution_of_error {f : Fault} (h : d.lower table = .error f) :
    d.contribution table =
      [.comment ("Translating `" ++ d.name ++ "' failed: " ++ f.message),
        .assume (table.valueName d.name) (.pi [.mk "a" (some .typeSort) true] (.var "a"))] := by
  simp only [contribution, h, stub]

theorem warning?_of_ok {definition : Definition} (h : d.lower table = .ok definition) :
    d.warning? table = none := by
  simp only [warning?, fault?, h, Option.map_none]

theorem warning?_of_error {f : Fault} (h : d.lower table = .error f) :
    d.warning? table = some
      { severity := .warning
        message := f.kind.name ++ ": " ++ f.description
        position := f.position
        subject := d.name
        hint := "translated as an axiom" } := by
  simp only [warning?, fault?, h, Option.map_some]
  rfl

end Outcomes

theorem severity_of_mem_warnings {ds : List Value} {e : Diagnostic}
    (he : e ∈ ds.filterMap (·.warning? table)) : e.severity = .warning := by
  obtain ⟨d, -, h⟩ := List.mem_filterMap.1 he
  cases lowered : d.lower table with
  | ok definition =>
    rw [warning?_of_ok lowered] at h
    cases h
  | error f =>
    rw [warning?_of_error lowered] at h
    cases h
    rfl

/-- As many warnings are given as there are values with a fault. -/
theorem warnings_eq (ds : List Value) :
    Report.warnings (ds.filterMap (·.warning? table)) =
      ds.countP fun d => (d.fault? table).isSome := by
  have each : ∀ e ∈ ds.filterMap (·.warning? table), decide (e.severity = .warning) = true :=
    fun e he => decide_eq_true (severity_of_mem_warnings he)
  rw [Report.warnings, List.countP_eq_length.2 each, List.length_filterMap_eq_countP]
  simp only [warning?, Option.isSome_map]

theorem name_of_lower {d : Value} {definition : Definition} (h : d.lower table = .ok definition) :
    definition.name = table.valueName d.name := by
  obtain ⟨⟨pos, x, qs⟩, signature⟩ := d
  exact (Binding.lower_parts h).1

/-- A value makes its target name known once, with or without a fault. -/
theorem declared_contribution (d : Value) :
    (d.contribution table).flatMap Sentence.declared = [table.valueName d.name] := by
  unfold contribution
  cases h : d.lower table with
  | ok definition => simp [Sentence.declared, name_of_lower h]
  | error f => simp [stub, Sentence.declared]

theorem lowerAll_keepGoing (replaced : List (String × Fault)) (ds : List Value) :
    lowerAll table (Run.keepGoing table) replaced ds =
      (replaced ++ ds.filterMap fun d => (d.fault? table).map (d.name, ·),
        .ok (ds.flatMap (contribution table))) := by
  induction ds generalizing replaced with
  | nil => simp [lowerAll]
  | cons d ds ih =>
    cases h : d.lower table with
    | ok definition => simp [lowerAll, fault?, contribution, h, ih, Except.map]
    | error f =>
      simp [lowerAll, fault?, contribution, h, ih, Except.map, Run.keepGoing]

theorem lowerAll_abort_ok {ds : List Value} (clean : ∀ d ∈ ds, d.fault? table = none) :
    (lowerAll table .abort () ds).2 = .ok (ds.flatMap (contribution table)) := by
  induction ds with
  | nil => rfl
  | cons d ds ih =>
    obtain ⟨first, rest⟩ := List.forall_mem_cons.1 clean
    obtain ⟨definition, h⟩ := fault?_eq_none.1 first
    simp [lowerAll, contribution, h, ih rest, Except.map]

theorem lowerAll_abort_error {front rest : List Value} {d : Value} {f : Fault}
    (clean : ∀ e ∈ front, e.fault? table = none) (h : d.lower table = .error f) :
    (lowerAll table .abort () (front ++ d :: rest)).2 =
      .error ((Failure.ofFault f).within ("converting " ++ d.name)) := by
  induction front with
  | nil => simp [lowerAll, h, Recovery.abort]
  | cons e front ih =>
    obtain ⟨first, others⟩ := List.forall_mem_cons.1 clean
    obtain ⟨definition, he⟩ := fault?_eq_none.1 first
    simp [lowerAll, he, ih others, Except.map]

theorem exists_first_fault {ds : List Value} (faulty : ¬ ∀ d ∈ ds, d.fault? table = none) :
    ∃ front d rest f, ds = front ++ d :: rest ∧ (∀ e ∈ front, e.fault? table = none) ∧
      d.lower table = .error f := by
  simp only [fault?_eq_none] at faulty ⊢
  exact exists_first_error faulty

end Surface.Value

namespace Run

open Surface (Module Value)

theorem values_recover (table : Table) (ds : List Value) :
    values true table ds =
      (ds.filterMap fun d => (d.fault? table).map (d.name, ·),
        .ok (ds.flatMap (·.contribution table))) := by
  rw [values, if_pos rfl, Value.lowerAll_keepGoing, List.nil_append]

theorem values_abort (table : Table) (ds : List Value) :
    values false table ds = ([], (Value.lowerAll table .abort () ds).2) :=
  rfl

theorem values_eq_ok {recover : Bool} {table : Table} {ds : List Value}
    {sentences : List Sentence} (h : (values recover table ds).2 = .ok sentences) :
    sentences = ds.flatMap (·.contribution table) := by
  cases recover with
  | true =>
    rw [values_recover] at h
    exact (Except.ok.inj h).symm
  | false =>
    rw [values_abort] at h
    by_cases clean : ∀ d ∈ ds, d.fault? table = none
    · rw [Value.lowerAll_abort_ok clean] at h
      exact (Except.ok.inj h).symm
    · -- the first fault would have stopped the run
      obtain ⟨front, d, rest, f, rfl, before, failed⟩ := Value.exists_first_fault clean
      rw [Value.lowerAll_abort_error before failed] at h
      cases h

theorem reportOf_replaced (table : Table) (ds : List Value) :
    reportOf (ds.filterMap fun d => (d.fault? table).map (d.name, ·)) =
      ds.filterMap (·.warning? table) := by
  rw [reportOf, List.map_filterMap]
  simp only [Value.warning?, Option.map_map]
  rfl

theorem values_nil (recover : Bool) (table : Table) : values recover table [] = ([], .ok []) := by
  cases recover <;> rfl

/-- A run differs from that of the types alone in the sentences and the report of the values. -/
theorem ofModule_after_types {m : Module} {options : Options} {table : Table} {log : List Event}
    {front : Outcome} (typed : ofModule m.types options = { table, log, result := .ok front })
    (recover : Bool) :
    (ofModule m { options with recover }).result =
      (values recover table m.values).2.map fun others =>
        { sentences := front.sentences ++ others
          report := reportOf (values recover table m.values).1 } := by
  have succeeded : (ofModule m.types options).result = .ok front := by rw [typed]
  obtain ⟨types, ds, log, sentences, replaced, others, collected, emitted, converted, written⟩ :=
    parts_of_ofModule succeeded
  rw [typed] at collected converted
  obtain ⟨rfl, whole⟩ := collect_types collected
  rw [values_nil] at converted
  cases converted
  rw [List.append_nil] at written
  rw [written]
  exact (ofModule_of_parts { options with recover } whole emitted).2

/-- With recovery a run succeeds once the types are converted: every value is converted as if it
were alone, and those with a fault are each replaced by a comment and an assumption and reported by
one warning. Without recovery it stops at the first of these, and else ends with the same
sentences. -/
theorem ofModule_recover (m : Module) (options : Options) (table : Table) (log : List Event)
    (front : Outcome) (typed : ofModule m.types options = { table, log, result := .ok front }) :
    (ofModule m { options with recover := true }).result = .ok
      { sentences := front.sentences ++ m.values.flatMap (·.contribution table)
        report := m.values.filterMap (·.warning? table) } ∧
    (∀ d ∈ m.values,
      (d.contribution table).flatMap Sentence.declared = [table.valueName d.name] ∧
      (∀ definition, d.lower table = .ok definition →
        d.contribution table = [.define definition] ∧ d.warning? table = none) ∧
      ∀ f, d.lower table = .error f →
        d.contribution table =
          [.comment ("Translating `" ++ d.name ++ "' failed: " ++ f.message),
            .assume (table.valueName d.name) (.pi [.mk "a" (some .typeSort) true] (.var "a"))] ∧
        d.warning? table = some
          { severity := .warning
            message := f.kind.name ++ ": " ++ f.description
            position := f.position
            subject := d.name
            hint := "translated as an axiom" }) ∧
    (∀ e ∈ m.values.filterMap (·.warning? table), e.severity = .warning) ∧
    Report.warnings (m.values.filterMap (·.warning? table)) =
      m.values.countP (fun d => (d.fault? table).isSome) ∧
    (∀ outcome, (ofModule m { options with recover := false }).result = .ok outcome ↔
      (∀ d ∈ m.values, d.fault? table = none) ∧
        outcome =
          { sentences := front.sentences ++ m.values.flatMap (·.contribution table)
            report := [] }) ∧
    ∀ before d after f, m.values = before ++ d :: after →
      (∀ e ∈ before, e.fault? table = none) → d.lower table = .error f →
        (ofModule m { options with recover := false }).result =
          .error ((Failure.ofFault f).within ("converting " ++ d.name)) := by
  have stopped : ∀ before d after f, m.values = before ++ d :: after →
      (∀ e ∈ before, e.fault? table = none) → d.lower table = .error f →
        (ofModule m { options with recover := false }).result =
          .error ((Failure.ofFault f).within ("converting " ++ d.name)) := by
    intro before d after f place clean failed
    rw [ofModule_after_types typed, values_abort, place, Value.lowerAll_abort_error clean failed]
    rfl
  have completed : (∀ d ∈ m.values, d.fault? table = none) →
      (ofModule m { options with recover := false }).result = .ok
        { sentences := front.sentences ++ m.values.flatMap (·.contribution table)
          report := [] } := by
    intro clean
    rw [ofModule_after_types typed, values_abort, Value.lowerAll_abort_ok clean]
    rfl
  refine ⟨?_, fun d _ => ⟨d.declared_contribution, fun definition h => ?_, fun f h => ?_⟩,
    fun e => Value.severity_of_mem_warnings, Value.warnings_eq m.values,
    fun outcome => ⟨fun h => ?_, ?_⟩, stopped⟩
  · rw [ofModule_after_types typed, values_recover, reportOf_replaced]
    rfl
  · exact ⟨Value.contribution_of_ok h, Value.warning?_of_ok h⟩
  · exact ⟨Value.contribution_of_error h, Value.warning?_of_error h⟩
  · by_cases clean : ∀ d ∈ m.values, d.fault? table = none
    · exact ⟨clean, Except.ok.inj (h.symm.trans (completed clean))⟩
    · obtain ⟨before, d, after, f, place, before_clean, failed⟩ := Value.exists_first_fault clean
      rw [stopped before d after f place before_clean failed] at h
      cases h
  · rintro ⟨clean, rfl⟩
    exact completed clean

/-- A module with a value in front of the type it uses, and one with a fault in between. -/
def lampModule : Module :=
  { name := "Lamp"
    declarations :=
      [.value ⟨.mk {} "dark" [.mk {} [] (.mk [.mk {} [] (.var {} "Off")] .none)], none⟩,
        .value
          ⟨.mk {} "less" [.mk {} [] (.mk [.mk {} [] (.unsupported ⟨3, 8⟩ .negation)] .none)], none⟩,
        .data ⟨"Lamp", [], none,
          [⟨{}, "On", [], [], .ordinary, []⟩, ⟨{}, "Off", [], [], .ordinary, []⟩]⟩,
        .value ⟨.mk {} "bright" [.mk {} [] (.mk [.mk {} [] (.var {} "On")] .none)], none⟩] }

theorem lampModule_recover :
    ∃ table log front,
      ofModule lampModule.types ⟨false, true, .initial⟩ = { table, log, result := .ok front } ∧
      ∃ outcome, (ofModule lampModule ⟨true, true, .initial⟩).result = .ok outcome ∧
        outcome.sentences.flatMap Sentence.declared =
          ["Lamp", "Mk_On", "Mk_Off", "dark", "less", "bright"] ∧
        outcome.sentences[2]? =
          some (.comment "Translating `less' failed: unsupported (line 3, col 8): negation") ∧
        outcome.report =
          [{ severity := .warning
             message := "unsupported: negation"
             position := ⟨3, 8⟩
             subject := "less"
             hint := "translated as an axiom" }] ∧
        outcome.report.warnings = 1 ∧
        (ofModule lampModule ⟨false, true, .initial⟩).result =
          .error ((Failure.ofFault { Fault.unsupported "negation" with position := ⟨3, 8⟩ }).within
            "converting less") := by
  refine ⟨_, _, _, rfl, ?_⟩
  obtain ⟨recovered, -, -, counted, -, stopped⟩ :=
    ofModule_recover lampModule ⟨false, true, .initial⟩ _ _ _ rfl
  refine ⟨_, recovered, rfl, rfl, rfl, counted, stopped [_] _ _ _ rfl ?_ rfl⟩
  intro e he
  rw [List.mem_singleton.1 he]
  rfl

end Run

end Vernacular
