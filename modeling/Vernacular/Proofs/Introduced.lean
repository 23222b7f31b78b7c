import Vernacular.Proofs.BoundNames
import Vernacular.Proofs.Conversion
import Vernacular.Proofs.Recovery
import Vernacular.Proofs.Reserved

set_option autoImplicit false

namespace Vernacular

open Identifier (isReserved)

/-- A name is no reserved word, unless it is that of the universe and one of the universe's source
names is among `vars`. -/
def Table.Permits (t : Table) (vars : String → Prop) (x : String) : Prop :=
  isReserved x → x = "Type" ∧ ∃ z ∈ Table.universeNames, vars z ∧ t.typeName z = "Type"

section Permits

variable {t : Table} {uniform : Prop} {vars : String → Prop}

theorem Table.permits_of_not_isReserved {x : String} (h : ¬ isReserved x) : t.Permits vars x :=
  fun reserved => absurd reserved h

theorem Table.Permits.congr {u : Table} (same : ∀ x, u.typeName x = t.typeName x) {x : String}
    (h : u.Permits vars x) : t.Permits vars x := by
  intro reserved
  obtain ⟨name, z, listed, bound, target⟩ := h reserved
  exact ⟨name, z, listed, bound, (same z).symm.trans target⟩

theorem Table.Guarded.permits_valueName (h : t.Guarded) (x : String) :
    t.Permits vars (t.valueName x) :=
  permits_of_not_isReserved (h.not_isReserved_valueName x)

theorem Table.Guarded.permits_typeName (h : t.Guarded) {x : String} (bound : vars x) :
    t.Permits vars (t.typeName x) := by
  intro reserved
  obtain ⟨-, listed, target⟩ := h .type x reserved
  exact ⟨target, x, listed, bound, target⟩

/-- The universe's word does not look like a variable, so generalization never binds it. -/
theorem Table.Guarded.permits_quantified (h : t.Guarded) {y : String}
    (quantified : Term.QuantifiedName t vars y) : t.Permits vars y := by
  obtain ⟨x, rfl, bound | looks⟩ := quantified
  · exact h.permits_typeName bound
  · intro reserved
    obtain ⟨-, -, target⟩ := h .type x reserved
    change t.typeName x = "Type" at target
    rw [target] at looks
    exact absurd looks (by decide)

mutual

theorem Pattern.Node.permits (h : t.Guarded) :
    ∀ {p : Pattern}, p.Node t → ∀ x ∈ p.bound, t.Permits vars x
  | .wild, _ => nofun
  | .var _, node => by
    cases node with
    | var => exact List.forall_mem_singleton.2 (h.permits_valueName _)
  | .named p _, node => by
    cases node with
    | named inner =>
      exact List.forall_mem_append.2
        ⟨inner.permits h, List.forall_mem_singleton.2 (h.permits_valueName _)⟩
  | .con _ ps, node => by
    cases node with
    | con args => exact Pattern.Node.permitsAll h args
  | .num _, _ => nofun
  | .str _, _ => nofun

theorem Pattern.Node.permitsAll (h : t.Guarded) :
    ∀ {ps : List Pattern}, (∀ p ∈ ps, p.Node t) → ∀ x ∈ Pattern.boundAll ps, t.Permits vars x
  | [], _ => nofun
  | _ :: _, nodes => by
    obtain ⟨first, rest⟩ := List.forall_mem_cons.1 nodes
    exact List.forall_mem_append.2 ⟨first.permits h, Pattern.Node.permitsAll h rest⟩

end

theorem forall_plain {args : List String} {P : String → Prop} :
    (∀ x ∈ (args.map Binder.plain).map Binder.name, P x) ↔ ∀ a ∈ args, P a := by
  simp only [List.forall_mem_map]
  rfl

theorem Term.Node.bindsOnly (h : t.Guarded) {s : Term} (node : s.Node t uniform vars) :
    s.BindsOnly (t.Permits vars) := by
  have low : ∀ {args : List String}, (∀ a ∈ args, Identifier.EndsLow a) →
      ∀ x ∈ (args.map Binder.plain).map Binder.name, t.Permits vars x := fun fresh =>
    forall_plain.2 fun a ha => Table.permits_of_not_isReserved (fresh a ha).not_isReserved
  cases node with
  | lam _ fresh => exact low fresh
  | fix _ fresh => exact List.forall_mem_cons.2 ⟨h.permits_valueName _, low fresh⟩
  | caseOf _ patterns _ =>
    rw [BindsOnly, binds, List.forall_mem_flatMap]
    exact fun a ha => Pattern.Node.permitsAll h (patterns _ (List.mem_map_of_mem ha))
  | pi _ names => exact fun x hx => h.permits_quantified (names x hx)
  | letIn names =>
    exact List.forall_mem_cons.2
      ⟨h.permits_valueName _, fun x hx => h.permits_quantified (names x hx)⟩
  | var | str | hole | num | parens | arrow | ascribed | ite | app => exact List.forall_mem_nil _

theorem Term.Made.bindsOnly (h : t.Guarded) {s : Term} (made : s.Made t uniform vars) :
    s.Every (BindsOnly (t.Permits vars)) :=
  Every.imp made fun _ => Node.bindsOnly h

theorem Definition.Made.permits (h : t.Guarded) {d : Definition} (made : d.Made t uniform vars) :
    ∀ x ∈ d.boundNames, t.Permits vars x := by
  obtain ⟨x, name⟩ := made.name
  refine Definition.forall_boundNames.2 ⟨name ▸ h.permits_valueName x, ⟨?_, ?_⟩, ?_⟩
  · exact Binder.forall_boundNames.2 ⟨fun x hx => h.permits_quantified (made.binders x hx),
      fun b hb u hu => (made.kinds b hb u hu).bindsOnly h⟩
  · exact fun u hu => (made.type u hu).bindsOnly h
  · exact made.body.bindsOnly h

end Permits

namespace Surface

def DataConstructor.typeBinders (c : DataConstructor) : List String :=
  TyVar.names c.vars ++ Ty.quantifiedNamesAll c.fields

def DataType.typeBinders (d : DataType) : List String :=
  d.name :: (TyVar.names d.params ++ d.kind.toList.flatMap Ty.quantifiedNames ++
    d.constructors.flatMap DataConstructor.typeBinders)

def TypeSynonym.typeBinders (d : TypeSynonym) : List String :=
  d.name :: (TyVar.names d.params ++ d.body.quantifiedNames)

def Fragment.typeBinders : Fragment → List String
  | .function _ => []
  | .type ty => ty.quantifiedNames

/-- The type variables quantified in the signatures and annotations of a value. -/
def Value.typeBinders (d : Value) : List String :=
  d.signature.toList.flatMap Ty.quantifiedNames ++ d.binding.fragments.flatMap Fragment.typeBinders

def Declaration.typeBinders : Declaration → List String
  | .data d => d.typeBinders
  | .synonym d => d.typeBinders
  | .value d => d.typeBinders
  | .foreign _ => []

def Module.typeBinders (m : Module) : List String :=
  m.declarations.flatMap Declaration.typeBinders

section Permits

variable {t : Table} {vars : String → Prop}

theorem permits_binders (h : t.Guarded) {bs : List Binder}
    (made : ∀ b ∈ bs, MadeBinder t False vars b) :
    ∀ x ∈ Binder.boundNames bs, t.Permits vars x := by
  refine Binder.forall_boundNames.2 ⟨List.forall_mem_map.2 fun b hb => ?_, fun b hb u hu => ?_⟩
  · obtain ⟨x, bound, name⟩ := (made b hb).name
    exact name ▸ h.permits_typeName bound
  · exact ((made b hb).kind u hu).made.bindsOnly h

theorem madeBinder_hidden {b : Binder} (h : MadeBinder t False vars b) :
    MadeBinder t False vars b.hidden where
  name := name_hidden b ▸ h.name
  kind := type_hidden b ▸ h.kind

theorem DataConstructor.permits_lower (h : t.Guarded) {c : DataConstructor} {result : Term}
    {k : Constructor} (bound : ∀ z ∈ c.typeBinders, vars z) (made : result.Made t False vars)
    (converted : c.lower t result = .ok k) : ∀ x ∈ k.boundNames, t.Permits vars x := by
  obtain ⟨existential, quantified⟩ := List.forall_mem_append.1 bound
  obtain ⟨binders, fields, hvars, hfields, rfl⟩ := lower_parts converted
  have kinds : ∀ b ∈ binders, MadeBinder t False vars b :=
    TyVar.made_lowerAll c.vars existential hvars
  have types : ∀ u ∈ fields, MadeType t False vars u :=
    Ty.made_lowerAll c.fields quantified hfields
  refine List.forall_mem_cons.2 ⟨h.permits_valueName _, List.forall_mem_append.2 ⟨?_, ?_⟩⟩
  · exact permits_binders h (List.forall_mem_map.2 fun b hb => madeBinder_hidden (kinds b hb))
  · refine Term.forall_boundNames.2 (Term.every_arrows (fun _ _ => nofun) ?_ (made.bindsOnly h))
    exact fun u hu => (types u hu).made.bindsOnly h

theorem DataType.permits_lower (h : t.Guarded) {d : DataType} {body : InductiveBody}
    (bound : ∀ z ∈ d.typeBinders, vars z) (converted : d.lower t = .ok body) :
    ∀ x ∈ body.boundNames, t.Permits vars x := by
  obtain ⟨name, inner⟩ := List.forall_mem_cons.1 bound
  obtain ⟨front, constructors⟩ := List.forall_mem_append.1 inner
  obtain ⟨params, quantified⟩ := List.forall_mem_append.1 front
  obtain ⟨target, hparams, hkind, each⟩ := lower_parts converted
  have binders : ∀ b ∈ body.params, MadeBinder t False vars b :=
    TyVar.made_lowerAll d.params params hparams
  have kind : body.type.Every (Term.BindsOnly (t.Permits vars)) := by
    unfold lowerKind at hkind
    split at hkind
    · rw [← Except.ok.inj hkind]
      exact Term.every_leaf rfl nofun
    · rename_i ty given
      have made : MadeType t False vars body.type :=
        Ty.made_lower ty (fun x hx => quantified x (by simpa [given] using hx)) hkind
      exact made.made.bindsOnly h
  have result : ((Term.var body.name).apply (body.params.map fun p => .var p.name)).Made t False
      vars :=
    .apply (Term.made_var _) (List.forall_mem_map.2 fun p _ => Term.made_var _)
  rw [List.forall_mem_flatMap] at constructors
  rw [InductiveBody.boundNames, List.forall_mem_cons, List.forall_mem_append,
    List.forall_mem_append, List.forall_mem_flatMap]
  refine ⟨target ▸ h.permits_typeName name,
    ⟨permits_binders h binders, Term.forall_boundNames.2 kind⟩, fun k hk => ?_⟩
  obtain ⟨c, hc, one⟩ := exists_of_mem_mapM each hk
  exact DataConstructor.permits_lower h (constructors c hc) result one

theorem TypeSynonym.permits_lower (h : t.Guarded) {d : TypeSynonym} {s : Synonym}
    (bound : ∀ z ∈ d.typeBinders, vars z) (converted : d.lower t = .ok s) :
    ∀ x ∈ s.definition.boundNames, t.Permits vars x := by
  obtain ⟨name, inner⟩ := List.forall_mem_cons.1 bound
  obtain ⟨params, quantified⟩ := List.forall_mem_append.1 inner
  simp only [TypeSynonym.lower, bind_eq_ok, pure_eq_ok] at converted
  obtain ⟨binders, hparams, body, hbody, rfl⟩ := converted
  have kinds : ∀ b ∈ binders, MadeBinder t False vars b :=
    TyVar.made_lowerAll d.params params hparams
  have type : MadeType t False vars body := Ty.made_lower d.body quantified hbody
  refine Definition.forall_boundNames.2
    ⟨h.permits_typeName name, ⟨permits_binders h kinds, ?_⟩, type.made.bindsOnly h⟩
  intro u hu
  cases hu

theorem Value.permits_contribution (h : t.Guarded) {d : Value}
    (bound : ∀ z ∈ d.typeBinders, vars z) :
    ∀ s ∈ d.contribution t, ∀ x ∈ s.boundNames, t.Permits vars x := by
  obtain ⟨signed, inner⟩ := List.forall_mem_append.1 bound
  rw [List.forall_mem_flatMap] at signed inner
  unfold contribution
  split
  · rename_i definition converted
    have admitted : ∀ p ∈ d.binding.fragments, p.Admitted False vars := by
      intro p hp
      cases p with
      | function qs => exact False.elim -- bound names do not depend on arities
      | type ty => exact inner _ hp
    have made : definition.Made t False vars :=
      Binding.made_lower d.binding (fun ty given => signed ty (by simpa using given)) admitted
        converted
    exact List.forall_mem_singleton.2 (made.permits h)
  · refine List.forall_mem_cons.2 ⟨nofun, List.forall_mem_singleton.2 ?_⟩
    refine List.forall_mem_cons.2 ⟨h.permits_valueName _, ?_⟩
    have only : (Term.pi [.mk "a" (some .typeSort) true] (.var "a")).boundNames = ["a"] := rfl
    rw [only]
    exact List.forall_mem_singleton.2 (Table.permits_of_not_isReserved (by decide))

end Permits

end Surface

namespace Run

open Surface (Module Value)

section Parts

variable {vars : String → Prop} {t final : Table}

/-- Constructors are registered as the types are met, which leaves the targets of types alone. -/
theorem collect_permits (h : t.Guarded) {ds : List Surface.Declaration} {types : List Declaration}
    {rest : List Value} (bound : ∀ z ∈ ds.flatMap Surface.Declaration.typeBinders, vars z)
    (collected : collect t ds = (final, .ok (types, rest))) :
    final.Guarded ∧ (∀ x, final.typeName x = t.typeName x) ∧
      (∀ d ∈ types, ∀ x ∈ d.boundNames, t.Permits vars x) ∧
        ∀ d ∈ rest, ∀ z ∈ d.typeBinders, vars z := by
  induction ds generalizing t types rest with
  | nil =>
    cases collected
    exact ⟨h, fun _ => rfl, nofun, nofun⟩
  | cons d ds ih =>
    obtain ⟨here, later⟩ := List.forall_mem_append.1 bound
    obtain ⟨next, others, values, onward, part⟩ := collect_cons collected
    rcases part with ⟨e, body, rfl, rfl, converted, rfl, rfl⟩ |
      ⟨e, body, rfl, rfl, converted, rfl, rfl⟩ | ⟨e, rfl, rfl, rfl, rfl⟩
    · -- the type is converted, like all later ones, over the table with its constructors
      obtain ⟨guarded, same, declared, kept⟩ := ih (h.register e) later onward
      have registered := Table.typeName_register t e
      refine ⟨guarded, fun x => (same x).trans (registered x), ?_, kept⟩
      refine List.forall_mem_cons.2 ⟨fun x hx => ?_, fun d hd x hx => ?_⟩
      · exact (Surface.DataType.permits_lower (h.register e) here converted x hx).congr registered
      · exact (declared d hd x hx).congr registered
    · obtain ⟨guarded, same, declared, kept⟩ := ih h later onward
      refine ⟨guarded, same, List.forall_mem_cons.2 ⟨?_, declared⟩, kept⟩
      exact Surface.TypeSynonym.permits_lower h here converted
    · obtain ⟨guarded, same, declared, kept⟩ := ih h later onward
      exact ⟨guarded, same, declared, List.forall_mem_cons.2 ⟨here, kept⟩⟩

theorem permits_emit {types : List Declaration} {log : List Event} {sentences : List Sentence}
    (declared : ∀ d ∈ types, ∀ x ∈ d.boundNames, t.Permits vars x)
    (emitted : emit (Group.ofDeclarations types) = (log, .ok sentences)) :
    ∀ s ∈ sentences, ∀ x ∈ s.boundNames, t.Permits vars x := by
  intro s hs
  obtain ⟨g, hg, piece, written, hs⟩ := exists_group_of_emit emitted hs
  have all := Group.forall_sentences written
    (fun d hd => declared d (Group.mem_of_mem_members hg hd))
    (fun x low => Table.permits_of_not_isReserved low.not_isReserved)
    fun x => Table.permits_of_not_isReserved (not_isReserved_placeholder x)
  exact fun x hx => all x (List.mem_flatMap.2 ⟨s, hs, hx⟩)

theorem permits_opening (options : Options) (types : List Declaration) :
    ∀ s ∈ opening options types, ∀ x ∈ s.boundNames, t.Permits vars x := by
  have names : ∀ s ∈ preamble, ∀ x ∈ s.boundNames, ¬ isReserved x := by decide
  unfold opening
  split
  · exact fun s hs x hx => Table.permits_of_not_isReserved (names s hs x hx)
  · exact nofun

theorem permits_ofModule {m : Module} (options : Options) {outcome : Outcome}
    (h : options.table.Guarded) (succeeded : (ofModule m options).result = .ok outcome) :
    ∀ s ∈ outcome.sentences, ∀ x ∈ s.boundNames,
      options.table.Permits (· ∈ m.typeBinders) x := by
  obtain ⟨types, ds, log, sentences, replaced, others, collected, emitted, converted, written⟩ :=
    parts_of_ofModule succeeded
  obtain ⟨guarded, same, declared, bound⟩ := collect_permits h (fun z hz => hz) collected
  have values : others = ds.flatMap (·.contribution (ofModule m options).table) :=
    values_eq_ok (congrArg Prod.snd converted)
  rw [written, List.forall_mem_append, List.forall_mem_append, values, List.forall_mem_flatMap]
  refine ⟨⟨permits_opening options types, permits_emit declared emitted⟩, ?_⟩
  intro d hd s hs x hx
  exact (Value.permits_contribution guarded (bound d hd) s hs x hx).congr same

end Parts

def emptyType (x : String) : Module :=
  { name := "Empty", declarations := [.data ⟨x, [], none, []⟩] }

theorem ofModule_emptyType {table : Table} {x : String} (target : table.typeName x = "Type") :
    (ofModule (emptyType x) ⟨false, true, table⟩).result = .ok
      ⟨[.block [⟨"Type", [], .typeSort, []⟩] []], []⟩ := by
  have converted : (⟨x, [], none, []⟩ : Surface.DataType).lower table =
      .ok ⟨"Type", [], .typeSort, []⟩ := by
    rw [← target]
    rfl
  have collected : collect table (emptyType x).declarations =
      (table, .ok ([.data ⟨"Type", [], .typeSort, []⟩], [])) := by
    simp only [emptyType, collect, Surface.DataType.register, List.foldl_nil, converted]
    rfl
  rw [(ofModule_of_parts ⟨false, true, table⟩ collected rfl).2]
  rfl

/-- A run over the table of checked settings introduces at most one reserved word, the one of the
universe, and only in a module that binds a source name of the universe which the settings do not
rename. There are such runs for all settings that leave one of these names alone. -/
theorem reserved_boundNames (check : String → Except SettingsError Unit) (c : Settings)
    (valid : c.validateWith check = .ok ()) :
    ∃ table, c.table = .ok table ∧
      (∀ (m : Module) (recover preamble : Bool) (outcome : Outcome),
        (ofModule m ⟨recover, preamble, table⟩).result = .ok outcome →
          ∀ s ∈ outcome.sentences, ∀ x ∈ s.boundNames, isReserved x →
            x = "Type" ∧ ∃ z ∈ Table.universeNames, z ∈ m.typeBinders ∧ c.KeepsType z) ∧
      ((∃ (m : Module) (recover preamble : Bool) (outcome : Outcome),
        (ofModule m ⟨recover, preamble, table⟩).result = .ok outcome ∧
          ∃ s ∈ outcome.sentences, ∃ x ∈ s.boundNames, isReserved x) ↔
        ∃ z ∈ Table.universeNames, c.KeepsType z) := by
  obtain ⟨table, made, guarded, kept⟩ := Settings.table_of_validateWith valid
  have only : ∀ (m : Module) (recover preamble : Bool) (outcome : Outcome),
      (ofModule m ⟨recover, preamble, table⟩).result = .ok outcome →
        ∀ s ∈ outcome.sentences, ∀ x ∈ s.boundNames, isReserved x →
          x = "Type" ∧ ∃ z ∈ Table.universeNames, z ∈ m.typeBinders ∧ c.KeepsType z := by
    intro m recover preamble outcome succeeded s hs x hx reserved
    obtain ⟨name, z, listed, bound, target⟩ :=
      permits_ofModule ⟨recover, preamble, table⟩ guarded succeeded s hs x hx reserved
    exact ⟨name, z, listed, bound, (kept z listed).1 target⟩
  refine ⟨table, made, only, ?_, ?_⟩
  · rintro ⟨m, recover, preamble, outcome, succeeded, s, hs, x, hx, reserved⟩
    obtain ⟨-, z, listed, -, keeps⟩ := only m recover preamble outcome succeeded s hs x hx reserved
    exact ⟨z, listed, keeps⟩
  · rintro ⟨z, listed, keeps⟩
    refine ⟨emptyType z, false, true, _, ofModule_emptyType ((kept z listed).2 keeps), ?_⟩
    exact ⟨_, List.mem_singleton_self _, "Type", List.mem_cons_self .., by decide⟩

def renamedUniverse : Settings :=
  { targetVersion := "8.10", renames := [⟨"type", "*", "Kind"⟩, ⟨"type", "Type", "Kind"⟩] }

theorem renamedUniverse_unreserved :
    renamedUniverse.validate = .ok () ∧
      ∃ table, renamedUniverse.table = .ok table ∧
        (∃ outcome, (ofModule (emptyType "Type") ⟨false, true, table⟩).result = .ok outcome ∧
          outcome.sentences.flatMap Sentence.boundNames = ["Kind"]) ∧
        ∀ (m : Module) (recover preamble : Bool) (outcome : Outcome),
          (ofModule m ⟨recover, preamble, table⟩).result = .ok outcome →
            ∀ s ∈ outcome.sentences, ∀ x ∈ s.boundNames, ¬ isReserved x := by
  have valid : renamedUniverse.validate = .ok () := by rfl
  have renamed : ∀ z ∈ Table.universeNames, ¬ renamedUniverse.KeepsType z := by
    unfold Settings.KeepsType
    decide
  obtain ⟨table, made, -, introduced⟩ :=
    reserved_boundNames Settings.checkRelease renamedUniverse valid
  refine ⟨valid, table, made, ?_, ?_⟩
  · cases made
    exact ⟨_, rfl, rfl⟩
  · intro m recover preamble outcome succeeded s hs x hx reserved
    obtain ⟨z, listed, keeps⟩ :=
      introduced.1 ⟨m, recover, preamble, outcome, succeeded, s, hs, x, hx, reserved⟩
    exact renamed z listed keeps

/-- The default settings let a data type be named by the universe's word. -/
theorem emptyType_introduces_reserved :
    Settings.default.validate = .ok () ∧
      ∃ table outcome, Settings.default.table = .ok table ∧
        (ofModule (emptyType "Type") ⟨false, true, table⟩).result = .ok outcome ∧
        Sentence.render outcome.sentences = "Inductive Type : Type :=." ∧
        outcome.sentences.flatMap Sentence.boundNames = ["Type"] ∧ isReserved "Type" :=
  ⟨by rfl, _, _, rfl, rfl, by rfl, rfl, rfl⟩

end Run

end Vernacular
