import Mathlib.Data.List.DropRight
import Mathlib.Data.Set.Function
import Vernacular.Proofs.Additions
import Vernacular.Proofs.Knot
import Vernacular.Proofs.Nodes
import Vernacular.Proofs.Registration

/-!
Reserved words among target names. Escaping reaches exactly the other words, each from one
identifier, invented names are none, and additions to a table are checked for them. What remains is
the universe of types, whose source names are written as the reserved word that stands for it.
-/

set_option autoImplicit false

namespace Vernacular

namespace Identifier

theorem mem_reserved {x : String} : isReserved x = true ↔ x ∈ reserved :=
  List.contains_iff_mem

theorem getLast_reserved {x : String} (h : isReserved x) :
    x.toList.getLast? ≠ some '_' ∧ x.toList.getLast? ≠ some 'w' := by
  have words : ∀ w ∈ reserved, w.toList.getLast? ≠ some '_' ∧ w.toList.getLast? ≠ some 'w' := by
    decide
  exact words x (mem_reserved.1 h)

theorem EndsLow.not_isReserved {x : String} (h : EndsLow x) : ¬ isReserved x := by
  obtain ⟨y, rfl⟩ := h
  exact fun reserved => (getLast_reserved reserved).1 (by simp)

theorem stem_of_not_endsLow {x : String} (h : ¬ EndsLow x) : stem x = x := by
  have kept : x.toList.rdropWhile (· = '_') = x.toList := by
    refine List.rdropWhile_eq_self_iff.2 fun nonempty last => ?_
    have whole := List.dropLast_append_getLast nonempty
    rw [of_decide_eq_true last] at whole
    exact h ⟨String.ofList x.toList.dropLast, by rw [← String.toList_inj]; simp [whole]⟩
  exact (congrArg String.ofList kept).trans String.ofList_toList

theorem not_isReserved_escape (x : String) : ¬ isReserved (escape x) := by
  unfold escape
  split
  · exact EndsLow.not_isReserved ⟨x, rfl⟩
  · rename_i unescaped
    intro h
    rw [stem_of_not_endsLow fun low => low.not_isReserved h] at unescaped
    exact unescaped h

theorem exists_escape_eq {y : String} (h : ¬ isReserved y) : ∃ x, escape x = y := by
  by_cases marked : isReserved (stem y)
  · -- taking one underscore off leaves the stem
    have low : EndsLow y := by
      by_contra plain
      rw [stem_of_not_endsLow plain] at marked
      exact h marked
    obtain ⟨x, rfl⟩ := low
    rw [stem_append_underscore] at marked
    exact ⟨x, if_pos marked⟩
  · exact ⟨y, if_neg marked⟩

/-- Escaping is a bijection from all identifiers to those that are not reserved. -/
theorem escape_bijOn : Set.BijOn escape Set.univ {y | ¬ isReserved y} := by
  refine ⟨fun x _ => not_isReserved_escape x, escape_injective.injOn, fun y free => ?_⟩
  obtain ⟨x, escaped⟩ := exists_escape_eq free
  exact ⟨x, Set.mem_univ x, escaped⟩

end Identifier

theorem not_isReserved_placeholder (x : String) : ¬ Identifier.isReserved (placeholder x) :=
  fun reserved => (Identifier.getLast_reserved reserved).2 (getLast_placeholder x)

namespace Table

open Identifier (isReserved)

theorem not_isReserved_constructorName (con : String) : ¬ isReserved (constructorName con) := by
  have words : ∀ w ∈ Identifier.reserved, w.toList.take 3 ≠ ['M', 'k', '_'] := by decide
  intro h
  exact words _ (Identifier.mem_reserved.1 h) (by simp [constructorName])

def universeNames : List String :=
  ["*", "Type"]

/-- The only reserved target is that of the universe of types. -/
def Guarded (t : Table) : Prop :=
  ∀ n x, isReserved (t.lookup n x) → n = .type ∧ x ∈ universeNames ∧ t.lookup n x = "Type"

theorem guarded_initial : initial.Guarded := by
  have targets : ∀ e ∈ builtins, isReserved e.2 →
      e.1.space = .type ∧ e.1.source ∈ universeNames ∧ e.2 = "Type" := by decide
  have records : initial.Records builtins := records_writeAll builtins
  intro n x
  by_cases written : ⟨x, n⟩ ∈ builtins.map Prod.fst
  · obtain ⟨target, last⟩ := exists_lastWritten written
    rw [records.lookup_last n x target last]
    exact targets _ last.mem
  · rw [records.lookup_unwritten n x written]
    exact fun h => absurd h (Identifier.not_isReserved_escape x)

section Guarded

variable {t : Table}

theorem Guarded.rename (h : t.Guarded) (space : Namespace) (source : String) {target : String}
    (free : ¬ isReserved target) : (t.rename space source target).Guarded := by
  intro n x
  rw [lookup_rename]
  split
  · exact fun reserved => absurd reserved free
  · exact h n x

theorem Guarded.writeAll (h : t.Guarded) {es : List (Slot × String)}
    (free : ∀ e ∈ es, ¬ isReserved e.2) : (t.writeAll es).Guarded := by
  induction es generalizing t with
  | nil => exact h
  | cons e es ih =>
    obtain ⟨first, others⟩ := List.forall_mem_cons.1 free
    exact ih (h.rename e.1.space e.1.source first) others

theorem Guarded.registerAll (h : t.Guarded) (cons : List String) : (t.registerAll cons).Guarded := by
  induction cons generalizing t with
  | nil => exact h
  | cons c cons ih => exact ih (h.rename .value c (not_isReserved_constructorName c))

theorem Guarded.register (h : t.Guarded) (d : Surface.DataType) : (d.register t).Guarded := by
  rw [d.register_eq]
  exact h.registerAll _

theorem Guarded.not_isReserved_valueName (h : t.Guarded) (x : String) :
    ¬ isReserved (t.valueName x) :=
  fun reserved => nomatch (h .value x reserved).1

theorem typeName_registerAll (t : Table) (cons : List String) (x : String) :
    (t.registerAll cons).typeName x = t.typeName x :=
  ((registered_registerAll cons t).types.lookup x).symm

theorem typeName_register (t : Table) (d : Surface.DataType) (x : String) :
    (d.register t).typeName x = t.typeName x := by
  rw [d.register_eq, typeName_registerAll]

end Guarded

end Table

namespace Settings

open Identifier (isReserved)

/-- No addition is about an identifier as a type. -/
def KeepsType (c : Settings) (x : String) : Prop :=
  ∀ r ∈ c.renames, Namespace.parse? r.space = some .type → r.source ≠ x

/-- Settings that pass the check have a table. It writes a reserved word only for the universe,
under those of its source names that the settings leave alone. -/
theorem table_of_validateWith {check : String → Except SettingsError Unit} {c : Settings}
    (valid : c.validateWith check = .ok ()) :
    ∃ table, c.table = .ok table ∧ table.Guarded ∧
      ∀ z ∈ Table.universeNames, table.typeName z = "Type" ↔ c.KeepsType z := by
  obtain ⟨-, sound, distinct⟩ := validateWith_iff.1 valid
  have free : ∀ e ∈ written c.renames, ¬ isReserved e.2 := by
    intro e he
    obtain ⟨r, hr, entry⟩ := List.mem_filterMap.1 he
    rw [← (RenameRule.write?_eq_some.1 entry).2.2]
    exact (sound r hr).free
  refine ⟨_, table_eq valid, Table.guarded_initial.writeAll free, fun z hz => ⟨?_, fun kept => ?_⟩⟩
  · rintro target r hr known rfl
    have renamed := lookup_written distinct hr known Table.initial
    refine (sound r hr).free ?_
    rw [← renamed, ← Table.typeName, target]
    decide
  · have initially : ∀ z ∈ Table.universeNames, Table.initial.typeName z = "Type" := by decide
    rw [← initially z hz, Table.typeName, lookup_unwritten kept, ← Table.typeName]

/-- Over the table of checked settings, with any constructors registered, the only reserved word
that an identifier is written as is that of the universe, and only for a source name of the
universe that the settings leave alone. -/
theorem reserved_lookup {check : String → Except SettingsError Unit} {c : Settings}
    (valid : c.validateWith check = .ok ()) :
    ∃ table, c.table = .ok table ∧ ∀ cons : List String,
      (∀ (space : Namespace) (x : String), isReserved ((table.registerAll cons).lookup space x) →
        space = .type ∧ (x = "*" ∨ x = "Type") ∧
          (table.registerAll cons).lookup space x = "Type") ∧
      ∀ x, x = "*" ∨ x = "Type" →
        ((table.registerAll cons).lookup .type x = "Type" ↔ c.KeepsType x) := by
  obtain ⟨table, made, guarded, kept⟩ := table_of_validateWith valid
  refine ⟨table, made, fun cons => ⟨fun space x reserved => ?_, fun x hx => ?_⟩⟩
  · obtain ⟨type, listed, target⟩ := guarded.registerAll cons space x reserved
    exact ⟨type, by simpa [Table.universeNames] using listed, target⟩
  · rw [← Table.typeName, Table.typeName_registerAll]
    exact kept x (by simpa [Table.universeNames] using hx)

def starRenamed : Settings :=
  { targetVersion := "8.10", renames := [⟨"type", "*", "Kind"⟩, ⟨"expr", "Type", "type_of"⟩] }

theorem starRenamed_lookup :
    starRenamed.validate = .ok () ∧
      ∃ table, starRenamed.table = .ok table ∧
        (table.registerAll ["Type", "match"]).lookup .type "Type" = "Type" ∧
        ∀ (space : Namespace) (x : String),
          isReserved ((table.registerAll ["Type", "match"]).lookup space x) →
            space = .type ∧ x = "Type" := by
  have valid : starRenamed.validate = .ok () := by rfl
  have keeps : starRenamed.KeepsType "Type" ∧ ¬ starRenamed.KeepsType "*" := by
    unfold KeepsType
    decide
  obtain ⟨table, made, lookups⟩ := reserved_lookup valid
  obtain ⟨only, remains⟩ := lookups ["Type", "match"]
  refine ⟨valid, table, made, (remains "Type" (.inr rfl)).2 keeps.1, fun space x reserved => ?_⟩
  obtain ⟨rfl, rfl | rfl, target⟩ := only space x reserved
  · exact absurd ((remains "*" (.inl rfl)).1 target) keeps.2
  · exact ⟨rfl, rfl⟩

end Settings

end Vernacular
