import Vernacular.Proofs.TableHistory
import Vernacular.Settings.Basic

set_option autoImplicit false

namespace Vernacular

theorem Slot.label_injective {a b : Slot} (h : a.label = b.label) : a = b := by
  obtain ⟨x, m⟩ := a
  obtain ⟨y, n⟩ := b
  -- the full names of the namespaces differ in their first letters
  have first : (label ⟨x, m⟩).toList.head? = (label ⟨y, n⟩).toList.head? := by rw [h]
  obtain rfl : m = n := by
    revert first
    cases m <;> cases n <;> simp [label, Namespace.name]
  obtain rfl : x = y := (String.append_right_inj _).1 h
  rfl

namespace RenameRule

def write? (r : RenameRule) : Option (Slot × String) :=
  (Namespace.parse? r.space).map fun space => (⟨r.source, space⟩, r.target)

theorem write?_eq_some {r : RenameRule} {e : Slot × String} :
    r.write? = some e ↔
      Namespace.parse? r.space = some e.1.space ∧ r.source = e.1.source ∧ r.target = e.2 := by
  obtain ⟨⟨source, space⟩, target⟩ := e
  cases known : Namespace.parse? r.space with
  | none => simp [write?, known]
  | some n => simp [write?, known, and_left_comm, and_assoc]

structure Sound (r : RenameRule) : Prop where
  known : r.write?.isSome
  source : ¬ Text.isBlankText r.source
  target : ¬ Text.isBlankText r.target
  free : ¬ Identifier.isReserved r.target

end RenameRule

namespace Settings

def written (rules : List RenameRule) : List (Slot × String) :=
  rules.filterMap RenameRule.write?

section Rules

variable {r : RenameRule} {rules : List RenameRule} {seen : List (String × Nat)} {index : Nat}

theorem written_cons {e : Slot × String} (h : r.write? = some e) :
    written (r :: rules) = e :: written rules :=
  List.filterMap_cons_some h

theorem lookup_seen {label : String} : seen.lookup label = none ↔ label ∉ seen.map Prod.fst := by
  rw [List.lookup_eq_none_iff]
  constructor
  · intro h listed
    obtain ⟨p, hp, same⟩ := List.mem_map.1 listed
    exact bne_iff_ne.1 (h p hp) same.symm
  · intro h p hp
    exact bne_iff_ne.2 fun same => h (same ▸ List.mem_map_of_mem hp)

theorem checkRenames_cons :
    checkRenames seen index (r :: rules) = .ok () ↔
      r.Sound ∧ ∃ e, r.write? = some e ∧ e.1.label ∉ seen.map Prod.fst ∧
        checkRenames ((e.1.label, index) :: seen) (index + 1) rules = .ok () := by
  constructor
  · intro h
    unfold checkRenames at h
    split at h
    · cases h
    · rename_i space known
      have entry : r.write? = some (⟨r.source, space⟩, r.target) := by
        rw [RenameRule.write?, known, Option.map_some]
      split at h
      · cases h
      · rename_i shown
        split at h
        · cases h
        · rename_i free
          split at h
          · cases h
          · rename_i unseen
            rw [Bool.or_eq_true, not_or] at shown
            exact ⟨⟨by rw [entry, Option.isSome_some], shown.1, shown.2, free⟩, _, entry,
              lookup_seen.1 unseen, h⟩
  · rintro ⟨sound, ⟨⟨source, space⟩, target⟩, entry, unseen, rest⟩
    obtain ⟨known, rfl, rfl⟩ := RenameRule.write?_eq_some.1 entry
    have shown : (Text.isBlankText r.source || Text.isBlankText r.target) = false := by
      rw [Bool.or_eq_false_iff, ← Bool.not_eq_true, ← Bool.not_eq_true]
      exact ⟨sound.source, sound.target⟩
    unfold checkRenames
    simp only [known, shown, sound.free, lookup_seen.2 unseen, Bool.false_eq_true, if_false]
    exact rest

theorem checkRenames_iff :
    checkRenames seen index rules = .ok () ↔
      (∀ r ∈ rules, r.Sound) ∧ ((written rules).map Prod.fst).Nodup ∧
        ∀ e ∈ written rules, e.1.label ∉ seen.map Prod.fst := by
  -- on the additions still to come, with any labels seen: those seen last are the labels of the
  -- additions in front, and equal labels mean equal slots
  induction rules generalizing seen index with
  | nil => simp [checkRenames, written]
  | cons r rules ih =>
    rw [checkRenames_cons, List.forall_mem_cons]
    constructor
    · rintro ⟨sound, e, entry, unseen, rest⟩
      obtain ⟨others, distinct, apart⟩ := ih.1 rest
      rw [written_cons entry, List.map_cons, List.nodup_cons, List.forall_mem_cons]
      refine ⟨⟨sound, others⟩, ⟨fun again => ?_, distinct⟩, unseen, fun f hf => ?_⟩
      · obtain ⟨f, hf, same⟩ := List.mem_map.1 again
        exact apart f hf (same ▸ List.mem_cons_self ..)
      · exact List.not_mem_of_not_mem_cons (apart f hf)
    · rintro ⟨⟨sound, others⟩, distinct, apart⟩
      obtain ⟨e, entry⟩ := Option.isSome_iff_exists.1 sound.known
      rw [written_cons entry] at distinct apart
      obtain ⟨new, distinct⟩ := List.nodup_cons.1 distinct
      obtain ⟨unseen, apart⟩ := List.forall_mem_cons.1 apart
      refine ⟨sound, e, entry, unseen, ih.2 ⟨others, distinct, fun f hf seen => ?_⟩⟩
      obtain same | seen := List.mem_cons.1 seen
      · exact new (Slot.label_injective same ▸ List.mem_map_of_mem hf)
      · exact apart f hf seen

theorem extend_eq (known : ∀ r ∈ rules, r.write?.isSome) (t : Table) (index : Nat) :
    extend t index rules = .ok (t.writeAll (written rules)) := by
  induction rules generalizing t index with
  | nil => rfl
  | cons r rules ih =>
    obtain ⟨first, others⟩ := List.forall_mem_cons.1 known
    obtain ⟨e, he⟩ := Option.isSome_iff_exists.1 first
    obtain ⟨space, source, target⟩ := RenameRule.write?_eq_some.1 he
    simp only [extend, space]
    rw [ih others, written_cons he, source, target]
    rfl

/-- Of additions for different slots, each gives its target. -/
theorem lookup_written (distinct : ((written rules).map Prod.fst).Nodup) (hr : r ∈ rules)
    {space : Namespace} (known : Namespace.parse? r.space = some space) (t : Table) :
    (t.writeAll (written rules)).lookup space r.source = r.target := by
  have entry : r.write? = some (⟨r.source, space⟩, r.target) :=
    RenameRule.write?_eq_some.2 ⟨known, rfl, rfl⟩
  have last : Table.LastWritten (written rules) ⟨r.source, space⟩ r.target :=
    (Table.lastWritten_iff_mem distinct).2 (List.mem_filterMap.2 ⟨r, hr, entry⟩)
  rw [Table.lookup_eq, last.target?_writeAll, Option.getD_some]

theorem lookup_unwritten {space : Namespace} {x : String}
    (other : ∀ r ∈ rules, Namespace.parse? r.space = some space → r.source ≠ x) (t : Table) :
    (t.writeAll (written rules)).lookup space x = t.lookup space x := by
  have absent : ⟨x, space⟩ ∉ (written rules).map Prod.fst := by
    intro h
    obtain ⟨e, he, slot⟩ := List.mem_map.1 h
    obtain ⟨r, hr, entry⟩ := List.mem_filterMap.1 he
    obtain ⟨known, source, -⟩ := RenameRule.write?_eq_some.1 entry
    rw [slot] at known source
    exact other r hr known source
  rw [Table.lookup_eq, Table.target?_writeAll_of_not_mem absent, Table.lookup_eq]

end Rules

section Accepted

variable {check : String → Except SettingsError Unit} {c : Settings}

/-- Which settings are accepted: those for an accepted release whose additions are right by
themselves and for different slots. -/
theorem validateWith_iff :
    c.validateWith check = .ok () ↔
      check c.targetVersion = .ok () ∧ (∀ r ∈ c.renames, r.Sound) ∧
        ((written c.renames).map Prod.fst).Nodup := by
  have checked : checkRenames [] 0 c.renames = .ok () ↔
      (∀ r ∈ c.renames, r.Sound) ∧ ((written c.renames).map Prod.fst).Nodup := by
    simp [checkRenames_iff]
  rw [← checked, validateWith]
  cases check c.targetVersion with
  | error e => simp
  | ok supported => simp

theorem table_eq (valid : c.validateWith check = .ok ()) :
    c.table = .ok (Table.initial.writeAll (written c.renames)) :=
  extend_eq (fun r hr => ((validateWith_iff.1 valid).2.1 r hr).known) .initial 0

theorem validateWith_perm (valid : c.validateWith check = .ok ()) {rules : List RenameRule}
    (perm : rules.Perm c.renames) : { c with renames := rules }.validateWith check = .ok () := by
  obtain ⟨supported, sound, distinct⟩ := validateWith_iff.1 valid
  have slots := (perm.filterMap RenameRule.write?).map Prod.fst
  refine validateWith_iff.2 ⟨supported, fun r hr => ?_, slots.nodup_iff.2 distinct⟩
  exact sound r (perm.mem_iff.1 hr)

/-- The table of settings that pass the check, whatever it says of releases, has the target of every
addition and is otherwise as without them. In another order the same additions pass the check too
and give the same entries. -/
theorem additions_kept (valid : c.validateWith check = .ok ()) :
    ∃ table, c.table = .ok table ∧
      (∀ r ∈ c.renames, ∃ space, Namespace.parse? r.space = some space ∧
        table.lookup space r.source = r.target) ∧
      (∀ (space : Namespace) (x : String),
        (∀ r ∈ c.renames, Namespace.parse? r.space = some space → r.source ≠ x) →
          table.lookup space x = Table.initial.lookup space x) ∧
      ∀ rules : List RenameRule, rules.Perm c.renames →
        { c with renames := rules }.validateWith check = .ok () ∧
          ∃ moved, { c with renames := rules }.table = .ok moved ∧
            moved.entries = table.entries := by
  obtain ⟨-, sound, distinct⟩ := validateWith_iff.1 valid
  refine ⟨_, table_eq valid, fun r hr => ?_, fun space x other => lookup_unwritten other _, ?_⟩
  · obtain ⟨e, entry⟩ := Option.isSome_iff_exists.1 (sound r hr).known
    have known := (RenameRule.write?_eq_some.1 entry).1
    exact ⟨e.1.space, known, lookup_written distinct hr known _⟩
  · intro rules perm
    have accepted := validateWith_perm valid perm
    refine ⟨accepted, _, table_eq accepted, ?_⟩
    exact Table.entries_eq_of_target?
      (Table.target?_writeAll_perm distinct (perm.filterMap RenameRule.write?) .initial)

/-- Additions for one source in both namespaces, and for a source that reads like a label. -/
def sharedSource : Settings :=
  { targetVersion := "8.10"
    renames := [⟨"type", "Maybe", "maybe"⟩, ⟨"expr", "Maybe", "perhaps"⟩,
      ⟨"value", "type Maybe", "kind"⟩] }

theorem sharedSource_kept :
    sharedSource.validate = .ok () ∧
      ∃ table, sharedSource.table = .ok table ∧ table.lookup .type "Maybe" = "maybe" ∧
        table.lookup .value "Maybe" = "perhaps" ∧ table.lookup .value "type Maybe" = "kind" ∧
        table.lookup .value "Just" = "Some" ∧
        ∃ moved, { sharedSource with renames := sharedSource.renames.reverse }.table = .ok moved ∧
          moved.entries = table.entries := by
  have valid : sharedSource.validate = .ok () := by rfl
  obtain ⟨table, made, kept, others, moved⟩ := additions_kept valid
  refine ⟨valid, table, made, ?_, ?_, ?_, ?_, (moved _ (List.reverse_perm _)).2⟩
  · obtain ⟨space, known, target⟩ := kept ⟨"type", "Maybe", "maybe"⟩ (by decide)
    cases known
    exact target
  · obtain ⟨space, known, target⟩ := kept ⟨"expr", "Maybe", "perhaps"⟩ (by decide)
    cases known
    exact target
  · obtain ⟨space, known, target⟩ := kept ⟨"value", "type Maybe", "kind"⟩ (by decide)
    cases known
    exact target
  · exact others .value "Just" (by decide)

end Accepted

end Settings

end Vernacular
