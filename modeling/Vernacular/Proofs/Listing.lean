import Mathlib.Data.List.Sort
import Std.Data.TreeMap.Lemmas
import Vernacular.Proofs.Targets

set_option autoImplicit false

namespace Vernacular

/-- The order of a listing: by source, and for one source the value before the type. -/
def Slot.Before (a b : Slot) : Prop :=
  a.source < b.source ∨ a.source = b.source ∧ a.space.code < b.space.code

theorem Slot.Before.asymm {a b : Slot} (h : a.Before b) : ¬ b.Before a := by
  rintro (less | ⟨same, less⟩)
  · rcases h with less' | ⟨same, -⟩
    · exact String.lt_asymm less less'
    · exact String.lt_irrefl _ (same ▸ less)
  · rcases h with less' | ⟨-, less'⟩
    · exact String.lt_irrefl _ (same ▸ less')
    · omega

namespace Targets

theorem mem_entries {r : Targets} {source target : String} {slot : Slot} :
    (slot, target) ∈ r.entries source ↔ slot.source = source ∧ r.get? slot.space = some target := by
  obtain ⟨x, space⟩ := slot
  cases space <;> simp [entries, eq_comm, and_comm, and_left_comm]

theorem pairwise_entries (r : Targets) (source : String) :
    (r.entries source).Pairwise fun a b => a.1.Before b.1 := by
  obtain ⟨value, type⟩ := r
  cases value <;> cases type <;> simp [entries, get?, Slot.Before, Namespace.code]

end Targets

namespace Table

theorem mem_records {t : Table} {source : String} {r : Targets} :
    (source, r) ∈ t.records.toList ↔ t.records[source]? = some r :=
  Std.TreeMap.mem_toList_iff_getElem?_eq_some

theorem mem_entries {t : Table} {slot : Slot} {target : String} :
    (slot, target) ∈ t.entries ↔ t.target? slot = some target := by
  simp only [entries, List.mem_flatMap, Prod.exists, mem_records, Targets.mem_entries, target?,
    Option.bind_eq_some_iff]
  constructor
  · rintro ⟨source, r, found, rfl, target⟩
    exact ⟨r, found, target⟩
  · rintro ⟨r, found, target⟩
    exact ⟨_, r, found, rfl, target⟩

theorem isTypeTarget_iff {t : Table} {x : String} :
    t.isTypeTarget x = true ↔ ∃ source, t.target? ⟨source, .type⟩ = some x := by
  simp only [isTypeTarget, List.any_eq_true, Prod.exists, mem_records, target?,
    Option.bind_eq_some_iff, decide_eq_true_eq]
  rfl

theorem pairwise_entries (t : Table) : t.entries.Pairwise fun a b => a.1.Before b.1 := by
  refine List.pairwise_flatMap.2 ⟨fun e _ => e.2.pairwise_entries e.1, ?_⟩
  refine Std.TreeMap.ordered_keys_toList.imp fun {d e} less => ?_
  rintro ⟨a, _⟩ ha ⟨b, _⟩ hb
  have sources : a.source = d.1 ∧ b.source = e.1 :=
    ⟨(Targets.mem_entries.1 ha).1, (Targets.mem_entries.1 hb).1⟩
  left
  rw [sources.1, sources.2]
  exact compareOfLessAndEq_eq_lt.1 less

theorem nodup_entries (t : Table) : (t.entries.map Prod.fst).Nodup :=
  List.pairwise_map.2
    (t.pairwise_entries.imp fun before same => (same ▸ before).asymm (same ▸ before))

/-- A listing is determined by the targets, for its order leaves no choice. -/
theorem entries_eq_of_target? {t u : Table} (h : ∀ slot, t.target? slot = u.target? slot) :
    t.entries = u.entries := by
  have perm : t.entries.Perm u.entries := by
    refine (List.perm_ext_iff_of_nodup t.nodup_entries.of_map u.nodup_entries.of_map).2 ?_
    rintro ⟨slot, target⟩
    rw [mem_entries, mem_entries, h]
  exact perm.eq_of_pairwise (fun _ _ _ _ before after => absurd after before.asymm)
    t.pairwise_entries u.pairwise_entries

end Table

end Vernacular
