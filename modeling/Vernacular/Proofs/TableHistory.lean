import Vernacular.Proofs.Agreement

set_option autoImplicit false

namespace Vernacular

namespace Table

/-- Of the entries written one after the other, the last one for a slot. -/
def LastWritten (written : List (Slot × String)) (slot : Slot) (target : String) : Prop :=
  ∃ earlier later, written = earlier ++ (slot, target) :: later ∧ slot ∉ later.map Prod.fst

def writeAll (t : Table) (es : List (Slot × String)) : Table :=
  es.foldl (fun t e => t.rename e.1.space e.1.source e.2) t

theorem target?_empty (slot : Slot) : empty.target? slot = none :=
  rfl

section LastWritten

variable {es : List (Slot × String)} {slot : Slot} {target : String}

theorem LastWritten.mem (h : LastWritten es slot target) : (slot, target) ∈ es := by
  obtain ⟨earlier, later, rfl, -⟩ := h
  exact List.mem_append_right earlier (List.mem_cons_self ..)

theorem exists_lastWritten (h : slot ∈ es.map Prod.fst) : ∃ target, LastWritten es slot target := by
  induction es with
  | nil => cases h
  | cons e es ih =>
    by_cases again : slot ∈ es.map Prod.fst
    · obtain ⟨target, earlier, later, rfl, last⟩ := ih again
      exact ⟨target, e :: earlier, later, rfl, last⟩
    · obtain rfl : slot = e.1 := (List.mem_cons.1 h).resolve_right again
      exact ⟨e.2, [], es, rfl, again⟩

theorem lastWritten_iff_mem (distinct : (es.map Prod.fst).Nodup) :
    LastWritten es slot target ↔ (slot, target) ∈ es := by
  refine ⟨LastWritten.mem, fun h => ?_⟩
  obtain ⟨earlier, later, rfl⟩ := List.append_of_mem h
  rw [List.map_append, List.map_cons] at distinct
  have last := (List.nodup_cons.1 (List.nodup_append.1 distinct).2.1).1
  exact ⟨earlier, later, rfl, last⟩

theorem writeAll_append (t : Table) (es fs : List (Slot × String)) :
    t.writeAll (es ++ fs) = (t.writeAll es).writeAll fs :=
  List.foldl_append

theorem target?_writeAll_of_not_mem (absent : slot ∉ es.map Prod.fst) (t : Table) :
    (t.writeAll es).target? slot = t.target? slot := by
  induction es generalizing t with
  | nil => rfl
  | cons e es ih =>
    have other : slot ≠ e.1 := List.ne_of_not_mem_cons absent
    have later : slot ∉ es.map Prod.fst := List.not_mem_of_not_mem_cons absent
    calc (t.writeAll (e :: es)).target? slot
      _ = (t.rename e.1.space e.1.source e.2).target? slot := ih later _
      _ = t.target? slot := by rw [target?_rename, if_neg other.symm]

/-- What was written last for a slot is there, whatever the table held before. -/
theorem LastWritten.target?_writeAll (h : LastWritten es slot target) (t : Table) :
    (t.writeAll es).target? slot = some target := by
  obtain ⟨earlier, later, rfl, last⟩ := h
  rw [writeAll_append]
  calc ((t.writeAll earlier).writeAll ((slot, target) :: later)).target? slot
    _ = ((t.writeAll earlier).rename slot.space slot.source target).target? slot :=
      target?_writeAll_of_not_mem last _
    _ = some target := by rw [target?_rename, if_pos rfl]

theorem target?_writeAll_empty :
    (empty.writeAll es).target? slot = some target ↔ LastWritten es slot target := by
  refine ⟨fun h => ?_, fun h => h.target?_writeAll empty⟩
  by_cases written : slot ∈ es.map Prod.fst
  · obtain ⟨found, last⟩ := exists_lastWritten written
    rw [last.target?_writeAll, Option.some.injEq] at h
    exact h ▸ last
  · rw [target?_writeAll_of_not_mem written, target?_empty] at h
    cases h

/-- Entries for different slots may be written in any order. -/
theorem target?_writeAll_perm {fs : List (Slot × String)} (distinct : (es.map Prod.fst).Nodup)
    (perm : fs.Perm es) (t : Table) (slot : Slot) :
    (t.writeAll fs).target? slot = (t.writeAll es).target? slot := by
  have slots := perm.map Prod.fst
  by_cases written : slot ∈ es.map Prod.fst
  · obtain ⟨target, last⟩ := exists_lastWritten written
    have moved : LastWritten fs slot target :=
      (lastWritten_iff_mem (slots.nodup_iff.2 distinct)).2 (perm.mem_iff.2 last.mem)
    rw [last.target?_writeAll, moved.target?_writeAll]
  · rw [target?_writeAll_of_not_mem written,
      target?_writeAll_of_not_mem fun h => written (slots.mem_iff.1 h)]

end LastWritten

theorem target?_replay {t : Table} {es : List (Slot × String)} (h : es.Perm t.entries)
    (slot : Slot) : (empty.writeAll es).target? slot = t.target? slot := by
  have distinct : (es.map Prod.fst).Nodup := (h.map Prod.fst).nodup_iff.2 t.nodup_entries
  ext target
  rw [target?_writeAll_empty, lastWritten_iff_mem distinct, h.mem_iff, mem_entries]

/-- A table holds what was written into an empty one, with the last target for each slot. -/
structure Records (t : Table) (written : List (Slot × String)) : Prop where
  lookup_last : ∀ (space : Namespace) (x target : String),
    LastWritten written ⟨x, space⟩ target → t.lookup space x = target
  lookup_unwritten : ∀ (space : Namespace) (x : String),
    ⟨x, space⟩ ∉ written.map Prod.fst → t.lookup space x = Identifier.escape x
  ascending : t.entries.Pairwise fun a b => a.1.Before b.1
  listed : ∀ (slot : Slot) (target : String),
    (slot, target) ∈ t.entries ↔ LastWritten written slot target
  replayed : ∀ es : List (Slot × String), es.Perm t.entries →
    ∀ (space : Namespace) (x : String), (empty.writeAll es).lookup space x = t.lookup space x
  typeTargets : ∀ x : String,
    t.isTypeTarget x = true ↔ ∃ e ∈ t.entries, e.1.space = .type ∧ e.2 = x

theorem records_writeAll (es : List (Slot × String)) : (empty.writeAll es).Records es where
  lookup_last space x target h := by
    rw [lookup_eq, h.target?_writeAll, Option.getD_some]
  lookup_unwritten space x h := by
    rw [lookup_eq, target?_writeAll_of_not_mem h, target?_empty, Option.getD_none]
  ascending := pairwise_entries _
  listed slot target := mem_entries.trans target?_writeAll_empty
  replayed fs perm space x := by
    rw [lookup_eq, lookup_eq, target?_replay perm]
  typeTargets x := by
    rw [isTypeTarget_iff]
    constructor
    · rintro ⟨source, written⟩
      exact ⟨(⟨source, .type⟩, x), mem_entries.2 written, rfl, rfl⟩
    · rintro ⟨⟨⟨source, space⟩, target⟩, listed, rfl, rfl⟩
      exact ⟨source, mem_entries.1 listed⟩

inductive Write where
  | rename (space : Namespace) (source target : String)
  | constructor (con : String)

namespace Write

def perform (t : Table) : Write → Table
  | rename space source target => t.rename space source target
  | constructor con => t.registerConstructor con

def entry : Write → Slot × String
  | rename space source target => (⟨source, space⟩, target)
  | constructor con => (⟨con, .value⟩, "Mk_" ++ con)

theorem perform_eq (t : Table) (w : Write) :
    w.perform t = t.rename w.entry.1.space w.entry.1.source w.entry.2 := by
  cases w <;> rfl

end Write

/-- Whatever calls follow one another on a new table, it holds the last target written for each
slot, of which the built-in correspondences are the first. -/
theorem records_calls (calls : List Write) :
    (calls.foldl (fun t w => w.perform t) initial).Records (builtins ++ calls.map Write.entry) := by
  have run : calls.foldl (fun t w => w.perform t) initial =
      empty.writeAll (builtins ++ calls.map Write.entry) := by
    rw [writeAll_append, writeAll, List.foldl_map]
    simp only [Write.perform_eq]
    rfl
  rw [run]
  exact records_writeAll _

end Table

end Vernacular
