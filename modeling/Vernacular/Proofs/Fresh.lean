import Mathlib.Data.List.Nodup
import Mathlib.Data.List.Perm.Subperm
import Vernacular.Function

set_option autoImplicit false

namespace Vernacular

namespace Identifier

theorem length_underscored (x : String) (k : Nat) :
    (underscored x k).length = x.length + k := by
  simp [underscored]

theorem underscored_injective (x : String) : Function.Injective (underscored x) := by
  intro j k h
  have lengths := congrArg String.length h
  rw [length_underscored, length_underscored] at lengths
  omega

/-- A list of names leaves one of as many candidates, and one more, unused. -/
theorem exists_unused (avoid : List String) (x : String) :
    ∃ k < avoid.length + 1, underscored x k ∉ avoid := by
  by_contra used
  push Not at used
  have distinct : ((List.range (avoid.length + 1)).map (underscored x)).Nodup :=
    List.nodup_range.map (underscored_injective x)
  have inside : (List.range (avoid.length + 1)).map (underscored x) ⊆ avoid := by
    intro y hy
    obtain ⟨k, hk, rfl⟩ := List.mem_map.1 hy
    exact used k (List.mem_range.1 hk)
  have le := (List.subperm_of_subset distinct inside).length_le
  rw [List.length_map, List.length_range] at le
  omega

theorem fresh_spec (avoid : List String) (x : String) :
    ∃ k, fresh avoid x = underscored x k ∧ underscored x k ∉ avoid ∧
      ∀ j < k, underscored x j ∈ avoid := by
  obtain ⟨k, hk, unused⟩ := exists_unused avoid x
  have found : ((List.range (avoid.length + 1)).find? (underscored x · ∉ avoid)).isSome := by
    rw [List.find?_isSome]
    exact ⟨k, List.mem_range.2 hk, by simpa using unused⟩
  obtain ⟨i, hi⟩ := Option.isSome_iff_exists.1 found
  have first := List.find?_range_eq_some.1 hi
  refine ⟨i, by rw [fresh, hi, Option.getD_some], by simpa using first.1, fun j hj => ?_⟩
  simpa using first.2.2 j hj

theorem fresh_not_mem (avoid : List String) (x : String) : fresh avoid x ∉ avoid := by
  obtain ⟨k, eq, unused, -⟩ := fresh_spec avoid x
  rwa [eq]

/-- The search for an unused name, in which a name on the list gets one more underscore: from `x`
it ends with `y` after `k` rounds. -/
inductive Settles (avoid : List String) : String → Nat → String → Prop
  | unused {x : String} (off : x ∉ avoid) : Settles avoid x 0 x
  | extend {x y : String} {k : Nat} (used : x ∈ avoid) (rest : Settles avoid (x ++ "_") k y) :
      Settles avoid x (k + 1) y

section Settles

variable {avoid : List String} {x y : String} {k : Nat}

theorem underscored_zero (x : String) : underscored x 0 = x := by
  simp [underscored]

theorem underscored_append (x : String) (k : Nat) :
    underscored (x ++ "_") k = underscored x (k + 1) := by
  simp [underscored, List.replicate_succ, String.append_assoc]

theorem settles_zero_iff : Settles avoid x 0 y ↔ y = x ∧ y ∉ avoid := by
  constructor
  · rintro ⟨off⟩
    exact ⟨rfl, off⟩
  · rintro ⟨rfl, off⟩
    exact .unused off

theorem settles_succ_iff :
    Settles avoid x (k + 1) y ↔ x ∈ avoid ∧ Settles avoid (x ++ "_") k y := by
  constructor
  · intro h
    cases h with
    | extend used rest => exact ⟨used, rest⟩
  · rintro ⟨used, rest⟩
    exact .extend used rest

/-- A search ends after `k` rounds iff `k` underscores are the fewest that will do. -/
theorem settles_iff :
    Settles avoid x k y ↔
      y = underscored x k ∧ y ∉ avoid ∧ ∀ j < k, underscored x j ∈ avoid := by
  induction k generalizing x with
  | zero => simp [settles_zero_iff, underscored_zero]
  | succ k ih =>
    rw [settles_succ_iff, ih, Nat.forall_lt_succ_left, underscored_zero]
    simp only [underscored_append]
    constructor
    · rintro ⟨used, eq, off, more⟩
      exact ⟨eq, off, used, more⟩
    · rintro ⟨eq, off, used, more⟩
      exact ⟨used, eq, off, more⟩

theorem Settles.not_mem (h : Settles avoid x k y) : y ∉ avoid :=
  (settles_iff.1 h).2.1

theorem Settles.congr {others : List String} (h : Settles avoid x k y)
    (same : ∀ z, z ∈ others ↔ z ∈ avoid) : Settles others x k y := by
  simpa only [settles_iff, same] using h

/-- Every search ends, with the fresh name. -/
theorem exists_settles_fresh (avoid : List String) (x : String) :
    ∃ k, Settles avoid x k (fresh avoid x) := by
  obtain ⟨k, eq, off, used⟩ := fresh_spec avoid x
  exact ⟨k, settles_iff.2 ⟨eq, eq ▸ off, used⟩⟩

end Settles

end Identifier

section Arguments

open Identifier

theorem length_freshArguments (n : Nat) (avoid : List String) :
    (freshArguments n avoid).length = n := by
  rw [freshArguments, List.length_map, List.length_range]

theorem getElem?_freshArguments {n i : Nat} (h : i < n) (avoid : List String) :
    (freshArguments n avoid)[i]? = some (fresh avoid ("arg_" ++ toString i ++ "__")) := by
  simp [freshArguments, h]

theorem not_mem_of_mem_freshArguments {n : Nat} {avoid : List String} {a : String}
    (h : a ∈ freshArguments n avoid) : a ∉ avoid := by
  obtain ⟨i, -, rfl⟩ := List.mem_map.1 h
  exact fresh_not_mem avoid _

theorem toList_freshArgument (avoid : List String) (i : Nat) :
    ∃ k, (fresh avoid ("arg_" ++ toString i ++ "__")).toList =
      "arg_".toList ++ (Nat.toDigits 10 i ++ List.replicate (k + 1) '_') := by
  obtain ⟨k, same, -, -⟩ := fresh_spec avoid ("arg_" ++ toString i ++ "__")
  refine ⟨k + 1, ?_⟩
  rw [same]
  simp [underscored, List.replicate_succ]

theorem takeWhile_digits (i k : Nat) :
    (Nat.toDigits 10 i ++ List.replicate (k + 1) '_').takeWhile (· != '_') = Nat.toDigits 10 i := by
  rw [List.takeWhile_append_of_pos, List.replicate_succ, List.takeWhile_cons_of_neg (by simp),
    List.append_nil]
  rintro letter listed
  exact bne_iff_ne.2 fun eq => Nat.underscore_not_in_toDigits (eq ▸ listed)

/-- The digits of an argument's number end at the first underscore, so that arguments with different
numbers have different names. -/
theorem freshArguments_nodup (n : Nat) (avoid : List String) : (freshArguments n avoid).Nodup := by
  refine List.nodup_range.map fun i j same => ?_
  obtain ⟨k, hi⟩ := toList_freshArgument avoid i
  obtain ⟨l, hj⟩ := toList_freshArgument avoid j
  have texts := congrArg String.toList same
  rw [hi, hj] at texts
  have tails := List.append_cancel_left texts
  have numbers := congrArg (List.takeWhile (· != '_')) tails
  rw [takeWhile_digits, takeWhile_digits] at numbers
  calc
    i = Nat.ofDigitChars 10 (Nat.toDigits 10 i) 0 := Nat.ofDigitChars_ten_toDigits.symm
    _ = Nat.ofDigitChars 10 (Nat.toDigits 10 j) 0 := by rw [numbers]
    _ = j := Nat.ofDigitChars_ten_toDigits

/-- The names of arguments are as many different ones off the list. The search for each of them
ends, and adds the fewest underscores that take it off the list. -/
theorem freshArguments_settle (n : Nat) (avoid : List String) :
    (freshArguments n avoid).length = n ∧ (freshArguments n avoid).Nodup ∧
      (∀ a ∈ freshArguments n avoid, a ∉ avoid) ∧
      ∀ i < n, ∃ k a, (freshArguments n avoid)[i]? = some a ∧
        Settles avoid ("arg_" ++ toString i ++ "__") k a ∧
        a = underscored ("arg_" ++ toString i ++ "__") k ∧
        ∀ j < k, underscored ("arg_" ++ toString i ++ "__") j ∈ avoid := by
  refine ⟨length_freshArguments n avoid, freshArguments_nodup n avoid,
    fun a => not_mem_of_mem_freshArguments, fun i hi => ?_⟩
  obtain ⟨k, settled⟩ := exists_settles_fresh avoid ("arg_" ++ toString i ++ "__")
  obtain ⟨padded, -, fewest⟩ := settles_iff.1 settled
  exact ⟨k, _, getElem?_freshArguments hi avoid, settled, padded, fewest⟩

-- a longer name of the second argument is used, but not the one that it starts with
example : freshArguments 2 ["arg_1___", "arg_0__", "arg_0___"] = ["arg_0____", "arg_1__"] := by
  decide

end Arguments

end Vernacular
