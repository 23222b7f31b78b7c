import Vernacular.Proofs.FreeNames
import Vernacular.Proofs.Nameless
import Vernacular.Proofs.Nodes
import Vernacular.Proofs.Outcome

set_option autoImplicit false

namespace Vernacular

def Term.AlphaEq (t u : Term) : Prop :=
  t.nameless .outside = u.nameless .outside

def Pattern.IsPlain : Pattern → Prop
  | .var _ | .wild => True
  | _ => False

/-- A name for the argument that a plain pattern matches: that of the variable, or for a wildcard
any name that the body does not mention. -/
def Pattern.NamedBy (body : Term) : Pattern → String → Prop
  | .var x, y => y = x
  | .wild, y => y ∉ body.names
  | _, _ => False

namespace Scope

/-- The scope after a match of arguments, in which each variable of a pattern stands for what its
argument stands for. The patterns are matched from left to right, and later variables hide earlier
ones. -/
def matched (ρ : Scope) : Scope → List Pattern → List String → Scope
  | σ, .var x :: ps, a :: as => matched ρ (fun y => if y = x then ρ a else σ y) ps as
  | σ, _ :: ps, _ :: as => matched ρ σ ps as
  | σ, _, _ => σ

end Scope

section Plain

variable {body : Term} {ps : List Pattern} {args ys : List String} {m : Renaming}

theorem exists_variableRenaming? (plain : ∀ p ∈ ps, p.IsPlain) (arity : ps.length = args.length) :
    ∃ m, variableRenaming? ps args = some m := by
  induction ps generalizing args with
  | nil =>
    obtain rfl := List.length_eq_zero_iff.1 arity.symm
    exact ⟨[], rfl⟩
  | cons p ps ih =>
    obtain ⟨first, rest⟩ := List.forall_mem_cons.1 plain
    cases args with
    | nil => cases arity
    | cons a args =>
      obtain ⟨m, found⟩ := ih rest (Nat.succ.inj arity)
      cases p with
      | var x => exact ⟨m ++ [(x, a)], by rw [variableRenaming?, found, Option.map_some]⟩
      | wild => exact ⟨m, found⟩
      | missing | named | con | num | str => cases first

theorem length_of_variableRenaming? (found : variableRenaming? ps args = some m) :
    ps.length = args.length := by
  fun_induction variableRenaming? ps args generalizing m with
  | case1 => rfl
  | case2 x ps a as ih =>
    obtain ⟨n, inner, -⟩ := Option.map_eq_some_iff.1 found
    exact congrArg (· + 1) (ih inner)
  | case3 ps a as ih => exact congrArg (· + 1) (ih found)
  | case4 => cases found

/-- A name that the body mentions and no pattern binds is not among the names of the arguments. -/
theorem not_mem_of_namedBy (names : List.Forall₂ (Pattern.NamedBy body) ps ys) {x : String}
    (mentioned : x ∈ body.names) (unbound : x ∉ Pattern.boundAll ps) : x ∉ ys := by
  induction names with
  | nil => exact List.not_mem_nil
  | @cons p y ps ys first _ ih =>
    obtain ⟨here, later⟩ := not_or.1 (mt List.mem_append.2 unbound)
    refine fun mem => (List.mem_cons.1 mem).elim ?_ (ih later)
    rintro rfl
    cases p with
    | var z => exact here (List.mem_singleton.2 first)
    | wild => exact first mentioned
    | missing | named | con | num | str => cases first

/-- Under the arguments a renamed variable stands for the binder that it stands for under the
variables: the last one of its name. -/
theorem binds_variableRenaming? (found : variableRenaming? ps args = some m)
    (names : List.Forall₂ (Pattern.NamedBy body) ps ys) (distinct : args.Nodup) {x : String}
    (mentioned : x ∈ body.names) (bound : x ∈ Pattern.boundAll ps) (ρ ρ' : Scope) :
    ρ'.binds args (m.apply x) = ρ.binds ys x := by
  fun_induction variableRenaming? ps args generalizing m ys ρ ρ' with
  | case1 => cases bound
  | case2 z ps a as ih =>
    obtain ⟨y, zs, first, rest, rfl⟩ := List.forall₂_cons_left_iff.1 names
    obtain rfl : y = z := first
    obtain ⟨n, inner, rfl⟩ := Option.map_eq_some_iff.1 found
    obtain ⟨-, -, keys⟩ := variableRenaming?_spec inner
    obtain ⟨new, apart⟩ := List.nodup_cons.1 distinct
    change (ρ'.bind a).binds as _ = (ρ.bind y).binds zs x
    by_cases later : x ∈ Pattern.boundAll ps
    · rw [Renaming.apply_append_of_mem ((keys x).2 later)]
      exact ih inner rest apart later _ _
    · obtain rfl : x = y := List.mem_singleton.1 ((List.mem_append.1 bound).resolve_right later)
      have hidden := not_mem_of_namedBy rest mentioned later
      rw [Renaming.apply_append_of_not_mem (mt (keys x).1 later), Renaming.apply_cons, if_pos rfl,
        Scope.binds_of_not_mem _ new, Scope.binds_of_not_mem _ hidden, Scope.bind_self,
        Scope.bind_self, ← length_of_variableRenaming? inner, rest.length_eq]
  | case3 ps a as ih =>
    obtain ⟨y, zs, -, rest, rfl⟩ := List.forall₂_cons_left_iff.1 names
    exact ih found rest (List.nodup_cons.1 distinct).2 bound _ _
  | case4 => cases found

theorem matched_variableRenaming? (found : variableRenaming? ps args = some m) (ρ σ : Scope)
    (x : String) :
    ρ.matched σ ps args x = if x ∈ Pattern.boundAll ps then ρ (m.apply x) else σ x := by
  fun_induction variableRenaming? ps args generalizing m σ with
  | case1 => rfl
  | case2 z ps a as ih =>
    obtain ⟨n, inner, rfl⟩ := Option.map_eq_some_iff.1 found
    obtain ⟨-, -, keys⟩ := variableRenaming?_spec inner
    rw [Scope.matched, ih inner]
    by_cases later : x ∈ Pattern.boundAll ps
    · simp [Pattern.boundAll, later, Renaming.apply_append_of_mem ((keys x).2 later)]
    · rw [if_neg later, Renaming.apply_append_of_not_mem (mt (keys x).1 later), Renaming.apply_cons]
      simp only [Pattern.boundAll, Pattern.bound, List.singleton_append, List.mem_cons, later,
        or_false]
      split <;> rfl
  | case3 ps a as ih => exact ih found σ
  | case4 => cases found

end Plain

theorem Term.namelessBinders_plain (ρ : Scope) (xs : List String) :
    namelessBinders ρ (xs.map .plain) = List.replicate xs.length (.mk none false) := by
  induction xs generalizing ρ with
  | nil => rfl
  | cons x xs ih =>
    rw [List.map_cons, Binder.plain, namelessBinders, namelessType, ih, List.length_cons,
      List.replicate_succ]

theorem Term.nameless_lam_plain (ρ : Scope) (xs : List String) (t : Term) :
    (Term.lam (xs.map .plain) t).nameless ρ =
      .lam (List.replicate xs.length (.mk none false)) (t.nameless (ρ.binds xs)) := by
  have names : (xs.map Binder.plain).map Binder.name = xs := by
    rw [List.map_map]
    exact List.map_id xs
  rw [nameless, namelessBinders_plain, names]

namespace FunctionLiteral

variable {ps : List Pattern} {body : Term} {m : Renaming}

theorem length_argumentsFor_single : (argumentsFor [.mk ps body]).length = ps.length :=
  length_argumentsFor _

theorem not_mem_names_of_mem_argumentsFor {a : String} (h : a ∈ argumentsFor [.mk ps body]) :
    a ∉ body.names :=
  fun used => argumentsFor_not_mem h (by simp [Term.namesArms, used])

theorem term_of_variableRenaming?
    (found : variableRenaming? ps (argumentsFor [.mk ps body]) = some m) :
    (ofArms [.mk ps body]).term =
      .lam ((argumentsFor [.mk ps body]).map .plain) (body.rename m) := by
  rw [term, ofArms, bodyFor, found]

/-- The renaming leads to the arguments from any scope that has the variables where the arguments
have them, and all else outside. -/
theorem carries_variableRenaming?
    (found : variableRenaming? ps (argumentsFor [.mk ps body]) = some m) {ρ ρ' : Scope}
    (bound : ∀ x ∈ body.names, x ∈ Pattern.boundAll ps → ρ' (m.apply x) = ρ x)
    (others : ∀ x ∈ body.names, x ∉ Pattern.boundAll ps → ρ' x = ρ x) :
    m.Carries ρ ρ' body.names where
  resolved x hx := by
    obtain ⟨-, -, keys⟩ := variableRenaming?_spec found
    by_cases inside : x ∈ Pattern.boundAll ps
    · exact bound x hx inside
    · rw [Renaming.apply_of_not_mem (mt (keys x).1 inside)]
      exact others x hx inside
  fresh x hx e he := by
    obtain ⟨-, values, -⟩ := variableRenaming?_spec found
    rintro rfl
    exact not_mem_names_of_mem_argumentsFor (values e he) hx

end FunctionLiteral

namespace Surface

open FunctionLiteral

/-- A function of one equation over variables and wildcards has no match. It is the literal over the
variables themselves, up to bound names, and its body is what a match of the arguments gives. -/
theorem function_of_plain_equation (table : Table) (q : Equation) (ps : List Vernacular.Pattern)
    (body : Term) (converted : q.LowersTo table (.mk ps body)) (plain : ∀ p ∈ ps, p.IsPlain) :
    ∃ args m, Equation.lowerAll table [q] = .ok [.mk ps body] ∧
      (ofArms [.mk ps body]).term = .lam (args.map .plain) (body.rename m) ∧
      (∀ ys, List.Forall₂ (Vernacular.Pattern.NamedBy body) ps ys →
        (Term.lam (args.map .plain) (body.rename m)).AlphaEq (.lam (ys.map .plain) body)) ∧
      (body.rename m).nameless (Scope.outside.binds args) =
        body.nameless
          ((Scope.outside.binds args).matched (Scope.outside.binds args) ps args) := by
  have arity : ps.length = (argumentsFor [.mk ps body]).length := length_argumentsFor_single.symm
  obtain ⟨m, found⟩ := exists_variableRenaming? plain arity
  have unused : ∀ x ∈ body.names, x ∉ argumentsFor [.mk ps body] :=
    fun x hx used => not_mem_names_of_mem_argumentsFor used hx
  have distinct : (argumentsFor [.mk ps body]).Nodup := freshArguments_nodup _ _
  refine ⟨argumentsFor [.mk ps body], m, ?_, term_of_variableRenaming? found,
    fun ys names => ?_, ?_⟩
  · obtain ⟨pos, patterns, rhs⟩ := q
    rw [Equation.lowerAll, converted.1, converted.2]
    rfl
  · have same : (argumentsFor [.mk ps body]).length = ys.length := arity.symm.trans names.length_eq
    rw [Term.AlphaEq, Term.nameless_lam_plain, Term.nameless_lam_plain, same]
    refine congrArg _ (Term.nameless_rename body (carries_variableRenaming? found ?_ ?_))
    · exact fun x hx inside => binds_variableRenaming? found names distinct hx inside _ _
    · intro x hx outside
      rw [Scope.binds_of_not_mem _ (unused x hx),
        Scope.binds_of_not_mem _ (not_mem_of_namedBy names hx outside), same]
  · refine Term.nameless_rename body (carries_variableRenaming? found ?_ ?_)
    · intro x _ inside
      rw [matched_variableRenaming? found, if_pos inside]
    · intro x _ outside
      rw [matched_variableRenaming? found, if_neg outside]

/-- An equation over a repeated variable and a wildcard. Its body hides the variable again, and uses
a name that an argument would have had. -/
def repeatedVariable : Equation :=
  .mk {} [.var {} "x", .wild {}, .var {} "x"]
    (.mk [.mk {} [] (.app {} (.app {} (.var {} "arg_2__") (.var {} "x"))
      (.lambda {} [.mk {} [.var {} "x"] (.mk [.mk {} [] (.var {} "x")] .none)]))] .none)

theorem repeatedVariable_alphaEq :
    ∃ body, repeatedVariable.LowersTo .initial (.mk [.var "x", .wild, .var "x"] body) ∧
      (ofArms [.mk [.var "x", .wild, .var "x"] body]).term.print =
        "fun arg_0___ arg_1__ arg_2___ => arg_2__ arg_2___ (fun arg_0__ => arg_0__)" ∧
      (ofArms [.mk [.var "x", .wild, .var "x"] body]).term.AlphaEq
        (.lam (["x", "other", "x"].map .plain) body) := by
  have converted : repeatedVariable.LowersTo .initial (.mk [.var "x", .wild, .var "x"]
      (.app (.var "arg_2__") [.var "x", .lam [.plain "arg_0__"] (.var "arg_0__")])) := ⟨rfl, rfl⟩
  refine ⟨_, converted, rfl, ?_⟩
  obtain ⟨args, m, -, literal, alpha, -⟩ :=
    function_of_plain_equation .initial repeatedVariable _ _ converted (by
      simp [Vernacular.Pattern.IsPlain])
  rw [literal]
  refine alpha _ (.cons rfl (.cons ?_ (.cons rfl .nil)))
  change "other" ∉ ["arg_2__", "x", "arg_0__", "arg_0__"]
  decide

end Surface

end Vernacular
