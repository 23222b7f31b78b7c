import Vernacular.Proofs.Capture
import Vernacular.Proofs.Scoping

/-!
The scope of defined names. A function that refers to its own name becomes a fixpoint, while a
constant is converted as it stands, with its own name left open. The bindings of a local group
become local definitions inside each other, in the order of the group: what is attached to the group
and all later bindings see a name, and earlier bindings do not.
-/

set_option autoImplicit false

namespace Vernacular

namespace Term

variable {x : String} {bs : List Binder}

theorem mem_freeUnder_append {xs ys : List String} :
    x ∈ freeUnder bs (xs ++ ys) ↔ x ∈ freeUnder bs xs ∨ x ∈ ys ∧ x ∉ bs.map Binder.name := by
  induction bs with
  | nil => simp [freeUnder]
  | cons b bs ih =>
    obtain ⟨y, ty, i⟩ := b
    simp only [freeUnder, List.mem_append, List.mem_filter, ih, List.map_cons, Binder.name,
      List.mem_cons, not_or, decide_eq_true_eq, or_and_right, or_assoc, and_assoc]
    exact or_congr_right (or_congr_right (and_congr_right fun _ => and_comm))

end Term

namespace Definition

variable {x : String}

/-- The names that the signature of a definition takes from around it. -/
def signatureFree (d : Definition) : List String :=
  Term.freeUnder d.binders (Term.freeType d.type)

theorem mem_free {d : Definition} :
    x ∈ d.free ↔ x ∈ d.signatureFree ∨ x ∈ d.body.free ∧ x ∉ d.binders.map Binder.name :=
  Term.mem_freeUnder_append

theorem mem_free_letIn {d : Definition} {t : Term} :
    x ∈ (d.letIn t).free ↔ x ∈ d.free ∨ x ∈ t.free ∧ x ≠ d.name := by
  rw [letIn, Term.free, List.mem_append, List.mem_filter, decide_eq_true_eq]
  rfl

/-- The name of a definition is free in a nest if that definition, or one outside of it, takes it.
What stands further inside does not matter. -/
theorem mem_free_nest_of_first {front back : List Definition} {d : Definition} {body : Term}
    (first : d.name ∉ front.map name) :
    d.name ∈ ((front ++ d :: back).foldr letIn body).free ↔
      (∃ e ∈ front, d.name ∈ e.free) ∨ d.name ∈ d.free := by
  rw [List.foldr_append, mem_free_nest first, List.foldr_cons, mem_free_letIn]
  simp only [ne_eq, not_true_eq_false, and_false, or_false]

end Definition

namespace Surface

variable {table : Table}

def Binding.constant? : Binding → Option Rhs
  | .mk _ _ [.mk _ [] rhs] => some rhs
  | _ => none

theorem Pattern.eq_nil_of_lowerAll {ps : List Pattern} (h : Pattern.lowerAll table ps = .ok []) :
    ps = [] := by
  cases ps with
  | nil => rfl
  | cons p ps =>
    simp only [Pattern.lowerAll, bind_eq_ok, pure_eq_ok] at h
    obtain ⟨q, -, qs, -, impossible⟩ := h
    cases impossible

/-- A constant has its converted right-hand side as its body, and in the body of a function its own
name is bound. -/
theorem Binding.lower_body {signature : Option Ty} {b : Binding} {d : Definition}
    (h : b.lower table signature = .ok d) :
    (∃ rhs, b.constant? = some rhs ∧ rhs.lower table = .ok d.body) ∨
      b.constant? = none ∧ d.name ∉ d.body.free := by
  obtain ⟨pos, y, qs⟩ := b
  obtain ⟨name, -, arms, each, body⟩ := Binding.lower_parts h
  rcases body with rfl | ⟨⟨q, head, patterned⟩, body⟩
  · -- a single arm without patterns comes from a single equation without patterns
    obtain ⟨q, rest, first, others, rfl⟩ := List.forall₂_cons_right_iff.1 each
    obtain rfl := List.forall₂_nil_right_iff.1 others
    obtain ⟨place, ps, rhs⟩ := q
    obtain rfl := Pattern.eq_nil_of_lowerAll first.1
    exact .inl ⟨rhs, rfl, first.2⟩
  · refine .inr ⟨?_, fun own => ?_⟩
    · cases qs with
      | nil => rfl
      | cons r rs =>
        obtain rfl : r = q := Option.some.inj head
        obtain ⟨place, ps, rhs⟩ := r
        cases ps with
        | nil => exact absurd rfl patterned
        | cons p ps => rfl
    · rw [body] at own
      exact (FunctionLiteral.mem_free_recursive.1 own).2 name

/-- A right-hand side that mentions the defined name outside the scopes of binders with the same
target leaves that name open. -/
theorem Binding.own_name_of_exposed {signature : Option Ty} {b : Binding} {d : Definition}
    {rhs : Rhs} {y : String} (h : b.lower table signature = .ok d)
    (constant : b.constant? = some rhs) (unsigned : rhs.unsigned)
    (target : table.valueName y = d.name)
    (shown : rhs.exposes (fun z => table.valueName z = d.name) y) : d.name ∈ d.body.free := by
  have cover : HidesTarget table (fun z => table.valueName z = d.name) y := fun z same =>
    decide_eq_true (same.trans target)
  rcases Binding.lower_body h with ⟨other, found, converted⟩ | ⟨function, -⟩
  · obtain rfl : rhs = other := Option.some.inj (constant.symm.trans found)
    rw [← target]
    exact Rhs.free_of_exposed cover rhs unsigned converted shown
  · rw [constant] at function
    cases function

/-- The body of a definition has the defined name open exactly if the binding is a constant and its
converted right-hand side has it open, which it has if it mentions an identifier with this target
outside the scopes of binders with the same target. The definition, as a sentence or as a local
definition, then takes its own name from around it, unless the signature quantifies that name.
Otherwise it does so for the signature only. -/
theorem own_name_open_iff (table : Table) (signature : Option Ty) (b : Binding) (d : Definition)
    (converted : b.lower table signature = .ok d) :
    (d.name ∈ d.body.free ↔
      ∃ rhs t, b.constant? = some rhs ∧ rhs.lower table = .ok t ∧ d.name ∈ t.free) ∧
    (∀ rhs y, b.constant? = some rhs → rhs.unsigned → table.valueName y = d.name →
      rhs.exposes (fun z => table.valueName z = d.name) y → d.name ∈ d.body.free) ∧
    (d.name ∈ d.free ↔
      d.name ∈ d.signatureFree ∨ d.name ∈ d.body.free ∧ d.name ∉ d.binders.map Binder.name) ∧
    ∀ t, d.name ∈ (d.letIn t).free ↔ d.name ∈ d.free := by
  refine ⟨?_, fun rhs y => Binding.own_name_of_exposed converted, Definition.mem_free, fun t => ?_⟩
  · rcases Binding.lower_body converted with ⟨rhs, constant, body⟩ | ⟨function, bound⟩
    · constructor
      · exact fun own => ⟨rhs, d.body, constant, body, own⟩
      · rintro ⟨other, t, found, lowered, own⟩
        obtain rfl : rhs = other := Option.some.inj (constant.symm.trans found)
        obtain rfl : d.body = t := Except.ok.inj (body.symm.trans lowered)
        exact own
    · refine iff_of_false bound ?_
      rintro ⟨rhs, t, found, -, -⟩
      rw [function] at found
      cases found
  · rw [Definition.mem_free_letIn]
    simp only [ne_eq, not_true_eq_false, and_false, or_false]

def selfCall : Rhs :=
  .mk [.mk {} [] (.app {} (.var {} "f") (.var {} "x"))] .none

def selfCallingFunction : Binding :=
  .mk {} "f" [.mk {} [.var {} "x"] selfCall]

def selfCallingConstant : Binding :=
  .mk {} "f" [.mk {} [] (.mk [.mk {} [] (.lambda {} [.mk {} [.var {} "x"] selfCall])] .none)]

theorem selfCalls_closed_and_open :
    (∃ d, selfCallingFunction.lower .initial none = .ok d ∧
      d.body.print = "fix f arg_0__ := f arg_0__" ∧ d.name ∉ d.body.free ∧
        ∀ t, d.name ∉ (d.letIn t).free) ∧
    ∃ d, selfCallingConstant.lower .initial none = .ok d ∧
      d.name ∈ d.body.free ∧ ∀ t, d.name ∈ (d.letIn t).free := by
  constructor
  · obtain ⟨body, -, whole, inside⟩ := own_name_open_iff .initial none selfCallingFunction _ rfl
    have closed := mt body.1 (by rintro ⟨rhs, t, ⟨⟩, -, -⟩)
    have apart := mt whole.1 (by rintro (⟨⟨⟩⟩ | ⟨own, -⟩); exact closed own)
    exact ⟨_, rfl, rfl, closed, fun t => mt (inside t).1 apart⟩
  · obtain ⟨-, exposed, whole, inside⟩ := own_name_open_iff .initial none selfCallingConstant _ rfl
    have own := exposed _ "f" rfl (by decide) rfl (by decide)
    exact ⟨_, rfl, own, fun t => (inside t).2 (whole.2 (.inr ⟨own, List.not_mem_nil⟩))⟩

theorem selfCallingConstant_open :
    ∃ d, selfCallingConstant.lower .initial none = .ok d ∧
      d.body.print = "fun arg_0__ => f arg_0__" ∧ d.name ∈ d.body.free :=
  ⟨_, rfl, rfl, by decide⟩

/-- Whether the definition that a binding gives takes a name from around it, in its signature or in
its equations. -/
def Binding.TakesName (table : Table) (signature : Option Ty) (x : String) (b : Binding) : Prop :=
  ∃ d, b.lower table signature = .ok d ∧ x ∈ d.free

section Groups

variable {signatures : List (String × Ty)} {bs : List Binding} {ds : List Definition} {x : String}

theorem forall₂_split {α β : Type} {R : α → β → Prop} {front back : List α} {a : α} {cs : List β}
    (h : List.Forall₂ R (front ++ a :: back) cs) :
    ∃ before c after, cs = before ++ c :: after ∧ List.Forall₂ R front before ∧ R a c := by
  induction front generalizing cs with
  | nil =>
    obtain ⟨c, after, here, -, rfl⟩ := List.forall₂_cons_left_iff.1 h
    exact ⟨[], c, after, rfl, .nil, here⟩
  | cons b front ih =>
    obtain ⟨e, rest, first, later, rfl⟩ := List.forall₂_cons_left_iff.1 h
    obtain ⟨before, c, after, rfl, others, here⟩ := ih later
    exact ⟨e :: before, c, after, rfl, .cons first others, here⟩

theorem Binding.exists_takesName_iff
    (h : List.Forall₂ (fun b d => b.lower table (signatures.lookup b.name) = .ok d) bs ds) :
    (∃ d ∈ ds, x ∈ d.free) ↔ ∃ b ∈ bs, b.TakesName table (signatures.lookup b.name) x := by
  induction h with
  | nil => simp
  | @cons b d bs ds first _ ih =>
    have here : b.TakesName table (signatures.lookup b.name) x ↔ x ∈ d.free := by
      constructor
      · rintro ⟨e, converted, taken⟩
        obtain rfl : d = e := Except.ok.inj (first.symm.trans converted)
        exact taken
      · exact fun taken => ⟨d, first, taken⟩
    rw [List.exists_mem_cons_iff, List.exists_mem_cons_iff, ih, here]

/-- The first binding of a name in a local group, if its own definition leaves the name alone, binds
it in the group's scope and in all later bindings: the name is free in the result exactly if an
earlier binding takes it. A function takes its own name for its signature only. -/
theorem group_name_free_iff (table : Table) (pos : Position) (implicitParams : Bool)
    (front back : List Binding) (b : Binding) (signatures : List (String × Ty))
    (ds : List Definition) (body : Term)
    (converted : (LocalBinds.mk pos implicitParams (front ++ b :: back) signatures).lower table =
      .ok ds)
    (first : ∀ c ∈ front, table.valueName c.name ≠ table.valueName b.name) :
    ∃ d, b.lower table (signatures.lookup b.name) = .ok d ∧ d.name = table.valueName b.name ∧
      (d.name ∉ d.free →
        (d.name ∈ (ds.foldr Definition.letIn body).free ↔
          ∃ c ∈ front, c.TakesName table (signatures.lookup c.name) d.name)) ∧
      (b.constant? = none → (d.name ∈ d.free ↔ d.name ∈ d.signatureFree)) := by
  obtain ⟨before, d, after, rfl, others, here⟩ := forall₂_split (LocalBinds.lower_parts converted)
  have name := Binding.name_of_lower here
  refine ⟨d, here, name, fun apart => ?_, fun function => ?_⟩
  · -- the definitions of the front have the target names of its bindings
    have outer : d.name ∉ before.map Definition.name := by
      rw [Binding.names_of_lowered others, name, List.map_map]
      intro taken
      obtain ⟨c, listed, same⟩ := List.mem_map.1 taken
      exact first c listed same
    rw [Definition.mem_free_nest_of_first outer, or_iff_left apart,
      Binding.exists_takesName_iff others]
  · rcases Binding.lower_body here with ⟨rhs, constant, -⟩ | ⟨-, bound⟩
    · rw [function] at constant
      cases constant
    · rw [Definition.mem_free, or_iff_left fun own => bound own.1]

end Groups

/-- A binding of a function of one argument, which it passes on. -/
def passingOn (f g : String) : Binding :=
  .mk {} f [.mk {} [.var {} "n"] (.mk [.mk {} [] (.app {} (.var {} g) (.var {} "n"))] .none)]

/-- Two functions that call each other, of which the second has a signature. -/
def evenOdd : LocalBinds :=
  .mk {} false [passingOn "even" "odd", passingOn "odd" "even"]
    [("odd", .arrow {} (.var {} "Int") (.var {} "Bool"))]

theorem evenOdd_names :
    ∃ ds, evenOdd.lower .initial = .ok ds ∧
      (ds.foldr Definition.letIn (.var "odd")).print =
        "let even := fun arg_0__ => odd arg_0__ in " ++
          "let odd : Z -> bool := fun arg_0__ => even arg_0__ in odd" ∧
      "even" ∉ (ds.foldr Definition.letIn (.var "odd")).free ∧
      "odd" ∈ (ds.foldr Definition.letIn (.var "odd")).free := by
  obtain ⟨d, hd, -, even, evenOwn⟩ := group_name_free_iff .initial {} false []
    [passingOn "odd" "even"] (passingOn "even" "odd") _ _ (.var "odd")
    (rfl : evenOdd.lower .initial = .ok _) (List.forall_mem_nil _)
  obtain ⟨e, he, -, odd, oddOwn⟩ := group_name_free_iff .initial {} false [passingOn "even" "odd"]
    [] (passingOn "odd" "even") _ _ (.var "odd")
    (rfl : evenOdd.lower .initial = .ok _) (List.forall_mem_singleton.2 (by decide))
  cases hd
  cases he
  have evenApart := mt (evenOwn rfl).1 (by decide)
  have oddApart := mt (oddOwn rfl).1 (by decide)
  refine ⟨_, rfl, rfl, mt (even evenApart).1 (by simp), (odd oddApart).2 ?_⟩
  exact ⟨_, List.mem_singleton_self _, _, rfl, by decide⟩

def forwardReference : LocalBinds :=
  .mk {} false
    [.mk {} "a" [.mk {} [] (.mk [.mk {} [] (.var {} "b")] .none)],
      .mk {} "b" [.mk {} [] (.mk [.mk {} [] (.literal {} (.int (some 1)))] .none)]] []

theorem forwardReference_escapes :
    ∃ ds, forwardReference.lower .initial = .ok ds ∧
      "b" ∈ forwardReference.names.map Table.initial.valueName ∧
      (ds.foldr Definition.letIn (.var "a")).print = "let a := b in let b := 1 in a" ∧
      "b" ∈ (ds.foldr Definition.letIn (.var "a")).free :=
  ⟨_, rfl, by decide, rfl, by decide⟩

end Surface

end Vernacular
