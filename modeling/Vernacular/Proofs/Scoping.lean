import Vernacular.Proofs.Conversion
import Vernacular.Proofs.FreeNames

set_option autoImplicit false

namespace Vernacular

namespace FunctionLiteral

variable {f : FunctionLiteral} {name : String}

theorem recursive_of_mem (h : name ∈ f.term.free) :
    f.recursive name = .fix name f.binders none f.body :=
  if_pos h

theorem recursive_of_not_mem (h : name ∉ f.term.free) : f.recursive name = .lam f.binders f.body :=
  if_neg h

end FunctionLiteral

namespace Surface

/-- Whether an equation takes a name from around it: as a constructor in a pattern, or free in the
right-hand side and not bound by a pattern. -/
def Equation.TakesName (table : Table) (x : String) : Equation → Prop
  | .mk _ ps rhs =>
    ∃ patterns body, Pattern.lowerAll table ps = .ok patterns ∧ rhs.lower table = .ok body ∧
      (x ∈ Vernacular.Pattern.constructorsAll patterns ∨
        x ∈ body.free ∧ x ∉ Vernacular.Pattern.boundAll patterns)

section Scoping

variable {table : Table} {qs : List Equation} {arms : List Arm} {x : String}

theorem Equation.LowersTo.takesName_iff {q : Equation} {a : Arm} (h : q.LowersTo table a) :
    q.TakesName table x ↔
      x ∈ Vernacular.Pattern.constructorsAll a.patterns ∨
        x ∈ a.body.free ∧ x ∉ Vernacular.Pattern.boundAll a.patterns := by
  obtain ⟨pos, ps, rhs⟩ := q
  obtain ⟨patterns, body⟩ := a
  constructor
  · rintro ⟨patterns', body', hps, hrhs, taken⟩
    obtain rfl : patterns = patterns' := Except.ok.inj (h.1.symm.trans hps)
    obtain rfl : body = body' := Except.ok.inj (h.2.symm.trans hrhs)
    exact taken
  · exact fun taken => ⟨patterns, body, h.1, h.2, taken⟩

theorem mem_freeArms_iff_takesName (h : List.Forall₂ (Equation.LowersTo table) qs arms) :
    x ∈ Term.freeArms arms ↔ ∃ q ∈ qs, q.TakesName table x := by
  rw [Term.mem_freeArms]
  induction h with
  | nil => simp
  | cons first _ ih =>
    rw [List.exists_mem_cons_iff, List.exists_mem_cons_iff, ih, first.takesName_iff]

theorem mem_free_function_iff (h : List.Forall₂ (Equation.LowersTo table) qs arms) :
    x ∈ (FunctionLiteral.ofArms arms).term.free ↔ ∃ q ∈ qs, q.TakesName table x :=
  FunctionLiteral.mem_free_ofArms.trans (mem_freeArms_iff_takesName h)

/-- A binding whose first equation has patterns is converted as a function. -/
theorem Binding.lower_function {signature : Option Ty} {pos : Position} {y : String}
    {d : Definition} (h : (Binding.mk pos y qs).lower table signature = .ok d)
    (first : ∃ q ∈ qs.head?, q.patterns ≠ []) :
    ∃ arms, List.Forall₂ (Equation.LowersTo table) qs arms ∧
      d.body = (FunctionLiteral.ofArms arms).recursive d.name := by
  obtain ⟨name, -, arms, each, body⟩ := Binding.lower_parts h
  refine ⟨arms, each, ?_⟩
  rcases body with rfl | ⟨-, body⟩
  · -- a single equation without patterns is converted as a constant
    have some := Equation.LowersTo.argumentsFor_ne_nil each first
    exact absurd rfl some
  · rwa [name]

end Scoping

/-- The free names of a converted function are those that its equations take from around them. A
definition by equations with patterns is a fixpoint if its own name is among these and a plain
function if not, and either way has all the others free. -/
theorem function_takes_names (table : Table) :
    (∀ qs arms, Equation.lowerAll table qs = .ok arms →
      ∀ x, x ∈ (FunctionLiteral.ofArms arms).term.free ↔ ∃ q ∈ qs, q.TakesName table x) ∧
    ∀ signature pos y qs d, (Binding.mk pos y qs).lower table signature = .ok d →
      (∃ q ∈ qs.head?, q.patterns ≠ []) →
        ((∃ bs ty t, d.body = .fix d.name bs ty t) ↔ ∃ q ∈ qs, q.TakesName table d.name) ∧
        ((∃ bs t, d.body = .lam bs t) ↔ ¬ ∃ q ∈ qs, q.TakesName table d.name) ∧
        ∀ x, x ∈ d.body.free ↔ (∃ q ∈ qs, q.TakesName table x) ∧ x ≠ d.name := by
  constructor
  · intro qs arms converted x
    exact mem_free_function_iff (Equation.lowersTo_of_lowerAll converted)
  · intro signature pos y qs d converted first
    obtain ⟨arms, each, body⟩ := Binding.lower_function converted first
    have names : ∀ x, x ∈ (FunctionLiteral.ofArms arms).term.free ↔
        ∃ q ∈ qs, q.TakesName table x := fun x => mem_free_function_iff each
    rw [body]
    refine ⟨?_, ?_, fun x => by rw [FunctionLiteral.mem_free_recursive, names]⟩
    · rw [← names]
      by_cases own : d.name ∈ (FunctionLiteral.ofArms arms).term.free
      · simp [FunctionLiteral.recursive_of_mem own, own]
      · simp [FunctionLiteral.recursive_of_not_mem own, own]
    · rw [← names]
      by_cases own : d.name ∈ (FunctionLiteral.ofArms arms).term.free
      · simp [FunctionLiteral.recursive_of_mem own, own]
      · simp [FunctionLiteral.recursive_of_not_mem own, own]

def unevenLoop : List Equation :=
  [.mk {} [.con {} "Just" .ordinary [.var {} "n"], .var {} "m"]
      (.mk [.mk {} [] (.app {} (.app {} (.var {} "loop") (.var {} "n")) (.var {} "more"))] .none),
    .mk {} [.var {} "more"] (.mk [.mk {} [] (.app {} (.var {} "stop") (.var {} "more"))] .none)]

theorem unevenLoop_takes_names :
    ∃ arms d, Equation.lowerAll .initial unevenLoop = .ok arms ∧
      (Binding.mk {} "loop" unevenLoop).lower .initial none = .ok d ∧
      (∀ x, x ∈ (FunctionLiteral.ofArms arms).term.free ↔ x ∈ ["Some", "loop", "more", "stop"]) ∧
      (∃ bs ty t, d.body = .fix "loop" bs ty t) ∧
      ∀ x, x ∈ d.body.free ↔ x ∈ ["Some", "more", "stop"] := by
  obtain ⟨function, definition⟩ := function_takes_names .initial
  have names : ∀ x, x ∈ ["Some", "loop", "more", "stop"] ↔
      ∃ q ∈ unevenLoop, q.TakesName .initial x := function unevenLoop _ rfl
  have first : ∃ q ∈ unevenLoop.head?, q.patterns ≠ [] := ⟨_, rfl, List.cons_ne_nil _ _⟩
  obtain ⟨fixed, -, free⟩ := definition none {} "loop" unevenLoop _ rfl first
  refine ⟨_, _, rfl, rfl, fun x => (function unevenLoop _ rfl x).trans (names x).symm,
    fixed.2 ((names "loop").1 (by decide)), fun x => ?_⟩
  rw [free, ← names]
  change x ∈ ["Some", "loop", "more", "stop"] ∧ x ≠ "loop" ↔ _
  simp only [List.mem_cons, List.not_mem_nil, or_false]
  constructor
  · rintro ⟨rfl | rfl | rfl | rfl, other⟩ <;> simp at other ⊢
  · rintro (rfl | rfl | rfl) <;> simp

end Surface

end Vernacular
