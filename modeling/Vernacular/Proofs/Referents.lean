import Vernacular.Sentence

/-!
What a name refers to in the term of a shorthand: a parameter hides the members of the block, and
these hide what the sentences in front have made known, of which the last counts.
-/

set_option autoImplicit false

namespace Vernacular

namespace Sentence

/-- The names that a sentence makes known to the sentences after it. -/
def declared : Sentence → List String
  | .block bodies shorthands =>
    bodies.flatMap (fun b => b.name :: b.constructors.map Constructor.name) ++
      shorthands.map Shorthand.name
  | .define d => [d.name]
  | .reserve name => [name]
  | .assume name _ => [name]
  | .missing | .arguments _ _ | .comment _ => []

/-- The place of the last sentence that makes a name known. -/
def declaredAt? (x : String) : List Sentence → Option Nat
  | [] => none
  | s :: text =>
    match declaredAt? x text with
    | some k => some (k + 1)
    | none => if s.declared.contains x then some 0 else none

theorem declaredAt?_eq_none {x : String} {text : List Sentence} :
    declaredAt? x text = none ↔ ∀ s ∈ text, x ∉ s.declared := by
  induction text with
  | nil => simp [declaredAt?]
  | cons s text ih =>
    rw [declaredAt?, List.forall_mem_cons, ← ih]
    cases declaredAt? x text with
    | some k => simp
    | none => simp

theorem declaredAt?_cons_eq_zero {x : String} {s : Sentence} {text : List Sentence} :
    declaredAt? x (s :: text) = some 0 ↔ x ∈ s.declared ∧ ∀ t ∈ text, x ∉ t.declared := by
  rw [declaredAt?, ← declaredAt?_eq_none]
  cases declaredAt? x text with
  | some k => simp
  | none => simp

end Sentence

inductive Referent where
  | param
  | member
  | sentence (place : Nat)
  | nothing
deriving DecidableEq

/-- What a name refers to behind a text, in a block with these members and under these
parameters. -/
def Referent.of (text : List Sentence) (members : List String) (params : List Binder) (x : String) :
    Referent :=
  if (params.map Binder.name).contains x then .param
  else if members.contains x then .member
  else
    match Sentence.declaredAt? x text with
    | some k => .sentence k
    | none => .nothing

theorem Referent.of_eq_sentence {text : List Sentence} {members : List String}
    {params : List Binder} {x : String} {k : Nat} :
    Referent.of text members params x = .sentence k ↔
      x ∉ params.map Binder.name ∧ x ∉ members ∧ Sentence.declaredAt? x text = some k := by
  rw [Referent.of]
  by_cases param : x ∈ params.map Binder.name
  · simp [param]
  · by_cases member : x ∈ members
    · simp [param, member]
    · cases h : Sentence.declaredAt? x text with
      | none => simp [param, member]
      | some j => simp [param, member]

/-- The argument that a definition gives back whose body is one of its explicit binders. -/
def Definition.returned (d : Definition) (args : List Term) : Option Term :=
  match d.body with
  | .var x => (((d.binders.filter (!·.implicit)).map Binder.name).zip args).lookup x
  | _ => none

def Term.splitLambda : Term → List Binder × Term
  | .lam binders body => (binders, body)
  | t => ([], t)

theorem Term.splitLambda_lambda_app (params : List Binder) (f : Term) (args : List Term) :
    (Term.lambda params (.app f args)).splitLambda = (params, .app f args) := by
  cases params <;> rfl

/-- The term of a shorthand in a block behind a text, after the head is unfolded by the definition
that it refers to. -/
def Shorthand.unfolded? (text : List Sentence) (members : List String) (s : Shorthand) :
    Option Term :=
  match s.term.splitLambda with
  | (params, .app (.var x) args) =>
    match Referent.of text members params x with
    | .sentence k =>
      match text[k]? with
      | some (.define d) => (d.returned args).map (Term.lambda params)
      | _ => none
    | _ => none
  | _ => none

def Sentence.members (bodies : List InductiveBody) (shorthands : List Shorthand) : List String :=
  bodies.map InductiveBody.name ++ shorthands.map Shorthand.name

end Vernacular
