import Vernacular.Surface.Declaration

set_option autoImplicit false

namespace Vernacular.Surface

namespace Value

def name (d : Value) : String :=
  d.binding.name

def lower (table : Table) (d : Value) : Except Fault Definition :=
  d.binding.lower table d.signature

end Value

/-- What to do with a value that has a fault: the sentences that replace it, or a failure. A
recovery may keep a state from one value to the next. -/
abbrev Recovery (σ : Type) := σ → Value → Fault → σ × Except Failure (List Sentence)

def Recovery.abort : Recovery Unit :=
  fun _ d f => ((), .error ((Failure.ofFault f).within ("converting " ++ d.name)))

/-- A comment with the fault, and an assumption of the value's name at every type. -/
def Value.stub (table : Table) (d : Value) (f : Fault) : List Sentence :=
  [.comment ("Translating `" ++ d.name ++ "' failed: " ++ f.message),
    .assume (table.valueName d.name) (.pi [.mk "a" (some .typeSort) true] (.var "a"))]

def Value.lowerAll {σ : Type} (table : Table) (recovery : Recovery σ) (s : σ) :
    List Value → σ × Except Failure (List Sentence)
  | [] => (s, .ok [])
  | d :: ds =>
    match d.lower table with
    | .ok definition =>
      let (final, rest) := Value.lowerAll table recovery s ds
      (final, rest.map (.define definition :: ·))
    | .error fault =>
      match recovery s d fault with
      | (next, .error failure) => (next, .error failure)
      | (next, .ok stub) =>
        let (final, rest) := Value.lowerAll table recovery next ds
        (final, rest.map (stub ++ ·))

end Vernacular.Surface
