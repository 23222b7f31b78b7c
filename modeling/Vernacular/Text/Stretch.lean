set_option autoImplicit false

namespace Vernacular.Text

/-- The code points `first`, `first + step`, and so on up to `last`. -/
structure Stretch where
  first : Nat
  last : Nat
  step : Nat

def Stretch.covers (s : Stretch) (c : Char) : Bool :=
  s.first ≤ c.toNat && c.toNat ≤ s.last && (c.toNat - s.first) % s.step == 0

end Vernacular.Text
