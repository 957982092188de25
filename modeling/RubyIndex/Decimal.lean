/-!
Numbers written with a point. Such a number stands for the double-precision number nearest to it,
which has 53 binary places. Of two that are equally near it is the one whose last place is even.
-/

namespace RubyIndex

structure Decimal where
  digits : Int
  places : Nat
  deriving DecidableEq, Repr, Inhabited

namespace Decimal

/-- Divides and rounds to the nearest whole number, a half to the even neighbour. -/
def roundDiv (n d : Nat) : Nat :=
  let twice := 2 * (n % d)
  if twice < d || (twice == d && n / d % 2 == 0) then n / d else n / d + 1

def floorLog (n d : Nat) : Int :=
  let e : Int := n.log2 - d.log2
  if d <<< e.toNat ≤ n <<< (-e).toNat then e else e - 1

/-- The exponent of the last place that a double near `n / d` has. It is never below -1074. -/
def lastPlace (n d : Nat) : Int := max (floorLog n d - 52) (-1074)

def wholeDouble? (n d : Nat) : Option Nat :=
  let place := lastPlace n d
  let places := roundDiv (n <<< (-place).toNat) (d <<< place.toNat)
  if places % (1 <<< (-place).toNat) = 0 then
    some (places <<< place.toNat >>> (-place).toNat)
  else none

def toWhole? (x : Decimal) : Option Int :=
  match wholeDouble? x.digits.natAbs (Nat.pow 10 x.places) with
  | some n => if n < 1 <<< 63 then some (x.digits.sign * n) else none
  | none => none

example : toWhole? ⟨-70, 1⟩ = some (-7) := by decide
example : toWhole? ⟨75, 1⟩ = none := by decide
example : toWhole? ⟨92233720368547750000, 1⟩ = some 9223372036854774784 := by decide
example : toWhole? ⟨92233720368547760000, 1⟩ = none := by decide

end Decimal

end RubyIndex
