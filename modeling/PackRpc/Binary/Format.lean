import PackRpc.Power
/-!
# Binary interchange formats

A floating-point format is given by the size of its significand and of its exponent field. `classify`
reads a bit pattern exactly, and `nearest` finds the pattern closest to a ratio of two natural
numbers, ties to the even pattern: every conversion of this library is one or two of these steps.
-/
namespace PackRpc.Binary

/-- A binary interchange format. `precision` counts the significand's bits, the hidden one included. -/
structure Format where
  precision : Nat
  exponentBits : Nat
  deriving DecidableEq

def Format.single : Format := ⟨24, 8⟩

def Format.double : Format := ⟨53, 11⟩

/-- What a bit pattern denotes: a finite pattern is `significand * 2 ^ exponent`, with a sign. -/
inductive Class where
  | nan
  | infinite (negative : Bool)
  | finite (negative : Bool) (significand : Nat) (exponent : Int)
  deriving DecidableEq

namespace Format

/-- The stored bits of a significand: all but the hidden one. -/
def fractionBits (f : Format) : Nat := f.precision - 1

/-- The exponent of the smallest positive number, which is also the finest grid of the format. -/
def minExponent (f : Format) : Int :=
  2 - (2 ^ (f.exponentBits - 1) : Nat) - f.fractionBits

def infinityBits (f : Format) : Nat :=
  (2 ^ f.exponentBits - 1) * 2 ^ f.fractionBits

def signBit (f : Format) : Nat :=
  2 ^ (f.fractionBits + f.exponentBits)

def withSign (f : Format) (negative : Bool) (magnitude : Nat) : Nat :=
  if negative then f.signBit + magnitude else magnitude

def classify (f : Format) (bits : Nat) : Class :=
  let negative := bits / f.signBit % 2 == 1
  let field := bits / 2 ^ f.fractionBits % 2 ^ f.exponentBits
  let fraction := bits % 2 ^ f.fractionBits
  if field = 2 ^ f.exponentBits - 1 then
    if fraction = 0 then .infinite negative else .nan
  else if field = 0 then
    .finite negative fraction f.minExponent
  else
    .finite negative (fraction + 2 ^ f.fractionBits) (f.minExponent + field - 1)

end Format

/-- The quotient of two natural numbers rounded to the nearest, a tie going to the even one. -/
def roundedQuotient (num den : Nat) : Nat :=
  let q := num / den
  let r := num % den
  if 2 * r > den ∨ (2 * r = den ∧ q % 2 = 1) then q + 1 else q

/-- The largest `k` with `2 ^ k ≤ num / den`, for positive arguments. -/
def floorLog (num den : Nat) : Int :=
  let k : Int := (Nat.log2 num : Int) - Nat.log2 den
  if den * 2 ^ k.toNat ≤ num * 2 ^ (-k).toNat then k else k - 1

/-- The magnitude bits nearest to `num / den`, ties to even; beyond the largest number, infinity. -/
def Format.nearest (f : Format) (num den : Nat) : Nat :=
  if num = 0 then 0
  else
    let unit := max (floorLog num den - f.fractionBits) f.minExponent
    let units := roundedQuotient (num * 2 ^ (-unit).toNat) (den * 2 ^ unit.toNat)
    min ((unit - f.minExponent).toNat * 2 ^ f.fractionBits + units) f.infinityBits

end PackRpc.Binary
