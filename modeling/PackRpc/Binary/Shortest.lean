import PackRpc.Binary.Basic
/-!
# Shortest decimals

The shortest decimal of a binary number is the decimal with the fewest digits among those that round
back to it, and the nearest of these. The decimals with `n` digits around a number form a grid; if any
point of a grid rounds back, one of the number's two neighbours on that grid does, so only those are
tried, for growing `n`. A number right in the middle between them needs a rule.
-/
namespace PackRpc.Binary

/-- Which of two decimals stands for a number that is as near to the one as to the other. -/
inductive Tie where
  | up
  | even
  deriving DecidableEq

def Tie.takesGreater (below : Nat) : Tie → Bool
  | up => true
  | even => below % 2 = 1

/-- `digits * 10 ^ exponent`. -/
structure Decimal where
  digits : Nat
  exponent : Int
  deriving DecidableEq

/-- The reals that round to a positive finite pattern, between `low / den` and `high / den` around
`mid / den`; the ends belong to it if `closed`. -/
structure Neighbourhood where
  low : Nat
  mid : Nat
  high : Nat
  den : Nat
  closed : Bool

/-- The neighbourhood of `m * 2 ^ e` in quarters of a unit: the gap below the least significand of a
binade is half as wide as the others, the lowest binade apart. -/
def Format.neighbourhood (f : Format) (m : Nat) (e : Int) : Neighbourhood :=
  let below := if m = 2 ^ f.fractionBits ∧ f.minExponent < e then 1 else 2
  let scale := 2 ^ (e - 2).toNat
  { low := (4 * m - below) * scale
    mid := 4 * m * scale
    high := (4 * m + 2) * scale
    den := 2 ^ (-(e - 2)).toNat
    closed := m % 2 = 0 }

namespace Neighbourhood

def contains (r : Neighbourhood) (d : Decimal) : Bool :=
  let x := d.digits * 10 ^ d.exponent.toNat * r.den
  let unit := 10 ^ (-d.exponent).toNat
  if r.closed then r.low * unit ≤ x && x ≤ r.high * unit
  else r.low * unit < x && x < r.high * unit

/-- The largest `k` with `10 ^ k ≤ mid / den`. -/
def leading (r : Neighbourhood) : Int :=
  let fits (k : Int) : Bool := 10 ^ k.toNat * r.den ≤ r.mid * 10 ^ (-k).toNat
  -- A power of two has this many decimal digits, up to one.
  let guess := (floorLog r.mid r.den) * 30103 / 100000
  if fits (guess + 1) then guess + 1 else if fits guess then guess else guess - 1

/-- The decimal with the given exponent nearest from below, and its successor. -/
def neighbours (r : Neighbourhood) (exponent : Int) : Decimal × Decimal :=
  let d := r.mid * 10 ^ (-exponent).toNat / (r.den * 10 ^ exponent.toNat)
  (⟨d, exponent⟩, ⟨d + 1, exponent⟩)

def distance (r : Neighbourhood) (d : Decimal) : Nat :=
  let x := d.digits * 10 ^ d.exponent.toNat * r.den
  let m := r.mid * 10 ^ (-d.exponent).toNat
  max x m - min x m

def nearer (r : Neighbourhood) (tie : Tie) (below above : Decimal) : Decimal :=
  match compare (r.distance above) (r.distance below) with
  | .lt => above
  | .eq => if tie.takesGreater below.digits then above else below
  | .gt => below

/-- The decimal of one grid that rounds back and is nearest to the middle, if any rounds back. -/
def onGrid (r : Neighbourhood) (tie : Tie) (exponent : Int) : Option Decimal :=
  let (below, above) := r.neighbours exponent
  match r.contains below, r.contains above with
  | true, true => some (r.nearer tie below above)
  | true, false => some below
  | false, true => some above
  | false, false => none

def search (r : Neighbourhood) (tie : Tie) (exponent : Int) : (tries : Nat) → Decimal
  | 0 => (r.neighbours exponent).1
  | tries + 1 => (r.onGrid tie exponent).getD (r.search tie (exponent - 1) tries)

end Neighbourhood

def Decimal.normalize (d : Decimal) : (fuel : Nat) → Decimal
  | 0 => d
  | fuel + 1 =>
    if d.digits % 10 = 0 ∧ d.digits ≠ 0 then normalize ⟨d.digits / 10, d.exponent + 1⟩ fuel else d

/-- The shortest decimal of `m * 2 ^ e`, for a positive `m`. Seventeen digits tell any two
double-precision numbers apart. -/
def Format.shortest (f : Format) (tie : Tie) (m : Nat) (e : Int) : Decimal :=
  let r := f.neighbourhood m e
  let d := r.search tie r.leading 17
  d.normalize 20

end PackRpc.Binary
