import PackRpc.Binary.Shortest
/-!
# Writing floating-point numbers

A `Numeral` says how a shortest decimal is laid out. Three layouts are in use: plain text never has an
exponent, JSON has one with a sign outside of `1e-5 … 1e16`, and the structural form has one without a
plus sign outside of `1e-4 … 1e16`.
-/
namespace PackRpc.Binary

/-- How a number is laid out. A leading digit at a power of ten from `least` to `greatest` is written
positionally, without bounds always. -/
structure Numeral where
  least : Option Int
  greatest : Option Int
  /-- Whether a whole number ends in `.0`. -/
  pointZero : Bool
  /-- What stands before a positive exponent. -/
  plus : String
  nan : String
  infinity : String
  /-- What becomes of a number in the middle between two shortest decimals. -/
  tie : Tie

/-- Plain text: `0.1`, `100`, `-0`. -/
def Numeral.plain : Numeral := ⟨none, none, false, "", "NaN", "inf", .up⟩

/-- JSON has no spelling for the numbers that are not finite. -/
def Numeral.json : Numeral := ⟨some (-5), some 15, true, "+", "null", "null", .even⟩

/-- The structural form: `1.0`, `1e16`, `1e-5`. -/
def Numeral.structural : Numeral := ⟨some (-4), some 15, true, "", "NaN", "inf", .up⟩

def zeros (n : Nat) : String := "".pushn '0' n

/-- The positional text of `digits * 10 ^ exponent`. -/
def Decimal.positional (d : Decimal) (pointZero : Bool) : String :=
  let text := toString d.digits
  if 0 ≤ d.exponent then
    text ++ zeros d.exponent.toNat ++ (if pointZero then ".0" else "")
  else
    let places := (-d.exponent).toNat
    let padded := (zeros (places + 1 - text.length)).toList ++ text.toList
    let whole := padded.take (padded.length - places)
    let fraction := padded.drop (padded.length - places)
    .ofList whole ++ "." ++ .ofList fraction

/-- The text of `digits * 10 ^ exponent` with one digit before the point. -/
def Decimal.scientific (d : Decimal) (plus : String) : String :=
  let text := (toString d.digits).toList
  let power := d.exponent + (text.length - 1 : Nat)
  let fraction := text.drop 1
  .ofList (text.take 1) ++ (if fraction.isEmpty then "" else "." ++ .ofList fraction) ++ "e" ++
    (if power < 0 then "" else plus) ++ toString power

def Numeral.decimal (n : Numeral) (d : Decimal) : String :=
  let power := d.exponent + ((toString d.digits).length - 1 : Nat)
  if d.digits = 0 ∨ (n.least.all (· ≤ power) ∧ n.greatest.all (power ≤ ·)) then
    d.positional n.pointZero
  else
    d.scientific n.plus

def Numeral.write (n : Numeral) (f : Format) : Class → String
  | .nan => n.nan
  | .infinite negative => (if negative then "-" else "") ++ n.infinity
  | .finite negative m e =>
    (if negative then "-" else "") ++ n.decimal (if m = 0 then ⟨0, 0⟩ else f.shortest n.tie m e)

end PackRpc.Binary

namespace PackRpc

def Binary64.write (x : Binary64) (n : Binary.Numeral) : String :=
  n.write .double x.classify

def Binary32.write (x : Binary32) (n : Binary.Numeral) : String :=
  n.write .single x.classify

end PackRpc
