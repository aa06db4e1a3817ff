import PackRpc.Binary.Basic

namespace PackRpc.Binary64
open Binary

def infinity (negative : Bool) : Binary64 :=
  ⟨.ofNat (Format.double.withSign negative Format.double.infinityBits)⟩

def zero (negative : Bool) : Binary64 :=
  ⟨.ofNat (Format.double.withSign negative 0)⟩

def mul (x y : Binary64) : Binary64 :=
  match x.classify, y.classify with
  | .finite a m p, .finite b n q =>
    ofRatio (a != b) (m * n * 2 ^ (p + q).toNat) (2 ^ (-(p + q)).toNat)
  | .infinite a, .infinite b => infinity (a != b)
  | .infinite a, .finite b n _ => if n = 0 then nan else infinity (a != b)
  | .finite a m _, .infinite b => if m = 0 then nan else infinity (a != b)
  | _, _ => nan

def div (x y : Binary64) : Binary64 :=
  match x.classify, y.classify with
  | .finite a m p, .finite b n q =>
    if n = 0 then
      if m = 0 then nan else infinity (a != b)
    else ofRatio (a != b) (m * 2 ^ (p - q).toNat) (n * 2 ^ (q - p).toNat)
  | .infinite a, .finite b _ _ => infinity (a != b)
  | .finite a _ _, .infinite b => zero (a != b)
  | _, _ => nan

/-- The correctly rounded sum; a sum of zero is negative only if both terms are. -/
def add (x y : Binary64) : Binary64 :=
  match x.classify, y.classify with
  | .finite a m p, .finite b n q =>
    let unit := min p q
    let left : Int := (m * 2 ^ (p - unit).toNat : Nat)
    let right : Int := (n * 2 ^ (q - unit).toNat : Nat)
    let sum := (if a then -left else left) + (if b then -right else right)
    if sum = 0 then zero (a && b)
    else ofRatio (sum < 0) (sum.natAbs * 2 ^ unit.toNat) (2 ^ (-unit).toNat)
  | .infinite a, .infinite b => if a == b then infinity a else nan
  | .infinite a, .finite .. => infinity a
  | .finite .., .infinite b => infinity b
  | _, _ => nan

end PackRpc.Binary64
