import PackRpc.Binary.Format
/-!
# Floating-point numbers

Floating-point numbers are kept as their bit patterns: equality of patterns is equality of terms, and
the numeric comparison `same`, under which zeros are equal and a NaN differs from itself, is a
function of its own.
-/
namespace PackRpc

/-- A double-precision number, by its bits. -/
structure Binary64 where
  bits : UInt64
  deriving DecidableEq, Inhabited

structure Binary32 where
  bits : UInt32
  deriving DecidableEq, Inhabited

namespace Binary

def Class.same : Class → Class → Bool
  | .infinite a, .infinite b => a == b
  | .finite a m p, .finite b n q =>
    (m == 0 && n == 0) || (a == b && m * 2 ^ (p - q).toNat == n * 2 ^ (q - p).toNat)
  | _, _ => false

/-- The integer that a class denotes exactly, if it does. -/
def Class.toInt? : Class → Option Int
  | .finite negative m e =>
    let num := m * 2 ^ e.toNat
    let den := 2 ^ (-e).toNat
    if num % den = 0 then some (if negative then -(num / den : Nat) else (num / den : Nat)) else none
  | _ => none

end Binary

namespace Binary32

def classify (x : Binary32) : Binary.Class :=
  Binary.Format.single.classify x.bits.toNat

def isNaN (x : Binary32) : Bool := x.classify == .nan

def same (x y : Binary32) : Bool := x.classify.same y.classify

end Binary32

namespace Binary64

def classify (x : Binary64) : Binary.Class :=
  Binary.Format.double.classify x.bits.toNat

/-- The pattern that stands for every NaN an operation makes. -/
def nan : Binary64 := ⟨0x7ff8000000000000⟩

def isNaN (x : Binary64) : Bool := x.classify == .nan

def same (x y : Binary64) : Bool := x.classify.same y.classify

def toInt? (x : Binary64) : Option Int := x.classify.toInt?

/-- The pattern with the given sign nearest to `num / den`. -/
def ofRatio (negative : Bool) (num den : Nat) : Binary64 :=
  ⟨.ofNat (Binary.Format.double.withSign negative (Binary.Format.double.nearest num den))⟩

def ofInt (n : Int) : Binary64 := ofRatio (n < 0) n.natAbs 1

/-- Widening is exact; the payload of a NaN moves to the top of the fraction and is made quiet. -/
def ofBinary32 (x : Binary32) : Binary64 :=
  match x.classify with
  | .finite negative m e => ofRatio negative (m * 2 ^ e.toNat) (2 ^ (-e).toNat)
  | .infinite negative => ⟨.ofNat (Binary.Format.double.withSign negative Binary.Format.double.infinityBits)⟩
  | .nan =>
    let n := x.bits.toNat
    ⟨.ofNat (n / 2 ^ 31 * 2 ^ 63 + 0x7ff8000000000000 + n % 2 ^ 22 * 2 ^ 29)⟩

/-- The nearest single-precision number; the top of the payload of a NaN is kept and made quiet. -/
def toBinary32 (x : Binary64) : Binary32 :=
  let f := Binary.Format.single
  match x.classify with
  | .finite negative m e => ⟨.ofNat (f.withSign negative (f.nearest (m * 2 ^ e.toNat) (2 ^ (-e).toNat)))⟩
  | .infinite negative => ⟨.ofNat (f.withSign negative f.infinityBits)⟩
  | .nan =>
    let n := x.bits.toNat
    ⟨.ofNat (n / 2 ^ 63 * 2 ^ 31 + 0x7fc00000 + n / 2 ^ 29 % 2 ^ 22)⟩

end Binary64

end PackRpc
