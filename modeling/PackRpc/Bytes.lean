import PackRpc.Power
/-!
# Byte strings

Byte strings are lists of octets, so that a parser is a function to the unread suffix and a writer a
function to the bytes it appends. Numbers travel with the most significant byte first.
-/
namespace PackRpc

abbrev Bytes := List UInt8

namespace Bytes

/-- The lowest `count` bytes of `n`, most significant first. -/
def ofNat : (count n : Nat) → Bytes
  | 0, _ => []
  | count + 1, n => UInt8.ofNat (n / 256 ^ count) :: ofNat count n

/-- The number that a byte string spells, most significant byte first. -/
def toNat (bytes : Bytes) : Nat :=
  bytes.foldl (fun n b => n * 256 + b.toNat) 0

/-- The two's complement reading of a byte string. -/
def toInt (bytes : Bytes) : Int :=
  let n := bytes.toNat
  if 2 * n < 256 ^ bytes.length then n else (n : Int) - (256 ^ bytes.length : Nat)

/-- The first `count` bytes and what follows them, when there are as many. -/
def split? (count : Nat) (bytes : Bytes) : Option (Bytes × Bytes) :=
  let front := bytes.take count
  if front.length = count then some (front, bytes.drop count) else none

def ofText (text : String) : Bytes :=
  text.toUTF8.data.toList

/-- The text that a byte string holds, if it is well-formed UTF-8. -/
def toText? (bytes : Bytes) : Option String :=
  String.fromUTF8? ⟨bytes.toArray⟩

@[simp] theorem length_ofNat (count n : Nat) : (ofNat count n).length = count := by
  induction count with
  | zero => rfl
  | succ count ih => simp [ofNat, ih]

@[simp] theorem toText?_ofText (text : String) : toText? (ofText text) = some text := by
  have h : (⟨(ofText text).toArray⟩ : ByteArray) = text.toUTF8 := by simp [ofText]
  unfold toText?
  rw [h, String.fromUTF8?]
  exact dif_pos text.isValidUTF8

theorem split?_append (front rest : Bytes) :
    split? front.length (front ++ rest) = some (front, rest) := by
  simp [split?]

theorem split?_eq_some {count : Nat} {bytes front rest : Bytes}
    (h : split? count bytes = some (front, rest)) :
    bytes = front ++ rest ∧ front.length = count := by
  unfold split? at h
  dsimp only at h
  split at h
  · next hc =>
    obtain ⟨rfl, rfl⟩ := Prod.mk.inj (Option.some.inj h)
    exact ⟨(List.take_append_drop count bytes).symm, hc⟩
  · cases h

end Bytes

end PackRpc
