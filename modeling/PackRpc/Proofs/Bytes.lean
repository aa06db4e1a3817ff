import PackRpc.Bytes
import Mathlib.Tactic.Ring

namespace PackRpc.Bytes

theorem foldl_digits (bytes : Bytes) (n : Nat) :
    bytes.foldl (fun n b => n * 256 + b.toNat) n = n * 256 ^ bytes.length + toNat bytes := by
  induction bytes generalizing n with
  | nil => simp [toNat]
  | cons b bytes ih =>
      simp only [toNat, List.foldl_cons, List.length_cons]
      rw [ih, ih (0 * 256 + b.toNat)]
      ring

@[simp] theorem toNat_nil : toNat [] = 0 := rfl

theorem toNat_cons (b : UInt8) (bytes : Bytes) :
    toNat (b :: bytes) = b.toNat * 256 ^ bytes.length + toNat bytes := by
  rw [toNat, List.foldl_cons, foldl_digits, Nat.zero_mul, Nat.zero_add]

@[simp] theorem toNat_singleton (b : UInt8) : toNat [b] = b.toNat := by
  simp [toNat_cons]

theorem toNat_byte {n : Nat} (h : n < 256) : (UInt8.ofNat n).toNat = n :=
  UInt8.toNat_ofNat_of_lt' h

theorem toNat_lt (bytes : Bytes) : toNat bytes < 256 ^ bytes.length := by
  induction bytes with
  | nil => simp
  | cons b bytes ih =>
      rw [toNat_cons, List.length_cons, Nat.pow_succ]
      have hb := b.toNat_lt
      have high : b.toNat * 256 ^ bytes.length ≤ 255 * 256 ^ bytes.length :=
        Nat.mul_le_mul_right _ (by omega)
      omega

theorem toNat_ofNat_mod (count n : Nat) : toNat (ofNat count n) = n % 256 ^ count := by
  induction count with
  | zero => simp [ofNat, Nat.mod_one]
  | succ count ih =>
      have digit : (UInt8.ofNat (n / 256 ^ count)).toNat = n / 256 ^ count % 256 := by simp
      rw [ofNat, toNat_cons, length_ofNat, ih, digit, Nat.pow_succ (n := 256), Nat.mod_mul]
      ring

/-- What is written in enough bytes is read back. -/
theorem toNat_ofNat {count n : Nat} (h : n < 256 ^ count) : toNat (ofNat count n) = n := by
  rw [toNat_ofNat_mod, Nat.mod_eq_of_lt h]

/-- A negative number is written as what it is above the least power of 256 that the bytes cannot
hold. -/
theorem toInt_ofNat_of_neg {count : Nat} {n : Int} (low : -(256 ^ count : Nat) ≤ 2 * n)
    (neg : n < 0) : toInt (ofNat count (n + (256 ^ count : Nat)).toNat) = n := by
  have small : (n + (256 ^ count : Nat)).toNat < 256 ^ count := by omega
  simp only [toInt, length_ofNat, toNat_ofNat small]
  rw [if_neg (by omega)]
  omega

theorem toText?_eq_some {data : Bytes} {text : String} :
    toText? data = some text ↔ data = ofText text := by
  constructor
  · intro h
    simp only [toText?, String.fromUTF8?] at h
    split at h
    · cases h
      simp [ofText, String.fromUTF8]
    · cases h
  · rintro rfl
    exact toText?_ofText text

/-- Of two fronts of the same bytes, the second holds all of the first or a part of it. -/
theorem within_or_part {front bytes whole : Bytes} (first : front <+: whole) (second : bytes <+: whole) :
    front <+: bytes ∨ ∃ missing, missing ≠ [] ∧ front = bytes ++ missing := by
  by_cases within : front <+: bytes
  · exact .inl within
  · obtain ⟨missing, split⟩ := (List.prefix_or_prefix_of_prefix first second).resolve_left within
    refine .inr ⟨missing, ?_, split.symm⟩
    rintro rfl
    rw [List.append_nil] at split
    exact within ⟨[], by rw [List.append_nil, split]⟩

end PackRpc.Bytes
