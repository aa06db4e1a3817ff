import PackRpc.Text.Integer
import Mathlib.Data.List.Basic

namespace PackRpc.Text

theorem toDigits_isDigit (n : Nat) : ∀ c ∈ Nat.toDigits 10 n, c.isDigit = true :=
  fun _ hc => Nat.isDigit_of_mem_toDigits (by decide) (by decide) hc

theorem toDigits_head {n : Nat} (positive : 0 < n) : ∀ c ∈ (Nat.toDigits 10 n).head?, c ≠ '0' := by
  induction n using Nat.strongRecOn with
  | ind n ih =>
      rw [Nat.toDigits_eq_if (by decide)]
      split
      · next small =>
        have each : ∀ d < 10, 0 < d → d.digitChar ≠ '0' := by decide
        rintro _ ⟨⟩
        exact each n small positive
      · next large =>
        intro c first
        refine ih (n / 10) (by omega) (by omega) c ?_
        rwa [List.head?_append_of_ne_nil _ Nat.toDigits_ne_nil] at first

/-- The decimal form of a number begins with a digit, which is no zero if the number is none. -/
theorem exists_toDigits (n : Nat) : ∃ c cs, Nat.toDigits 10 n = c :: cs ∧ (∀ d ∈ c :: cs, d.isDigit = true) ∧
    Nat.ofDigitChars 10 (c :: cs) 0 = n ∧ (0 < n → c ≠ '0') := by
  have digits := toDigits_isDigit n
  have value : Nat.ofDigitChars 10 (Nat.toDigits 10 n) 0 = n := Nat.ofDigitChars_ten_toDigits
  have head := toDigits_head (n := n)
  cases spelled : Nat.toDigits 10 n with
  | nil => exact absurd spelled Nat.toDigits_ne_nil
  | cons c cs =>
      rw [spelled] at digits value head
      exact ⟨c, cs, rfl, digits, value, fun positive => head positive c rfl⟩

theorem natural?_toDigits (n : Nat) : natural? (Nat.toDigits 10 n) = some n := by
  have digits : (Nat.toDigits 10 n).all Char.isDigit = true := List.all_eq_true.mpr (toDigits_isDigit n)
  have present : (Nat.toDigits 10 n).isEmpty = false := by simp [Nat.toDigits_ne_nil]
  rw [natural?, digits, present]
  exact congrArg some (Nat.ofDigitChars_eq_foldl.symm.trans Nat.ofDigitChars_ten_toDigits)

theorem toDigits_ne_cons {n : Nat} {c : Char} (sign : c.isDigit = false) (rest : List Char) :
    Nat.toDigits 10 n ≠ c :: rest := by
  intro digits
  have first : c ∈ Nat.toDigits 10 n := digits ▸ List.mem_cons_self
  rw [toDigits_isDigit n c first] at sign
  cases sign

theorem unsigned?_toString {bits n : Nat} (fits : n < 2 ^ bits) :
    unsigned? bits (toString n).toList = some n := by
  rw [Nat.toString_eq_ofList_toDigits, String.toList_ofList, unsigned?, natural?_toDigits]
  · exact if_pos (decide_eq_true fits)
  · exact toDigits_ne_cons (by decide)

theorem toList_toString (n : Int) :
    (toString n).toList = if n < 0 then '-' :: Nat.toDigits 10 n.natAbs else Nat.toDigits 10 n.natAbs := by
  rw [Int.toString_eq_repr, Int.repr_eq_if]
  by_cases negative : n < 0
  · have number : (-n).toNat = n.natAbs := by omega
    rw [if_neg (Int.not_le.mpr negative), if_pos negative, number]
    simp [Nat.repr_eq_ofList_toDigits]
  · have number : n.toNat = n.natAbs := by omega
    rw [if_pos (Int.not_lt.mp negative), if_neg negative, number]
    simp [Nat.repr_eq_ofList_toDigits]

theorem signed?_toString {bits : Nat} {n : Int} (low : -2 ^ (bits - 1) ≤ n) (high : n < 2 ^ (bits - 1)) :
    signed? bits (toString n).toList = some n := by
  have fits : decide (-2 ^ (bits - 1) ≤ n ∧ n < 2 ^ (bits - 1)) = true := decide_eq_true ⟨low, high⟩
  rw [toList_toString]
  by_cases negative : n < 0
  · have number : -(n.natAbs : Int) = n := by omega
    rw [if_pos negative, signed?, natural?_toDigits]
    change Option.filter _ (some (-(n.natAbs : Int))) = some n
    rw [number]
    exact if_pos fits
  · have number : Int.ofNat n.natAbs = n := Int.natAbs_of_nonneg (Int.not_lt.mp negative)
    rw [if_neg negative, signed?, natural?_toDigits, Option.map_some, number]
    · exact if_pos fits
    · exact toDigits_ne_cons (by decide)
    · exact toDigits_ne_cons (by decide)

theorem mem_toString {n : Int} {c : Char} (h : c ∈ (toString n).toList) : c = '-' ∨ c.isDigit = true := by
  have digit := toDigits_isDigit n.natAbs c
  rw [toList_toString] at h
  split at h
  · exact (List.mem_cons.mp h).imp_right digit
  · exact .inr (digit h)

theorem toString_ne_nil (n : Int) : (toString n).toList ≠ [] := by
  rw [toList_toString]
  split
  · exact List.cons_ne_nil _ _
  · exact Nat.toDigits_ne_nil

theorem toString_inj {m n : Int} (same : toString m = toString n) : m = n := by
  -- Both are read back in a width that holds them.
  have large : (m.natAbs + n.natAbs : Int) < 2 ^ (m.natAbs + n.natAbs) := mod_cast Nat.lt_two_pow_self
  have read (k : Int) (held : k.natAbs ≤ m.natAbs + n.natAbs) :
      signed? (m.natAbs + n.natAbs + 1) (toString k).toList = some k := by
    apply signed?_toString <;> rw [Nat.add_sub_cancel] <;> omega
  have first := read m (by omega)
  rw [same, read n (by omega)] at first
  exact (Option.some.inj first).symm

end PackRpc.Text
