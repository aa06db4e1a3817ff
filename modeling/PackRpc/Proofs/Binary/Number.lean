import PackRpc.Proofs.Binary.Exact

namespace PackRpc.Binary

/-- What a pattern stands for. -/
inductive Number where
  | infinite (negative : Bool)
  | finite (q : ℚ)
  deriving DecidableEq

def signed (negative : Bool) (magnitude : ℚ) : ℚ := if negative then -magnitude else magnitude

def Class.number? : Class → Option Number
  | .nan => none
  | .infinite negative => some (.infinite negative)
  | .finite negative m e => some (.finite (signed negative (m * 2 ^ e)))

theorem abs_signed (negative : Bool) {x : ℚ} (hx : 0 ≤ x) : |signed negative x| = x := by
  cases negative <;> simp [signed, abs_of_nonneg hx]

theorem eq_neg_iff_zero {x y : ℚ} (hx : 0 ≤ x) (hy : 0 ≤ y) : x = -y ↔ x = 0 ∧ y = 0 := by
  constructor
  · intro h
    exact ⟨by linarith, by linarith⟩
  · rintro ⟨rfl, rfl⟩
    rw [neg_zero]

/-- Zero has both signs, and every other number one. -/
theorem signed_eq_iff {a b : Bool} {x y : ℚ} (hx : 0 ≤ x) (hy : 0 ≤ y) :
    signed a x = signed b y ↔ (x = 0 ∧ y = 0) ∨ (a = b ∧ x = y) := by
  have both : x = 0 ∧ y = 0 → x = y := fun h => h.1.trans h.2.symm
  cases a <;> cases b
  · simpa [signed] using both
  · simpa [signed] using eq_neg_iff_zero hx hy
  · simpa [signed, neg_eq_iff_eq_neg] using eq_neg_iff_zero hx hy
  · simpa [signed] using both

/-- Significands that are moved to the lower exponent are equal when the numbers are. -/
theorem scaled_eq_iff (m n : Nat) (p q : Int) :
    m * 2 ^ (p - q).toNat = n * 2 ^ (q - p).toNat ↔ (m : ℚ) * 2 ^ p = n * 2 ^ q := by
  have shift : ∀ e d : Int, (2 : ℚ) ^ (e - d).toNat * 2 ^ min e d = 2 ^ e := by
    intro e d
    rw [← zpow_natCast, ← zpow_add₀ two_ne_zero_rat]
    congr 1
    omega
  have power : (2 : ℚ) ^ min p q ≠ 0 := zpow_ne_zero _ two_ne_zero_rat
  rw [← shift p q, ← shift q p, min_comm q p, ← mul_assoc, ← mul_assoc, mul_left_inj' power]
  exact_mod_cast Iff.rfl

theorem scaled_eq_zero {m : Nat} {e : Int} : (m : ℚ) * 2 ^ e = 0 ↔ m = 0 := by
  rw [mul_eq_zero, or_iff_left (zpow_ne_zero e two_ne_zero_rat), Nat.cast_eq_zero]

theorem scaled_nonneg (m : Nat) (e : Int) : 0 ≤ (m : ℚ) * 2 ^ e := by
  positivity

namespace Class

theorem same_iff (c d : Class) : c.same d = true ↔ c.number?.isSome = true ∧ c.number? = d.number? := by
  cases c with
  | nan => simp [same, number?]
  | infinite a => cases d <;> simp [same, number?]
  | finite a m p =>
      cases d with
      | nan | infinite b => simp [same, number?]
      | finite b n q =>
          have values := signed_eq_iff (a := a) (b := b) (scaled_nonneg m p) (scaled_nonneg n q)
          rw [scaled_eq_zero, scaled_eq_zero, ← scaled_eq_iff] at values
          simp only [same, number?, Bool.or_eq_true, Bool.and_eq_true, beq_iff_eq, Option.some.injEq,
            Option.isSome_some, true_and, Number.finite.injEq, values]

theorem toInt?_eq_some {c : Class} {n : Int} : c.toInt? = some n ↔ c.number? = some (.finite n) := by
  cases c with
  | nan => simp [toInt?, number?]
  | infinite a => simp [toInt?, number?]
  | finite a m e =>
      simp only [toInt?, number?, ← ratio_eq]
      have den_pos : 0 < 2 ^ (-e).toNat := Nat.two_pow_pos _
      generalize m * 2 ^ e.toNat = num
      generalize 2 ^ (-e).toNat = den at *
      have nonzero : (den : ℚ) ≠ 0 := Nat.cast_ne_zero.mpr den_pos.ne'
      by_cases whole : num % den = 0
      · obtain ⟨k, rfl⟩ := Nat.dvd_of_mod_eq_zero whole
        rw [if_pos whole, Nat.mul_div_cancel_left k den_pos, Nat.cast_mul, mul_div_cancel_left₀ _ nonzero]
        cases a <;> simp only [signed, Bool.false_eq_true, if_false, if_true, Option.some.injEq, Number.finite.injEq] <;>
          norm_cast
      · rw [if_neg whole]
        refine iff_of_false (by simp) fun h => whole ?_
        have value : signed a (num / den : ℚ) = n := by simpa using h
        have size : (num : ℚ) = n.natAbs * den := by
          rw [← div_eq_iff nonzero, Nat.cast_natAbs, Int.cast_abs, ← value, abs_signed]
          positivity
        have product : num = n.natAbs * den := by exact_mod_cast size
        rw [product, Nat.mul_mod_left]

end Class

end PackRpc.Binary
