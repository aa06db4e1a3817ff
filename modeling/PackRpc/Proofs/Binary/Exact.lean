import PackRpc.Binary.Basic
import Mathlib.Algebra.Order.Field.Power
import Mathlib.Algebra.Order.Floor.Semifield
import Mathlib.Data.Int.Log
import Mathlib.Data.Rat.Floor
import Mathlib.Tactic.GCongr
import Mathlib.Tactic.Positivity

namespace PackRpc.Binary

theorem two_ne_zero_rat : (2 : ℚ) ≠ 0 := by
  norm_num

theorem zpow_mul_pow {x : ℚ} (nonzero : x ≠ 0) (k : Int) : x ^ k * x ^ (-k).toNat = x ^ k.toNat := by
  rw [← zpow_natCast, ← zpow_natCast, ← zpow_add₀ nonzero]
  congr 1
  omega

section
variable {num den base bound : Nat}

theorem scaled_le_div (den_pos : 0 < den) (base_pos : 0 < base) (k : Int) :
    (bound : ℚ) * base ^ k ≤ num / den ↔ bound * (den * base ^ k.toNat) ≤ num * base ^ (-k).toNat := by
  have nonzero : (base : ℚ) ≠ 0 := Nat.cast_ne_zero.mpr base_pos.ne'
  have positive : (0 : ℚ) < den := by exact_mod_cast den_pos
  have power : (0 : ℚ) < base ^ (-k).toNat := by positivity
  rw [le_div_iff₀ positive, ← mul_le_mul_iff_left₀ power, mul_right_comm (_ * _), mul_assoc (bound : ℚ),
    zpow_mul_pow nonzero, mul_assoc, mul_comm _ (den : ℚ)]
  exact_mod_cast Iff.rfl

theorem div_le_scaled (den_pos : 0 < den) (base_pos : 0 < base) (k : Int) :
    (num : ℚ) / den ≤ bound * base ^ k ↔ num * base ^ (-k).toNat ≤ bound * (den * base ^ k.toNat) := by
  have nonzero : (base : ℚ) ≠ 0 := Nat.cast_ne_zero.mpr base_pos.ne'
  have positive : (0 : ℚ) < den := by exact_mod_cast den_pos
  have power : (0 : ℚ) < base ^ (-k).toNat := by positivity
  rw [div_le_iff₀ positive, ← mul_le_mul_iff_left₀ power, mul_right_comm (_ * _), mul_assoc (bound : ℚ),
    zpow_mul_pow nonzero, mul_assoc, mul_comm _ (den : ℚ)]
  exact_mod_cast Iff.rfl

theorem zpow_le_div (den_pos : 0 < den) (base_pos : 0 < base) (k : Int) :
    (base : ℚ) ^ k ≤ (num : ℚ) / den ↔ den * base ^ k.toNat ≤ num * base ^ (-k).toNat := by
  have unit : ((1 : Nat) : ℚ) * base ^ k ≤ num / den ↔ 1 * (den * base ^ k.toNat) ≤ num * base ^ (-k).toNat :=
    scaled_le_div den_pos base_pos k
  rwa [Nat.cast_one, one_mul, one_mul] at unit

end

/-- The quotient of the powers of two below two numbers is within a factor of two of that of the numbers. -/
theorem log_div_bounds {num den : Nat} (num_pos : 0 < num) (den_pos : 0 < den) :
    (2 : ℚ) ^ ((num.log2 : Int) - den.log2 - 1) ≤ (num : ℚ) / den ∧
      (num : ℚ) / den < 2 ^ ((num.log2 : Int) - den.log2 + 1) := by
  have positive : (0 : ℚ) < den := by exact_mod_cast den_pos
  have num_ge : (2 : ℚ) ^ num.log2 ≤ num := by exact_mod_cast Nat.log2_self_le num_pos.ne'
  have num_lt : (num : ℚ) < 2 ^ (num.log2 + 1) := by exact_mod_cast Nat.lt_log2_self
  have den_ge : (2 : ℚ) ^ den.log2 ≤ den := by exact_mod_cast Nat.log2_self_le den_pos.ne'
  have den_le : (den : ℚ) ≤ 2 ^ (den.log2 + 1) := by exact_mod_cast Nat.lt_log2_self.le
  constructor
  · rw [le_div_iff₀ positive]
    calc (2 : ℚ) ^ ((num.log2 : Int) - den.log2 - 1) * den
        ≤ 2 ^ ((num.log2 : Int) - den.log2 - 1) * 2 ^ (den.log2 + 1) := by gcongr
      _ = 2 ^ num.log2 := by
        rw [← zpow_natCast, ← zpow_natCast, ← zpow_add₀ two_ne_zero_rat]
        congr 1
        omega
      _ ≤ num := num_ge
  · rw [div_lt_iff₀ positive]
    calc (num : ℚ) < 2 ^ (num.log2 + 1) := num_lt
      _ = 2 ^ ((num.log2 : Int) - den.log2 + 1) * 2 ^ den.log2 := by
        rw [← zpow_natCast, ← zpow_natCast, ← zpow_add₀ two_ne_zero_rat]
        congr 1
        omega
      _ ≤ 2 ^ ((num.log2 : Int) - den.log2 + 1) * den := by gcongr

theorem le_log_iff {r : ℚ} (positive : 0 < r) (k : Int) : k ≤ Int.log 2 r ↔ (2 : ℚ) ^ k ≤ r := by
  have bound := Int.zpow_le_iff_le_log (b := 2) (by decide) positive (x := k)
  exact_mod_cast bound.symm

theorem log_lt_iff {r : ℚ} (positive : 0 < r) (k : Int) : Int.log 2 r < k ↔ r < (2 : ℚ) ^ k := by
  rw [← not_le, le_log_iff positive, not_le]

theorem floorLog_eq_log {num den : Nat} (num_pos : 0 < num) (den_pos : 0 < den) :
    floorLog num den = Int.log 2 ((num : ℚ) / den) := by
  have ratio : (0 : ℚ) < (num : ℚ) / den := by positivity
  obtain ⟨low, high⟩ := log_div_bounds num_pos den_pos
  rw [← le_log_iff ratio] at low
  rw [← log_lt_iff ratio] at high
  have power (k : Int) : (2 : ℚ) ^ k ≤ (num : ℚ) / den ↔ den * 2 ^ k.toNat ≤ num * 2 ^ (-k).toNat :=
    zpow_le_div den_pos Nat.two_pos k
  have here := (le_log_iff ratio _).trans (power ((num.log2 : Int) - den.log2))
  unfold floorLog
  dsimp only
  split
  · next le =>
      have := here.mpr le
      omega
  · next gt =>
      have := mt here.mp gt
      omega

theorem roundedQuotient_mul (u : Nat) {d : Nat} (pos : 0 < d) : roundedQuotient (u * d) d = u := by
  have quotient : u * d / d = u := Nat.mul_div_cancel u pos
  have rest : u * d % d = 0 := Nat.mul_mod_left u d
  unfold roundedQuotient
  rw [quotient, rest, if_neg (by omega)]

theorem roundedQuotient_le {num den bound : Nat} (pos : 0 < den) (h : num ≤ bound * den) :
    roundedQuotient num den ≤ bound := by
  have split := Nat.div_add_mod num den
  have small := Nat.mod_lt num pos
  have quotient : num / den ≤ bound := Nat.div_le_of_le_mul (by rwa [Nat.mul_comm])
  unfold roundedQuotient
  dsimp only
  split_ifs with up
  · -- A quotient that is at its bound leaves nothing to round.
    refine Nat.lt_of_le_of_ne quotient fun full => ?_
    rw [full, Nat.mul_comm den bound] at split
    omega
  · exact quotient

/-- A significand and an exponent as a pattern of the format has them. -/
structure Format.Canonical (f : Format) (u : Nat) (k : Int) : Prop where
  lt : u < 2 ^ (f.fractionBits + 1)
  ge : f.minExponent ≤ k
  full : k = f.minExponent ∨ 2 ^ f.fractionBits ≤ u

/-- The bits of a canonical pair without its sign. -/
def Format.magnitude (f : Format) (u : Nat) (k : Int) : Nat :=
  (k - f.minExponent).toNat * 2 ^ f.fractionBits + u

/-- Rounding leaves a canonical pair as it is. -/
theorem Format.nearest_canonical {f : Format} {num den u : Nat} {k : Int} (h : f.Canonical u k)
    (den_pos : 0 < den) (exact : (num : ℚ) / den = u * 2 ^ k) :
    f.nearest num den = min (f.magnitude u k) f.infinityBits := by
  have positive : (0 : ℚ) < den := by exact_mod_cast den_pos
  have power : (0 : ℚ) < 2 ^ k := by positivity
  rw [nearest]
  by_cases zero : num = 0
  · have none : u = 0 := by
      rw [zero, Nat.cast_zero, zero_div, zero_eq_mul] at exact
      exact_mod_cast exact.resolve_right power.ne'
    have least : k = f.minExponent := by
      refine h.full.resolve_right fun le => ?_
      rw [none] at le
      exact absurd (Nat.two_pow_pos f.fractionBits) (Nat.not_lt.mpr le)
    rw [if_pos zero, magnitude, none, least, Int.sub_self]
    simp
  · have num_pos : 0 < num := Nat.pos_of_ne_zero zero
    have ratio : (0 : ℚ) < (num : ℚ) / den := by positivity
    -- The grid of the rounding is that of the pair.
    have below : floorLog num den < k + f.fractionBits + 1 := by
      rw [floorLog_eq_log num_pos den_pos, log_lt_iff ratio, exact]
      have bound : (u : ℚ) < 2 ^ (f.fractionBits + 1) := by exact_mod_cast h.lt
      calc (u : ℚ) * 2 ^ k < 2 ^ (f.fractionBits + 1) * 2 ^ k := by gcongr
        _ = 2 ^ (k + f.fractionBits + 1) := by
          rw [← zpow_natCast, ← zpow_add₀ two_ne_zero_rat]
          congr 1
          omega
    have grid : max (floorLog num den - f.fractionBits) f.minExponent = k := by
      rcases h.full with least | full
      · omega
      · have above : k + f.fractionBits ≤ floorLog num den := by
          rw [floorLog_eq_log num_pos den_pos, le_log_iff ratio, exact]
          have bound : (2 : ℚ) ^ f.fractionBits ≤ u := by exact_mod_cast full
          calc (2 : ℚ) ^ (k + f.fractionBits) = 2 ^ f.fractionBits * 2 ^ k := by
                rw [← zpow_natCast, ← zpow_add₀ two_ne_zero_rat]
                congr 1
                omega
            _ ≤ u * 2 ^ k := by gcongr
        have := h.ge
        omega
    have units : num * 2 ^ (-k).toNat = u * (den * 2 ^ k.toNat) := by
      rw [div_eq_iff positive.ne'] at exact
      have scaled : (num : ℚ) * 2 ^ (-k).toNat = u * (den * 2 ^ k.toNat) := by
        rw [exact, ← zpow_mul_pow two_ne_zero_rat k, mul_right_comm (u : ℚ), mul_assoc, mul_assoc]
      exact_mod_cast scaled
    rw [if_neg zero, grid]
    dsimp only
    rw [units, roundedQuotient_mul u (Nat.mul_pos den_pos (Nat.two_pow_pos _)), magnitude]

theorem ratio_eq (m : Nat) (e : Int) :
    ((m * 2 ^ e.toNat : Nat) : ℚ) / (2 ^ (-e).toNat : Nat) = m * 2 ^ e := by
  have power : (0 : ℚ) < 2 ^ (-e).toNat := by positivity
  push_cast
  rw [div_eq_iff power.ne', mul_assoc, zpow_mul_pow two_ne_zero_rat]

namespace Format

theorem signBit_eq (f : Format) : f.signBit = 2 ^ f.fractionBits * 2 ^ f.exponentBits :=
  Nat.pow_add 2 f.fractionBits f.exponentBits

theorem withSign_fields (f : Format) (negative : Bool) {magnitude : Nat} (small : magnitude < f.signBit) :
    (f.withSign negative magnitude / f.signBit % 2 == 1) = negative ∧
      f.withSign negative magnitude / 2 ^ f.fractionBits % 2 ^ f.exponentBits =
        magnitude / 2 ^ f.fractionBits ∧
      f.withSign negative magnitude % 2 ^ f.fractionBits = magnitude % 2 ^ f.fractionBits := by
  have unit := Nat.two_pow_pos f.fractionBits
  have positive : 0 < f.signBit := Nat.two_pow_pos _
  have field : magnitude / 2 ^ f.fractionBits < 2 ^ f.exponentBits := by
    rw [Nat.div_lt_iff_lt_mul unit, Nat.mul_comm, ← signBit_eq]
    exact small
  cases negative with
  | false =>
      refine ⟨?_, Nat.mod_eq_of_lt field, rfl⟩
      rw [withSign, if_neg Bool.false_ne_true, Nat.div_eq_of_lt small]
      rfl
  | true =>
      rw [withSign, if_pos rfl]
      refine ⟨?_, ?_, ?_⟩
      · rw [Nat.add_div_left _ positive, Nat.div_eq_of_lt small]
        rfl
      · rw [signBit_eq, Nat.mul_add_div unit, Nat.add_mod_left, Nat.mod_eq_of_lt field]
      · rw [signBit_eq, Nat.mul_add_mod]

theorem fields_eq (f : Format) {bits : Nat} (small : bits < 2 * f.signBit) :
    bits = f.withSign (bits / f.signBit % 2 == 1)
      (bits / 2 ^ f.fractionBits % 2 ^ f.exponentBits * 2 ^ f.fractionBits + bits % 2 ^ f.fractionBits) := by
  have low := Nat.div_add_mod bits (2 ^ f.fractionBits)
  have high := Nat.div_add_mod (bits / 2 ^ f.fractionBits) (2 ^ f.exponentBits)
  rw [Nat.div_div_eq_div_mul, ← signBit_eq] at high
  have sign : bits / f.signBit < 2 := (Nat.div_lt_iff_lt_mul (Nat.two_pow_pos _)).mpr small
  rw [← high, Nat.mul_add, ← Nat.mul_assoc, ← signBit_eq] at low
  rw [Nat.mul_comm _ (2 ^ f.fractionBits), withSign]
  generalize bits / f.signBit = s at sign low
  obtain rfl | rfl : s = 0 ∨ s = 1 := by omega
  · rw [if_neg (by decide)]
    omega
  · rw [if_pos (by decide)]
    omega

theorem infinityBits_lt (f : Format) : f.infinityBits < f.signBit := by
  have unit := Nat.two_pow_pos f.fractionBits
  have fields := Nat.two_pow_pos f.exponentBits
  rw [infinityBits, signBit_eq, Nat.mul_comm (2 ^ f.fractionBits)]
  exact Nat.mul_lt_mul_of_pos_right (by omega) unit

/-- A finite pattern has a canonical pair and is put together from it. -/
theorem classify_eq_finite {f : Format} {bits m : Nat} {e : Int} {negative : Bool}
    (small : bits < 2 * f.signBit) (h : f.classify bits = .finite negative m e) :
    f.Canonical m e ∧ f.magnitude m e < f.infinityBits ∧ bits = f.withSign negative (f.magnitude m e) := by
  have whole := f.fields_eq small
  have unit := Nat.two_pow_pos f.fractionBits
  have fraction := Nat.mod_lt bits unit
  have field := Nat.mod_lt (bits / 2 ^ f.fractionBits) (Nat.two_pow_pos f.exponentBits)
  unfold classify at h
  dsimp only at h
  generalize bits / 2 ^ f.fractionBits % 2 ^ f.exponentBits = k at h whole field
  generalize bits % 2 ^ f.fractionBits = r at h whole fraction
  rw [infinityBits]
  split at h
  · split at h <;> cases h
  · next ordinary =>
    split at h
    · next least =>
      cases h
      subst least
      have some : 2 ^ f.fractionBits ≤ (2 ^ f.exponentBits - 1) * 2 ^ f.fractionBits :=
        Nat.le_mul_of_pos_left _ (by omega)
      have canonical : f.magnitude m f.minExponent = m := by
        rw [magnitude, Int.sub_self, Int.toNat_zero, Nat.zero_mul, Nat.zero_add]
      rw [canonical]
      refine ⟨⟨?_, le_rfl, .inl rfl⟩, Nat.lt_of_lt_of_le fraction some, ?_⟩
      · rw [Nat.pow_succ]
        omega
      · rwa [Nat.zero_mul, Nat.zero_add] at whole
    · next above =>
      cases h
      have canonical : f.magnitude (r + 2 ^ f.fractionBits) (f.minExponent + k - 1) =
          k * 2 ^ f.fractionBits + r := by
        have steps : (f.minExponent + k - 1 - f.minExponent).toNat = k - 1 := by omega
        obtain ⟨j, rfl⟩ := Nat.exists_eq_succ_of_ne_zero above
        rw [magnitude, steps, Nat.succ_sub_one, Nat.succ_mul]
        omega
      rw [canonical]
      have some : (k + 1) * 2 ^ f.fractionBits ≤ (2 ^ f.exponentBits - 1) * 2 ^ f.fractionBits :=
        Nat.mul_le_mul_right _ (by omega)
      rw [Nat.succ_mul] at some
      refine ⟨⟨?_, by omega, .inr (Nat.le_add_left _ _)⟩, by omega, whole⟩
      rw [Nat.pow_succ]
      omega

theorem classify_withSign {f : Format} {u : Nat} {k : Int} (h : f.Canonical u k)
    (small : f.magnitude u k < f.infinityBits) (negative : Bool) :
    f.classify (f.withSign negative (f.magnitude u k)) = .finite negative u k := by
  have unit := Nat.two_pow_pos f.fractionBits
  obtain ⟨sign, field, fraction⟩ :=
    f.withSign_fields negative (Nat.lt_trans small f.infinityBits_lt)
  unfold classify
  dsimp only
  rw [sign, field, fraction]
  have below : f.magnitude u k / 2 ^ f.fractionBits < 2 ^ f.exponentBits - 1 :=
    (Nat.div_lt_iff_lt_mul unit).mpr small
  rw [if_neg (Nat.ne_of_lt below)]
  have bound := h.lt
  rw [Nat.pow_succ] at bound
  by_cases full : 2 ^ f.fractionBits ≤ u
  · have split : f.magnitude u k =
        2 ^ f.fractionBits * ((k - f.minExponent).toNat + 1) + (u - 2 ^ f.fractionBits) := by
      rw [magnitude, Nat.mul_succ, Nat.mul_comm]
      omega
    have rest : u - 2 ^ f.fractionBits < 2 ^ f.fractionBits := by omega
    rw [split, Nat.mul_add_div unit, Nat.mul_add_mod, Nat.div_eq_of_lt rest, Nat.mod_eq_of_lt rest,
      if_neg (Nat.succ_ne_zero _)]
    have exponent : f.minExponent + (((k - f.minExponent).toNat + 1 : Nat) : Int) - 1 = k := by
      have := h.ge
      omega
    rw [Nat.add_zero, exponent, Nat.sub_add_cancel full]
  · have least := h.full.resolve_right full
    have canonical : f.magnitude u k = u := by
      rw [magnitude, least, Int.sub_self, Int.toNat_zero, Nat.zero_mul, Nat.zero_add]
    have rest := Nat.not_le.mp full
    rw [canonical, Nat.div_eq_of_lt rest, Nat.mod_eq_of_lt rest, if_pos rfl, least]

theorem classify_eq_infinite {f : Format} {bits : Nat} {negative : Bool} (small : bits < 2 * f.signBit)
    (h : f.classify bits = .infinite negative) : bits = f.withSign negative f.infinityBits := by
  have whole := f.fields_eq small
  unfold classify at h
  dsimp only at h
  split at h
  · next field =>
    split at h
    · next fraction =>
      cases h
      rwa [field, fraction, Nat.add_zero] at whole
    · cases h
  · split at h <;> cases h

theorem classify_infinity (f : Format) (negative : Bool) :
    f.classify (f.withSign negative f.infinityBits) = .infinite negative := by
  obtain ⟨sign, field, fraction⟩ := f.withSign_fields negative f.infinityBits_lt
  rw [infinityBits] at sign field fraction
  rw [Nat.mul_div_cancel _ (Nat.two_pow_pos _)] at field
  rw [Nat.mul_mod_left] at fraction
  unfold classify infinityBits
  dsimp only
  rw [sign, field, fraction, if_pos rfl, if_pos rfl]

end Format

/-- A single-precision number is a double-precision number: its significand is shifted until it is full. -/
theorem exists_double {m : Nat} {e : Int} (h : Format.single.Canonical m e)
    (small : Format.single.magnitude m e < Format.single.infinityBits) :
    ∃ u k, Format.double.Canonical u k ∧
      Format.double.magnitude u k < Format.double.infinityBits ∧ (m : ℚ) * 2 ^ e = u * 2 ^ k := by
  obtain ⟨lt, ge, -⟩ := h
  by_cases zero : m = 0
  · refine ⟨0, Format.double.minExponent, ⟨by decide, le_rfl, .inl rfl⟩, by decide, ?_⟩
    rw [zero, Nat.cast_zero, zero_mul, zero_mul]
  · have low : 2 ^ m.log2 ≤ m := Nat.log2_self_le zero
    have high : m < 2 ^ (m.log2 + 1) := Nat.lt_log2_self
    have short : m.log2 < 24 := (Nat.log2_lt zero).mpr lt
    have least : (-149 : Int) ≤ e := ge
    have greatest : e ≤ 105 := by
      have small : (e - -149).toNat * 2 ^ 23 + m < 255 * 2 ^ 23 := small
      omega
    have full : 2 ^ 52 ≤ m * 2 ^ (52 - m.log2) := by
      calc 2 ^ 52 = 2 ^ m.log2 * 2 ^ (52 - m.log2) := by rw [← Nat.pow_add]; congr 1; omega
        _ ≤ m * 2 ^ (52 - m.log2) := Nat.mul_le_mul_right _ low
    have bounded : m * 2 ^ (52 - m.log2) < 2 ^ 53 := by
      calc m * 2 ^ (52 - m.log2) < 2 ^ (m.log2 + 1) * 2 ^ (52 - m.log2) :=
            Nat.mul_lt_mul_of_pos_right high (Nat.two_pow_pos _)
        _ = 2 ^ 53 := by rw [← Nat.pow_add]; congr 1; omega
    refine ⟨m * 2 ^ (52 - m.log2), e - (52 - m.log2 : Nat), ⟨bounded, ?_, .inr full⟩, ?_, ?_⟩
    · have lowest : Format.double.minExponent = -1074 := by decide
      omega
    · have magnitude : Format.double.magnitude (m * 2 ^ (52 - m.log2)) (e - (52 - m.log2 : Nat)) =
          (e - (52 - m.log2 : Nat) - -1074).toNat * 2 ^ 52 + m * 2 ^ (52 - m.log2) := rfl
      have infinity : Format.double.infinityBits = 2047 * 2 ^ 52 := by decide
      omega
    · push_cast
      rw [mul_assoc, ← zpow_natCast, ← zpow_add₀ two_ne_zero_rat]
      congr 2
      omega

end PackRpc.Binary

namespace PackRpc.Binary64
open Binary

/-- Widening a number and narrowing it again gives it back. -/
theorem toBinary32_ofBinary32 {x : Binary32} (h : x.isNaN = false) : (ofBinary32 x).toBinary32 = x := by
  have bound : x.bits.toNat < 2 * Format.single.signBit := x.bits.toNat_lt
  have word : ∀ {negative : Bool} {magnitude : Nat}, magnitude < Format.double.signBit →
      (UInt64.ofNat (Format.double.withSign negative magnitude)).toNat =
        Format.double.withSign negative magnitude := by
    intro negative magnitude small
    have top : Format.double.signBit = 2 ^ 63 := rfl
    refine UInt64.toNat_ofNat_of_lt' (show _ < 2 ^ 64 from ?_)
    rw [Format.withSign]
    split <;> omega
  cases class_eq : x.classify with
  | nan =>
      rw [Binary32.isNaN, class_eq] at h
      cases h
  | infinite negative =>
      have bits := Format.classify_eq_infinite bound class_eq
      have wide : (ofBinary32 x).classify = .infinite negative := by
        rw [ofBinary32, class_eq, classify]
        dsimp only
        rw [word Format.double.infinityBits_lt, Format.classify_infinity]
      rw [toBinary32, wide]
      dsimp only
      rw [← bits, UInt32.ofNat_toNat]
  | finite negative m e =>
      obtain ⟨canonical, small, bits⟩ := Format.classify_eq_finite bound class_eq
      obtain ⟨u, k, wider, below, same⟩ := exists_double canonical small
      have wide : (ofBinary32 x).classify = .finite negative u k := by
        rw [ofBinary32, class_eq, classify]
        dsimp only
        rw [ofRatio, Format.nearest_canonical wider (Nat.two_pow_pos _) ((ratio_eq m e).trans same),
          Nat.min_eq_left below.le, word (Nat.lt_trans below Format.double.infinityBits_lt),
          Format.classify_withSign wider below]
      rw [toBinary32, wide]
      dsimp only
      rw [Format.nearest_canonical canonical (Nat.two_pow_pos _) ((ratio_eq u k).trans same.symm),
        Nat.min_eq_left small.le, ← bits, UInt32.ofNat_toNat]

end PackRpc.Binary64
