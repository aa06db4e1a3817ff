import PackRpc.Binary.Arithmetic
import PackRpc.Proofs.Binary.Exact
/-!
# The order of floats

Rounding keeps the order of numbers, and patterns without a sign have the order of the numbers that they
stand for. So a product that is finite stays finite with smaller factors.
-/
namespace PackRpc.Binary

/-- A rounded quotient is at most half a unit off, and so far only if it is even. -/
theorem roundedQuotient_near {num den : Nat} (pos : 0 < den) {r : Nat} (rounded : roundedQuotient num den = r) :
    (2 * num < (2 * r + 1) * den ∨ (2 * num = (2 * r + 1) * den ∧ r % 2 = 0)) ∧
      (2 * (r * den) < 2 * num + den ∨ (2 * (r * den) = 2 * num + den ∧ r % 2 = 0)) := by
  have split := Nat.div_add_mod num den
  have small := Nat.mod_lt num pos
  unfold roundedQuotient at rounded
  dsimp only at rounded
  generalize num / den = q at *
  generalize num % den = rest at *
  have next : (q + 1) * den = den * q + den := by rw [Nat.add_mul, Nat.one_mul, Nat.mul_comm]
  have half : (2 * q + 1) * den = 2 * (den * q) + den := by rw [Nat.add_mul, Nat.one_mul, Nat.mul_assoc, Nat.mul_comm q]
  have more : (2 * (q + 1) + 1) * den = 2 * (den * q) + 3 * den := by
    rw [Nat.mul_add, Nat.add_assoc, Nat.add_mul, Nat.mul_assoc, Nat.mul_comm q]
  split at rounded
  · next up =>
    subst rounded
    rw [next, more]
    omega
  · next down =>
    subst rounded
    rw [half, Nat.mul_comm q]
    omega

/-- Rounding keeps the order of quotients. -/
theorem roundedQuotient_mono {num den num' den' : Nat} (pos : 0 < den) (pos' : 0 < den')
    (le : num * den' ≤ num' * den) : roundedQuotient num den ≤ roundedQuotient num' den' := by
  by_contra less
  generalize rounded : roundedQuotient num den = r at less
  generalize rounded' : roundedQuotient num' den' = r' at less
  obtain ⟨-, low⟩ := roundedQuotient_near pos rounded
  obtain ⟨high, -⟩ := roundedQuotient_near pos' rounded'
  -- Only in the middle between two units could the smaller quotient go up and the greater one down.
  have unit : 0 < den * den' := Nat.mul_pos pos pos'
  have strict (h : 2 * r * (den * den') < (2 * r' + 2) * (den * den')) : False := by
    have := Nat.lt_of_mul_lt_mul_right h
    omega
  rcases low with low | ⟨low, even⟩
  · have below := Nat.mul_lt_mul_of_pos_right low pos'
    rcases high with high | ⟨high, -⟩
    · have above := Nat.mul_lt_mul_of_pos_right high pos
      exact strict (by linarith)
    · have above := congrArg (· * den) high
      exact strict (by linarith)
  · have below := congrArg (· * den') low
    rcases high with high | ⟨high, even'⟩
    · have above := Nat.mul_lt_mul_of_pos_right high pos
      exact strict (by linarith)
    · have above := congrArg (· * den) high
      have next : 2 * r * (den * den') ≤ (2 * r' + 2) * (den * den') := by linarith
      have := Nat.le_of_mul_le_mul_right next unit
      omega

theorem le_roundedQuotient {num den bound : Nat} (pos : 0 < den) (h : bound * den ≤ num) :
    bound ≤ roundedQuotient num den := by
  have quotient : bound ≤ num / den := (Nat.le_div_iff_mul_le pos).mpr h
  unfold roundedQuotient
  dsimp only
  split <;> omega

section
variable {num den n : Nat} {k unit : Int}

theorem floorLog_bounds (num_pos : 0 < num) (den_pos : 0 < den) :
    (2 : ℚ) ^ floorLog num den ≤ num / den ∧ (num : ℚ) / den < 2 ^ (floorLog num den + 1) := by
  have ratio : (0 : ℚ) < (num : ℚ) / den := by positivity
  rw [floorLog_eq_log num_pos den_pos, ← le_log_iff ratio, ← log_lt_iff ratio]
  exact ⟨le_rfl, Int.lt_succ _⟩

/-- On a grid of units of `2 ^ unit` what is not above `2 ^ k` comes to as many units at most. -/
theorem rounded_le_pow (pos : 0 < den) (below : (num : ℚ) / den ≤ 2 ^ k) (fine : k ≤ unit + n) :
    roundedQuotient (num * 2 ^ (-unit).toNat) (den * 2 ^ unit.toNat) ≤ 2 ^ n := by
  have scaled : 0 < den * 2 ^ unit.toNat := Nat.mul_pos pos (Nat.two_pow_pos _)
  refine roundedQuotient_le scaled ((div_le_scaled pos Nat.two_pos unit).mp (below.trans ?_))
  rw [Nat.cast_pow, Nat.cast_ofNat, ← zpow_natCast, ← zpow_add₀ two_ne_zero_rat]
  exact zpow_le_zpow_right₀ (by norm_num) (by omega)

theorem pow_le_rounded (pos : 0 < den) (above : (2 : ℚ) ^ k ≤ num / den) (coarse : unit + n ≤ k) :
    2 ^ n ≤ roundedQuotient (num * 2 ^ (-unit).toNat) (den * 2 ^ unit.toNat) := by
  have scaled : 0 < den * 2 ^ unit.toNat := Nat.mul_pos pos (Nat.two_pow_pos _)
  refine le_roundedQuotient scaled ((scaled_le_div pos Nat.two_pos unit).mp (le_trans ?_ above))
  rw [Nat.cast_pow, Nat.cast_ofNat, ← zpow_natCast, ← zpow_add₀ two_ne_zero_rat]
  exact zpow_le_zpow_right₀ (by norm_num) (by omega)

theorem rounded_mono {num' den' : Nat} (pos : 0 < den) (pos' : 0 < den')
    (le : (num : ℚ) / den ≤ num' / den') (unit : Int) :
    roundedQuotient (num * 2 ^ (-unit).toNat) (den * 2 ^ unit.toNat) ≤
      roundedQuotient (num' * 2 ^ (-unit).toNat) (den' * 2 ^ unit.toNat) := by
  have cross : num * den' ≤ num' * den := by
    rw [div_le_div_iff₀ (by exact_mod_cast pos) (by exact_mod_cast pos')] at le
    exact_mod_cast le
  refine roundedQuotient_mono (Nat.mul_pos pos (Nat.two_pow_pos _)) (Nat.mul_pos pos' (Nat.two_pow_pos _)) ?_
  calc num * 2 ^ (-unit).toNat * (den' * 2 ^ unit.toNat)
      = num * den' * (2 ^ (-unit).toNat * 2 ^ unit.toNat) := by ring
    _ ≤ num' * den * (2 ^ (-unit).toNat * 2 ^ unit.toNat) := Nat.mul_le_mul_right _ cross
    _ = num' * 2 ^ (-unit).toNat * (den * 2 ^ unit.toNat) := by ring

end

namespace Format

theorem nearest_mono (f : Format) {num den num' den' : Nat} (pos : 0 < den) (pos' : 0 < den')
    (le : (num : ℚ) / den ≤ num' / den') : f.nearest num den ≤ f.nearest num' den' := by
  by_cases zero : num = 0
  · rw [nearest, if_pos zero]
    exact Nat.zero_le _
  · have num_pos : 0 < num := Nat.pos_of_ne_zero zero
    have num_pos' : 0 < num' := by
      refine Nat.pos_of_ne_zero fun none => ?_
      have ratio : (0 : ℚ) < (num : ℚ) / den := by positivity
      rw [none, Nat.cast_zero, zero_div] at le
      exact absurd le (not_le.mpr ratio)
    obtain ⟨low, high⟩ := floorLog_bounds num_pos pos
    obtain ⟨low', high'⟩ := floorLog_bounds num_pos' pos'
    have logs : floorLog num den < floorLog num' den' + 1 :=
      (zpow_lt_zpow_iff_right₀ one_lt_two).mp ((low.trans le).trans_lt high')
    rw [nearest, nearest, if_neg zero, if_neg num_pos'.ne']
    dsimp only
    refine min_le_min_right _ ?_
    generalize grid : max (floorLog num den - f.fractionBits) f.minExponent = unit
    generalize grid' : max (floorLog num' den' - f.fractionBits) f.minExponent = unit'
    rcases (show unit ≤ unit' by omega).eq_or_lt with rfl | finer
    · exact Nat.add_le_add_left (rounded_mono pos pos' le unit) _
    · -- On a coarser grid the greater number is at least a whole binade above.
      have units := rounded_le_pow (n := f.fractionBits + 1) pos high.le (by omega : _ ≤ unit + _)
      have units' := pow_le_rounded (n := f.fractionBits) pos' low' (by omega : unit' + _ ≤ _)
      have binades : (unit - f.minExponent).toNat + 1 ≤ (unit' - f.minExponent).toNat := by omega
      have steps := Nat.mul_le_mul_right (2 ^ f.fractionBits) binades
      rw [Nat.add_mul, Nat.one_mul] at steps
      rw [Nat.pow_succ] at units
      omega

/-- Every pattern without a sign is that of a canonical pair. -/
theorem exists_pair (f : Format) (bits : Nat) :
    ∃ u k, f.Canonical u k ∧ f.magnitude u k = bits := by
  have whole := Nat.div_add_mod bits (2 ^ f.fractionBits)
  have fraction := Nat.mod_lt bits (Nat.two_pow_pos f.fractionBits)
  generalize bits % 2 ^ f.fractionBits = r at whole fraction
  cases field : bits / 2 ^ f.fractionBits with
  | zero =>
      rw [field] at whole
      refine ⟨r, f.minExponent, ⟨by rw [Nat.pow_succ]; omega, le_rfl, .inl rfl⟩, ?_⟩
      rw [magnitude, Int.sub_self, Int.toNat_zero]
      omega
  | succ k =>
      rw [field, Nat.mul_succ] at whole
      refine ⟨r + 2 ^ f.fractionBits, f.minExponent + k,
        ⟨by rw [Nat.pow_succ]; omega, by omega, .inr (by omega)⟩, ?_⟩
      have steps : (f.minExponent + k - f.minExponent).toNat = k := by omega
      rw [magnitude, steps, Nat.mul_comm]
      omega

/-- Patterns without a sign are in the order of what they stand for. -/
theorem Canonical.value_mono {f : Format} {u v : Nat} {j k : Int} (h : f.Canonical u j) (h' : f.Canonical v k)
    (le : f.magnitude u j ≤ f.magnitude v k) : (u : ℚ) * 2 ^ j ≤ v * 2 ^ k := by
  have bound := h.lt
  have bound' := h'.lt
  have ge := h.ge
  have ge' := h'.ge
  rw [magnitude, magnitude] at le
  rw [Nat.pow_succ] at bound bound'
  rcases lt_trichotomy j k with finer | rfl | coarser
  · have full : 2 ^ f.fractionBits ≤ v := h'.full.resolve_left (by omega)
    have double : (u : ℚ) ≤ 2 * v := by
      have : u ≤ 2 * v := by omega
      exact_mod_cast this
    calc (u : ℚ) * 2 ^ j ≤ 2 * v * 2 ^ j := by gcongr
      _ = v * 2 ^ (j + 1) := by rw [zpow_add_one₀ two_ne_zero_rat]; ring
      _ ≤ v * 2 ^ k := by
        gcongr
        · norm_num
        · omega
  · have units : u ≤ v := by omega
    gcongr
  · exfalso
    have full : 2 ^ f.fractionBits ≤ u := h.full.resolve_left (by omega)
    have binades : (k - f.minExponent).toNat + 1 ≤ (j - f.minExponent).toNat := by omega
    have steps := Nat.mul_le_mul_right (2 ^ f.fractionBits) binades
    rw [Nat.add_mul, Nat.one_mul] at steps
    omega

end Format

end PackRpc.Binary

namespace PackRpc.Binary64
open Binary

theorem nearest_le (num den : Nat) : Format.double.nearest num den ≤ Format.double.infinityBits := by
  rw [Format.nearest]
  split
  · exact Nat.zero_le _
  · exact min_le_right _ _

theorem ofRatio_toNat (num den : Nat) :
    (ofRatio false num den).bits.toNat = Format.double.withSign false (Format.double.nearest num den) := by
  have word : Format.double.infinityBits < 2 ^ 64 := by decide
  have small := Nat.lt_of_le_of_lt (nearest_le num den) word
  rw [ofRatio, Format.withSign, if_neg Bool.false_ne_true]
  exact UInt64.toNat_ofNat_of_lt' small

theorem classify_ofRatio (num den : Nat) :
    (Format.double.nearest num den = Format.double.infinityBits ∧
      (ofRatio false num den).classify = .infinite false) ∨
    ∃ u k, Format.double.Canonical u k ∧ Format.double.magnitude u k = Format.double.nearest num den ∧
      Format.double.nearest num den < Format.double.infinityBits ∧
      (ofRatio false num den).classify = .finite false u k := by
  rw [classify, ofRatio_toNat]
  rcases (nearest_le num den).eq_or_lt with infinite | small
  · exact .inl ⟨infinite, by rw [infinite, Format.classify_infinity]⟩
  · obtain ⟨u, k, canonical, pattern⟩ := Format.exists_pair .double (Format.double.nearest num den)
    refine .inr ⟨u, k, canonical, pattern, small, ?_⟩
    rw [← pattern] at small ⊢
    exact Format.classify_withSign canonical small false

/-- What is below a ratio that is rounded to a finite number is so too. -/
theorem ofRatio_finite {num den num' den' : Nat} (pos : 0 < den) (pos' : 0 < den')
    (le : (num : ℚ) / den ≤ num' / den') (finite : (ofRatio false num' den').classify ≠ .infinite false) :
    (ofRatio false num den).classify ≠ .infinite false := by
  have order := Format.nearest_mono .double pos pos' le
  obtain ⟨-, infinite⟩ | ⟨_, _, _, _, below, -⟩ := classify_ofRatio num' den'
  · exact absurd infinite finite
  · obtain ⟨full, -⟩ | ⟨_, _, _, _, -, class_eq⟩ := classify_ofRatio num den
    · omega
    · rw [class_eq]
      exact Class.noConfusion

theorem ofInt_natCast (n : Nat) : ofInt n = ofRatio false n 1 := by
  rw [ofInt, decide_eq_false (by omega), Int.natAbs_natCast]

/-- A number below one that is rounded to a finite number is rounded to one that is not greater. -/
theorem classify_mono {a b : Nat} (le : a ≤ b) (finite : (ofRatio false b 1).classify ≠ .infinite false) :
    ∃ u v j k, (ofRatio false a 1).classify = .finite false u j ∧ (ofRatio false b 1).classify = .finite false v k ∧
      (u : ℚ) * 2 ^ j ≤ v * 2 ^ k := by
  have order : Format.double.nearest a 1 ≤ Format.double.nearest b 1 :=
    Format.nearest_mono _ Nat.one_pos Nat.one_pos (by gcongr)
  obtain ⟨-, infinite⟩ | ⟨v, k, canonical', pattern', small', class'⟩ := classify_ofRatio b 1
  · exact absurd infinite finite
  · obtain ⟨infinite, -⟩ | ⟨u, j, canonical, pattern, small, class_eq⟩ := classify_ofRatio a 1
    · omega
    · exact ⟨u, v, j, k, class_eq, class', canonical.value_mono canonical' (by omega)⟩

/-- A finite product of rounded numbers stays finite with smaller ones. -/
theorem mul_finite {a b m n : Nat} (le : a ≤ b) (le' : m ≤ n) (first : (ofInt b).classify ≠ .infinite false)
    (second : (ofRatio false n 1).classify ≠ .infinite false)
    (finite : ((ofInt b).mul (ofRatio false n 1)).classify ≠ .infinite false) :
    ((ofInt a).mul (ofRatio false m 1)).classify ≠ .infinite false := by
  rw [ofInt_natCast] at first finite ⊢
  obtain ⟨u, v, i, j, left, right, value⟩ := classify_mono le first
  obtain ⟨x, y, p, q, left', right', value'⟩ := classify_mono le' second
  rw [mul, right, right'] at finite
  rw [mul, left, left']
  dsimp only at finite ⊢
  rw [bne_self_eq_false] at finite ⊢
  refine ofRatio_finite (Nat.two_pow_pos _) (Nat.two_pow_pos _) ?_ finite
  rw [ratio_eq, ratio_eq, zpow_add₀ two_ne_zero_rat, zpow_add₀ two_ne_zero_rat]
  push_cast
  calc (u * x : ℚ) * (2 ^ i * 2 ^ p) = u * 2 ^ i * (x * 2 ^ p) := by ring
    _ ≤ v * 2 ^ j * (y * 2 ^ q) := by gcongr
    _ = v * y * (2 ^ j * 2 ^ q) := by ring

end PackRpc.Binary64
