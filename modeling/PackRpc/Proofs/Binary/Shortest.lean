import PackRpc.Binary.Shortest
import PackRpc.Proofs.Binary.Order

namespace PackRpc.Binary

def Decimal.value (d : Decimal) : ℚ := d.digits * 10 ^ d.exponent

theorem ten_ne_zero_rat : (10 : ℚ) ≠ 0 := by
  norm_num

/-- Whether the power of ten that is guessed from a power of two is off by one at most. -/
def guessesNear (l : Int) : Bool :=
  let g := l * 30103 / 100000
  2 ^ (-l).toNat * 10 ^ (g - 1).toNat ≤ 2 ^ l.toNat * 10 ^ (-(g - 1)).toNat &&
    2 ^ (l + 1).toNat * 10 ^ (-(g + 2)).toNat ≤ 2 ^ (-(l + 1)).toNat * 10 ^ (g + 2).toNat

theorem guessesNear_double {l : Int} (low : -1074 ≤ l) (high : l < 1024) : guessesNear l = true := by
  have all : (List.range 2098).all fun i => guessesNear ((i : Int) - 1074) := by decide +kernel
  have here := List.all_eq_true.mp all (l + 1074).toNat (List.mem_range.mpr (by omega))
  have place : ((l + 1074).toNat : Int) - 1074 = l := by omega
  rwa [place] at here

theorem ten_zpow_le_two_zpow (j k : Int) :
    (10 : ℚ) ^ j ≤ 2 ^ k ↔ 2 ^ (-k).toNat * 10 ^ j.toNat ≤ 2 ^ k.toNat * 10 ^ (-j).toNat := by
  have power := ratio_eq 1 k
  rw [Nat.one_mul, Nat.cast_one, one_mul] at power
  rw [← power]
  exact_mod_cast zpow_le_div (Nat.two_pow_pos _) (by decide : 0 < 10) j

theorem two_zpow_le_ten_zpow (j k : Int) :
    (2 : ℚ) ^ k ≤ 10 ^ j ↔ 2 ^ k.toNat * 10 ^ (-j).toNat ≤ 2 ^ (-k).toNat * 10 ^ j.toNat := by
  have power := ratio_eq 1 k
  rw [Nat.one_mul, Nat.cast_one, one_mul] at power
  have one : (10 : ℚ) ^ j = (1 : Nat) * ((10 : Nat) : ℚ) ^ j := by norm_num
  rw [← power, one, div_le_scaled (Nat.two_pow_pos _) (by decide) j, Nat.one_mul]

namespace Neighbourhood

variable {r : Neighbourhood}

/-- A neighbourhood around a positive number within the range of double precision. -/
structure Ranged (r : Neighbourhood) : Prop where
  low_pos : 0 < r.low
  mid_pos : 0 < r.mid
  den_pos : 0 < r.den
  least : -1074 ≤ floorLog r.mid r.den
  greatest : floorLog r.mid r.den < 1024
  below : r.mid ≤ r.high
  near : 2 * r.high ≤ 3 * r.mid

/-- The leading power of ten is the greatest one that is not above the middle. -/
theorem leading_spec (h : r.Ranged) :
    (10 : ℚ) ^ r.leading ≤ r.mid / r.den ∧ (r.mid / r.den : ℚ) < 10 ^ (r.leading + 1) := by
  have ratio : (0 : ℚ) < (r.mid : ℚ) / r.den := by
    have mid := h.mid_pos
    have den := h.den_pos
    positivity
  have fits (k : Int) : (10 : ℚ) ^ k ≤ r.mid / r.den ↔ r.den * 10 ^ k.toNat ≤ r.mid * 10 ^ (-k).toNat := by
    exact_mod_cast zpow_le_div h.den_pos (by decide : 0 < 10) k
  have near := guessesNear_double h.least h.greatest
  rw [guessesNear, Bool.and_eq_true, decide_eq_true_iff, decide_eq_true_iff, ← ten_zpow_le_two_zpow,
    ← two_zpow_le_ten_zpow] at near
  have low := (le_log_iff ratio _).mp (floorLog_eq_log h.mid_pos h.den_pos).le
  have high := (log_lt_iff ratio (floorLog r.mid r.den + 1)).mp (by rw [floorLog_eq_log h.mid_pos h.den_pos]; omega)
  unfold leading
  dsimp only
  generalize floorLog r.mid r.den * 30103 / 100000 = g at near
  simp only [decide_eq_true_eq, Nat.mul_comm (10 ^ _) r.den, ← fits]
  split
  · next above =>
    refine ⟨above, high.trans_le (near.2.trans_eq ?_)⟩
    congr 1
    omega
  · next above =>
    split
    · next here => exact ⟨here, not_le.mp above⟩
    · next here =>
      refine ⟨near.1.trans low, ?_⟩
      rw [Int.sub_add_cancel]
      exact not_le.mp here

/-- What is in the neighbourhood is a positive number and not above its end. -/
theorem contains_spec (h : r.Ranged) {d : Decimal} (inside : r.contains d = true) :
    0 < d.digits ∧ d.value ≤ r.high / r.den := by
  have bounds : r.low * 10 ^ (-d.exponent).toNat ≤ d.digits * 10 ^ d.exponent.toNat * r.den ∧
      d.digits * 10 ^ d.exponent.toNat * r.den ≤ r.high * 10 ^ (-d.exponent).toNat := by
    unfold contains at inside
    dsimp only at inside
    split at inside
    · simpa using inside
    · rw [Bool.and_eq_true, decide_eq_true_iff, decide_eq_true_iff] at inside
      exact ⟨inside.1.le, inside.2.le⟩
  have unit : 0 < 10 ^ (-d.exponent).toNat := Nat.pow_pos (by decide)
  constructor
  · rcases Nat.eq_zero_or_pos d.digits with none | some
    · have low := Nat.mul_pos h.low_pos unit
      rw [none, Nat.zero_mul, Nat.zero_mul] at bounds
      omega
    · exact some
  · have scaled : d.digits * (r.den * 10 ^ d.exponent.toNat) ≤ r.high * 10 ^ (-d.exponent).toNat := by
      rw [Nat.mul_comm r.den, ← Nat.mul_assoc]
      exact bounds.2
    exact_mod_cast (scaled_le_div h.den_pos (by decide : 0 < 10) d.exponent).mpr scaled

/-- The neighbour from below is not above the middle, and has digits from the leading power on. -/
theorem below_spec (h : r.Ranged) {exponent : Int} (low : exponent ≤ r.leading) :
    0 < (r.neighbours exponent).1.digits ∧ (r.neighbours exponent).1.value ≤ r.high / r.den := by
  have unit : 0 < r.den * 10 ^ exponent.toNat := Nat.mul_pos h.den_pos (Nat.pow_pos (by decide))
  have den : (0 : ℚ) < r.den := by exact_mod_cast h.den_pos
  constructor
  · have power : (10 : ℚ) ^ exponent ≤ r.mid / r.den :=
      (zpow_le_zpow_right₀ (by norm_num) low).trans (leading_spec h).1
    have scaled : r.den * 10 ^ exponent.toNat ≤ r.mid * 10 ^ (-exponent).toNat :=
      (zpow_le_div h.den_pos (by decide : 0 < 10) exponent).mp (by exact_mod_cast power)
    exact Nat.div_pos scaled unit
  · have scaled : (r.neighbours exponent).1.digits * (r.den * 10 ^ exponent.toNat) ≤
        r.mid * 10 ^ (-exponent).toNat := Nat.div_mul_le_self _ _
    have middle : (r.neighbours exponent).1.value ≤ r.mid / r.den := by
      exact_mod_cast (scaled_le_div h.den_pos (by decide : 0 < 10) exponent).mpr scaled
    refine middle.trans ?_
    have := h.below
    gcongr

theorem onGrid_spec {tie : Tie} {exponent : Int} {d : Decimal} (found : r.onGrid tie exponent = some d) :
    r.contains d = true ∧ d.exponent = exponent := by
  have places : (r.neighbours exponent).1.exponent = exponent ∧ (r.neighbours exponent).2.exponent = exponent :=
    ⟨rfl, rfl⟩
  unfold onGrid at found
  dsimp only at found
  split at found
  · next below above =>
    cases found
    unfold nearer
    split
    · exact ⟨above, places.2⟩
    · split
      · exact ⟨above, places.2⟩
      · exact ⟨below, places.1⟩
    · exact ⟨below, places.1⟩
  · next below _ =>
    cases found
    exact ⟨below, places.1⟩
  · next _ above =>
    cases found
    exact ⟨above, places.2⟩
  · cases found

theorem search_spec (h : r.Ranged) (tie : Tie) {exponent : Int} (low : exponent ≤ r.leading) (tries : Nat) :
    let d := r.search tie exponent tries
    0 < d.digits ∧ d.value ≤ r.high / r.den ∧ exponent - tries ≤ d.exponent := by
  induction tries generalizing exponent with
  | zero =>
      obtain ⟨some, bounded⟩ := below_spec h low
      exact ⟨some, bounded, by rw [Nat.cast_zero, Int.sub_zero]; exact le_rfl⟩
  | succ tries ih =>
      rw [search]
      cases found : r.onGrid tie exponent with
      | none =>
          obtain ⟨some, bounded, place⟩ := ih (by omega : exponent - 1 ≤ r.leading)
          exact ⟨some, bounded, by rw [Option.getD_none]; omega⟩
      | some d =>
          obtain ⟨inside, place⟩ := onGrid_spec found
          obtain ⟨some, bounded⟩ := contains_spec h inside
          exact ⟨some, bounded, by rw [Option.getD_some]; omega⟩

end Neighbourhood

/-- Without zeros at its end, a decimal stands for the same. -/
theorem Decimal.normalize_spec (d : Decimal) (fuel : Nat) :
    (d.normalize fuel).value = d.value ∧ (d.normalize fuel).digits ≤ d.digits ∧
      (0 < d.digits → 0 < (d.normalize fuel).digits) := by
  induction fuel generalizing d with
  | zero => exact ⟨rfl, le_rfl, id⟩
  | succ fuel ih =>
      rw [normalize]
      split
      · next zero =>
        obtain ⟨same, fewer, some⟩ := ih ⟨d.digits / 10, d.exponent + 1⟩
        have whole : d.digits = d.digits / 10 * 10 := by omega
        refine ⟨same.trans ?_, fewer.trans (Nat.div_le_self _ _), fun _ => some (by dsimp only; omega)⟩
        have cast : (d.digits : ℚ) = (d.digits / 10 : Nat) * 10 := by exact_mod_cast whole
        rw [value, value, cast, zpow_add_one₀ ten_ne_zero_rat]
        dsimp only
        ring
      · exact ⟨rfl, le_rfl, id⟩

theorem Format.Canonical.le_greatest {m : Nat} {e : Int} (h : Format.double.Canonical m e)
    (small : Format.double.magnitude m e < Format.double.infinityBits) : e ≤ 971 := by
  have pattern : (e - -1074).toNat * 2 ^ 52 + m < 2047 * 2 ^ 52 := small
  rcases h.full with least | full
  · have lowest : e = -1074 := least
    omega
  · have units : 2 ^ 52 ≤ m := full
    omega

theorem Format.neighbourhood_ranged {m : Nat} {e : Int} (positive : 0 < m) (h : Format.double.Canonical m e)
    (small : Format.double.magnitude m e < Format.double.infinityBits) :
    (Format.double.neighbourhood m e).Ranged := by
  have unit : 0 < 2 ^ (e - 2).toNat := Nat.two_pow_pos _
  have middle : ((Format.double.neighbourhood m e).mid : ℚ) / (Format.double.neighbourhood m e).den = m * 2 ^ e := by
    refine (ratio_eq (4 * m) (e - 2)).trans ?_
    rw [zpow_sub₀ two_ne_zero_rat]
    push_cast
    ring
  have mid_pos : 0 < (Format.double.neighbourhood m e).mid := Nat.mul_pos (by omega) unit
  have den_pos : 0 < (Format.double.neighbourhood m e).den := Nat.two_pow_pos _
  have ratio : (0 : ℚ) < m * 2 ^ e := by positivity
  have lt : m < 2 ^ 53 := h.lt
  have ge : -1074 ≤ e := h.ge
  have greatest : e ≤ 971 := h.le_greatest small
  have logs : floorLog (Format.double.neighbourhood m e).mid (Format.double.neighbourhood m e).den =
      Int.log 2 ((m : ℚ) * 2 ^ e) := by
    rw [floorLog_eq_log mid_pos den_pos, middle]
  refine ⟨Nat.mul_pos ?_ unit, mid_pos, den_pos, ?_, ?_, Nat.mul_le_mul_right _ (by omega), ?_⟩
  · split <;> omega
  · rw [logs, le_log_iff ratio]
    calc (2 : ℚ) ^ (-1074 : Int) ≤ 2 ^ e := zpow_le_zpow_right₀ (by norm_num) ge
      _ ≤ m * 2 ^ e := le_mul_of_one_le_left (by positivity) (by exact_mod_cast positive)
  · rw [logs, log_lt_iff ratio]
    calc (m : ℚ) * 2 ^ e < 2 ^ 53 * 2 ^ e := by
          gcongr
          exact_mod_cast lt
      _ ≤ 2 ^ 53 * 2 ^ (971 : Int) := by gcongr; norm_num
      _ = 2 ^ (1024 : Int) := by rw [← zpow_natCast, ← zpow_add₀ two_ne_zero_rat]; norm_num
  · change 2 * ((4 * m + 2) * 2 ^ (e - 2).toNat) ≤ 3 * (4 * m * 2 ^ (e - 2).toNat)
    rw [← Nat.mul_assoc, ← Nat.mul_assoc]
    exact Nat.mul_le_mul_right _ (by omega)

/-- A shortest decimal is positive, has at most nineteen digits and is not above what rounds to its number. -/
theorem Format.shortest_spec (tie : Tie) {m : Nat} {e : Int} (positive : 0 < m) (h : Format.double.Canonical m e)
    (small : Format.double.magnitude m e < Format.double.infinityBits) :
    0 < (Format.double.shortest tie m e).digits ∧ (Format.double.shortest tie m e).digits < 15 * 10 ^ 17 ∧
      (Format.double.shortest tie m e).value ≤ (4 * m + 2 : Nat) * 2 ^ (e - 2) := by
  have ranged := neighbourhood_ranged positive h small
  have high : ((Format.double.neighbourhood m e).high : ℚ) / (Format.double.neighbourhood m e).den =
      (4 * m + 2 : Nat) * 2 ^ (e - 2) := ratio_eq (4 * m + 2) (e - 2)
  rw [shortest]
  generalize Format.double.neighbourhood m e = r at ranged high
  obtain ⟨some, bounded, place⟩ := Neighbourhood.search_spec ranged tie le_rfl 17
  obtain ⟨same, fewer, kept⟩ := (r.search tie r.leading 17).normalize_spec 20
  refine ⟨kept some, Nat.lt_of_le_of_lt fewer ?_, same.trans_le (bounded.trans_eq high)⟩
  generalize r.search tie r.leading 17 = d at *
  have den : (0 : ℚ) < r.den := by exact_mod_cast ranged.den_pos
  have near : (r.high : ℚ) / r.den ≤ 3 / 2 * (r.mid / r.den) := by
    have cast : (2 : ℚ) * r.high ≤ 3 * r.mid := by exact_mod_cast ranged.near
    rw [← mul_div_assoc]
    gcongr
    linarith
  have unit : (0 : ℚ) < 10 ^ (r.leading - 17) := by positivity
  have digits : (d.digits : ℚ) * 10 ^ (r.leading - 17) < 15 * 10 ^ 17 * 10 ^ (r.leading - 17) := by
    calc (d.digits : ℚ) * 10 ^ (r.leading - 17) ≤ d.digits * 10 ^ d.exponent := by
          gcongr
          · norm_num
          · omega
      _ ≤ 3 / 2 * (r.mid / r.den) := bounded.trans near
      _ < 3 / 2 * 10 ^ (r.leading + 1) := by
        gcongr
        exact (Neighbourhood.leading_spec ranged).2
      _ = 15 * 10 ^ 17 * 10 ^ (r.leading - 17) := by
        rw [zpow_add₀ ten_ne_zero_rat, zpow_sub₀ ten_ne_zero_rat]
        norm_num
        ring
  exact_mod_cast lt_of_mul_lt_mul_right digits unit.le

end PackRpc.Binary
