import PackRpc.Proofs.Binary.Shortest
import PackRpc.Proofs.Json.Number
import Mathlib.Data.List.TakeWhile
/-!
# Floats as they are written

The text of every finite float is read as a float: its digits fit in a word, and scaling them does not leave
the range. The greatest number but one leaves room for the rounding, and the greatest one is tried.
-/
namespace PackRpc.Json
open Binary

theorem scale_down (x : Binary64) {exponent : Int} (negative : exponent < 0) (steps : Nat) :
    ∃ y, scale x exponent steps = some y := by
  induction steps generalizing x exponent with
  | zero => exact ⟨_, rfl⟩
  | succ steps ih =>
      rw [scale]
      split
      · rw [if_neg (by omega)]
        exact ⟨_, rfl⟩
      · split
        · exact ⟨_, rfl⟩
        · rw [if_neg (by omega)]
          exact ih _ (by omega)

/-- The end of what rounds to the greatest number but one whose units are quarters of `2 ^ k`. -/
def lastEnd (k : Nat) : Nat := (2 ^ 55 - 6) * 2 ^ k

def greatestValue : Nat := lastEnd 969

theorem greatestValue_lt : greatestValue < 10 ^ 309 := by
  decide +kernel

/-- The greatest word that is scaled by a power of ten, but for the greatest number. -/
def greatestScaled (k : Nat) : Nat := min (greatestValue / 10 ^ k) (15 * 10 ^ 17)

/-- Whether the greatest word stays finite when it is scaled. -/
def staysFinite (k : Nat) : Bool :=
  let x := Binary64.ofInt (greatestScaled k)
  (powerOfTen k).classify matches .finite false _ _ &&
    (x.classify != .infinite false && (x.mul (powerOfTen k)).classify != .infinite false)

theorem staysFinite_powers {k : Nat} (ge : 290 ≤ k) (le : k ≤ 308) : staysFinite k = true := by
  have all : (List.range 19).all (fun i => staysFinite (290 + i)) := by decide +kernel
  rw [← Nat.add_sub_cancel' ge]
  exact List.all_eq_true.mp all (k - 290) (List.mem_range.mpr (by omega))

theorem greatestScaled_first : greatestScaled 290 = 15 * 10 ^ 17 := by
  decide +kernel

theorem scale_up {word k : Nat} (fits : word ≤ greatestScaled k) (small : k ≤ 308) (steps : Nat) :
    ∃ y, scale (.ofInt word) k (steps + 1) = some y := by
  -- Every word is small enough for the power of 290, which is above those before it.
  obtain ⟨n, below, ge, le, fits⟩ : ∃ n, k ≤ n ∧ 290 ≤ n ∧ n ≤ 308 ∧ word ≤ greatestScaled n := by
    rcases Nat.le_total k 290 with low | high
    · refine ⟨290, low, le_rfl, by decide, ?_⟩
      rw [greatestScaled_first]
      exact fits.trans (Nat.min_le_right _ _)
    · exact ⟨k, le_rfl, high, small, fits⟩
  have finite := staysFinite_powers ge le
  rw [staysFinite, Bool.and_eq_true, Bool.and_eq_true] at finite
  obtain ⟨power, word_finite, product_finite⟩ := finite
  have power_finite : (powerOfTen n).classify ≠ .infinite false := by
    intro infinite
    rw [infinite] at power
    cases power
  have product := Binary64.mul_finite fits (Nat.pow_le_pow_right (by decide) below) (bne_iff_ne.mp word_finite)
    power_finite (bne_iff_ne.mp product_finite)
  rw [scale, Int.natAbs_natCast, if_pos small, if_pos (by omega)]
  exact ⟨_, if_neg product⟩

theorem end_le_lastEnd {m : Nat} {e : Int} (k : Nat) (lt : m < 2 ^ 53) (exponent : e ≤ k + 2)
    (other : ¬(m = 2 ^ 53 - 1 ∧ e = k + 2)) :
    ((4 * m + 2 : Nat) : ℚ) * 2 ^ (e - 2) ≤ lastEnd k := by
  rw [lastEnd, Nat.cast_mul, Nat.cast_pow, Nat.cast_ofNat, ← zpow_natCast]
  rcases exponent.eq_or_lt with rfl | lower
  · have units : 4 * m + 2 ≤ 2 ^ 55 - 6 := by omega
    rw [Int.add_sub_cancel]
    exact mul_le_mul_of_nonneg_right (by exact_mod_cast units) (by positivity)
  · have units : 4 * m + 2 ≤ (2 ^ 55 - 6) * 2 := by omega
    have power : (2 : ℚ) ^ (e - 2) ≤ 2 ^ ((k : Int) - 1) := zpow_le_zpow_right₀ (by norm_num) (by omega)
    calc ((4 * m + 2 : Nat) : ℚ) * 2 ^ (e - 2) ≤ ((2 ^ 55 - 6) * 2 : Nat) * 2 ^ ((k : Int) - 1) :=
          mul_le_mul (by exact_mod_cast units) power (by positivity) (by positivity)
      _ = (2 ^ 55 - 6 : Nat) * 2 ^ (k : Int) := by
        rw [Nat.cast_mul, mul_assoc, Nat.cast_ofNat, ← zpow_one_add₀ two_ne_zero_rat]
        congr 2
        omega

/-- The digits of a decimal up to the end of the greatest number but one are scaled to a number. -/
theorem scaled_decimal (negative : Bool) {d : Decimal} (positive : 0 < d.digits) (short : d.digits < 15 * 10 ^ 17)
    (bounded : d.value ≤ greatestValue) :
    d.exponent ≤ 308 ∧ ∃ y, scaled negative d.digits d.exponent = .ok y := by
  suffices made : d.exponent ≤ 308 ∧ ∃ y, scale (.ofInt d.digits) d.exponent 5 = some y by
    obtain ⟨small, y, made⟩ := made
    exact ⟨small, _, by rw [scaled, made]⟩
  by_cases down : d.exponent < 0
  · exact ⟨by omega, scale_down _ down 5⟩
  · obtain ⟨k, exponent⟩ : ∃ k : Nat, d.exponent = k := ⟨d.exponent.toNat, by omega⟩
    have value : d.digits * 10 ^ k ≤ greatestValue := by
      have cast : (d.digits : ℚ) * 10 ^ k ≤ greatestValue := by
        refine le_trans (le_of_eq ?_) bounded
        rw [Decimal.value, exponent, zpow_natCast]
      exact_mod_cast cast
    have small : k ≤ 308 := by
      -- One digit alone would pass the end.
      by_contra large
      have power := Nat.pow_le_pow_right (by decide : 0 < 10) (by omega : 309 ≤ k)
      have whole : 10 ^ k ≤ d.digits * 10 ^ k := Nat.le_mul_of_pos_left _ positive
      exact absurd (power.trans (whole.trans value)) (Nat.not_le.mpr greatestValue_lt)
    have word : d.digits ≤ greatestScaled k :=
      Nat.le_min.mpr ⟨(Nat.le_div_iff_mul_le (Nat.pow_pos (by decide))).mpr value, short.le⟩
    rw [exponent]
    exact ⟨by omega, scale_up word small 4⟩

/-! ## Texts -/

section
variable {negative : Bool} {c : Char} {cs fraction rest : List Char} {word : Nat} {shift : Int}

theorem afterDigits_other (other : c.isDigit = false) (goes_on : c = '.' ∨ c = 'e' ∨ c = 'E') (zero : Bool) :
    afterDigits negative zero word (c :: cs) =
      (afterWhole negative word 0 (c :: cs)).map fun r => (.float r.1, r.2) := by
  rw [afterDigits, if_neg (by rw [other]; exact Bool.false_ne_true), if_pos goes_on]

theorem number_whole (digits : ∀ d ∈ c :: cs, d.isDigit = true) (leading : c ≠ '0' ∨ cs = [])
    (fits : Nat.ofDigitChars 10 (c :: cs) 0 ≤ greatestWord) {d : Char} (goes_on : d = '.' ∨ d = 'e' ∨ d = 'E') :
    number negative (c :: cs ++ d :: rest) =
      (afterWhole negative (Nat.ofDigitChars 10 (c :: cs) 0) 0 (d :: rest)).map fun r => (.float r.1, r.2) := by
  obtain ⟨first, others⟩ := List.forall_mem_cons.mp digits
  have other : d.isDigit = false := by rcases goes_on with rfl | rfl | rfl <;> rfl
  rw [List.cons_append, number, if_neg (by rw [first]; decide)]
  by_cases zero : c = '0'
  · obtain rfl : cs = [] := leading.resolve_left (not_not_intro zero)
    subst zero
    exact afterDigits_other other goes_on true
  · rw [Nat.ofDigitChars_cons, Nat.mul_zero, Nat.zero_add] at fits ⊢
    have taken : gather (digit c) 0 (cs ++ d :: rest) = _ :=
      gather_digits others (by rintro _ ⟨⟩; exact other) fits
    rw [if_neg zero, taken]
    exact afterDigits_other other goes_on false

theorem fractionPart_digits (digits : ∀ d ∈ fraction, d.isDigit = true) (some : fraction ≠ [])
    (stops : ∀ d ∈ rest.head?, d.isDigit = false) (fits : Nat.ofDigitChars 10 fraction word ≤ greatestWord) :
    fractionPart negative word shift (fraction ++ rest) =
      finish negative (Nat.ofDigitChars 10 fraction word) (shift - fraction.length) rest := by
  have count : 0 + fraction.length ≠ 0 := by
    have := List.length_pos_iff.mpr some
    omega
  rw [fractionPart, gather_digits digits stops fits]
  dsimp only
  rw [Nat.zero_add] at count ⊢
  cases rest with
  | nil => exact if_neg count
  | cons d rest =>
      dsimp only
      rw [if_neg (by rw [stops d rfl]; exact Bool.false_ne_true), if_neg count]

/-- A number with a point: its digits make up the word, and those behind the point scale it down. -/
theorem number_point (negative : Bool) (rest : List Char) (digits : ∀ d ∈ c :: cs ++ fraction, d.isDigit = true)
    (leading : c ≠ '0' ∨ cs = []) (some : fraction ≠ [])
    (fits : Nat.ofDigitChars 10 (c :: cs ++ fraction) 0 ≤ greatestWord)
    (stops : ∀ d ∈ rest.head?, d.isDigit = false) :
    number negative (c :: cs ++ '.' :: (fraction ++ rest)) =
      (finish negative (Nat.ofDigitChars 10 (c :: cs ++ fraction) 0) (-fraction.length) rest).map
        fun r => (.float r.1, r.2) := by
  obtain ⟨before, after⟩ := List.forall_mem_append.mp digits
  rw [Nat.ofDigitChars_append] at fits ⊢
  rw [number_whole before leading ((le_ofDigitChars _ _).trans fits) (.inl rfl), afterWhole,
    fractionPart_digits after some stops fits, Int.zero_sub]

end

theorem zeros_toList (n : Nat) : (zeros n).toList = List.replicate n '0' := by
  have pushed (s : String) : (s.pushn '0' n).toList = s.toList ++ List.replicate n '0' := by
    induction n with
    | zero => simp [String.pushn, Nat.repeat]
    | succ n ih =>
        rw [List.replicate_succ', ← List.append_assoc, ← ih]
        simp [String.pushn, Nat.repeat]
  exact pushed ""

theorem ofDigitChars_lt {cs : List Char} (digits : ∀ c ∈ cs, c.isDigit = true) (word : Nat) :
    Nat.ofDigitChars 10 cs word < (word + 1) * 10 ^ cs.length := by
  induction cs generalizing word with
  | nil => simp [Nat.ofDigitChars]
  | cons c cs ih =>
      obtain ⟨first, others⟩ := List.forall_mem_cons.mp digits
      have small : c.toNat - '0'.toNat < 10 := by
        rw [Char.isDigit, Bool.and_eq_true, decide_eq_true_iff, decide_eq_true_iff] at first
        have : c.toNat ≤ '9'.toNat := first.2
        have : '9'.toNat = '0'.toNat + 9 := rfl
        omega
      rw [Nat.ofDigitChars_cons]
      refine (ih others _).trans_le ?_
      rw [List.length_cons, Nat.pow_succ, Nat.mul_comm (10 ^ _), ← Nat.mul_assoc]
      exact Nat.mul_le_mul_right _ (by omega)

theorem finish_down (negative : Bool) (word : Nat) {shift : Int} (down : shift < 0) :
    ∃ y, finish negative word shift [] = .ok (y, []) := by
  obtain ⟨y, made⟩ := scale_down (.ofInt word) down 5
  have here : finish negative word shift [] = (scaled negative word shift).map (·, []) := rfl
  exact ⟨_, by rw [here, scaled, made]; rfl⟩

theorem number_wholeText (negative : Bool) {n k : Nat} (positive : 0 < n)
    (short : (Nat.toDigits 10 n).length + k ≤ 16) :
    ∃ y, number negative (Nat.toDigits 10 n ++ List.replicate k '0' ++ ['.', '0']) = .ok (.float y, []) := by
  obtain ⟨c, cs, spelled, digits, -, head⟩ := Text.exists_toDigits n
  rw [spelled] at short ⊢
  have all : ∀ d ∈ c :: (cs ++ List.replicate k '0') ++ ['0'], d.isDigit = true := by
    rw [← List.cons_append, List.forall_mem_append, List.forall_mem_append]
    exact ⟨⟨digits, fun d zero => by rw [(List.mem_replicate.mp zero).2]; rfl⟩, List.forall_mem_singleton.mpr rfl⟩
  have size : (c :: (cs ++ List.replicate k '0') ++ ['0']).length ≤ 17 := by
    simp only [List.length_cons, List.length_append, List.length_replicate, List.length_nil] at short ⊢
    omega
  have fits : Nat.ofDigitChars 10 (c :: (cs ++ List.replicate k '0') ++ ['0']) 0 ≤ greatestWord := by
    have bound := ofDigitChars_lt all 0
    have power := Nat.pow_le_pow_right (by decide : 0 < 10) size
    rw [greatestWord]
    omega
  obtain ⟨y, made⟩ := finish_down negative (Nat.ofDigitChars 10 (c :: (cs ++ List.replicate k '0') ++ ['0']) 0)
    (by decide : (-1 : Int) < 0)
  have read := number_point negative [] all (.inl (head positive)) (List.cons_ne_nil _ _) fits
    (fun d none => by cases none)
  have text : c :: cs ++ List.replicate k '0' ++ ['.', '0'] =
      c :: (cs ++ List.replicate k '0') ++ '.' :: (['0'] ++ []) := by simp
  exact ⟨y, by rw [text, read]; exact (congrArg _ made).trans rfl⟩

theorem ofDigitChars_zeros (k : Nat) (cs : List Char) :
    Nat.ofDigitChars 10 (List.replicate k '0' ++ cs) 0 = Nat.ofDigitChars 10 cs 0 := by
  induction k with
  | zero => rfl
  | succ k ih =>
      rw [List.replicate_succ, List.cons_append, Nat.ofDigitChars_cons]
      exact ih

/-- The digits of a number with zeros before them, so that some stand before the point. -/
def padded (n places : Nat) : List Char :=
  List.replicate (places + 1 - (Nat.toDigits 10 n).length) '0' ++ Nat.toDigits 10 n

section
variable (n places : Nat)

theorem padded_isDigit : ∀ c ∈ padded n places, c.isDigit = true :=
  List.forall_mem_append.mpr ⟨fun c zero => by rw [(List.mem_replicate.mp zero).2]; rfl, Text.toDigits_isDigit n⟩

theorem ofDigitChars_padded : Nat.ofDigitChars 10 (padded n places) 0 = n := by
  rw [padded, ofDigitChars_zeros, Nat.ofDigitChars_ten_toDigits]

theorem padded_length : (padded n places).length =
    places + 1 - (Nat.toDigits 10 n).length + (Nat.toDigits 10 n).length := by
  rw [padded, List.length_append, List.length_replicate]

/-- Only a single digit before the point may be a zero. -/
theorem padded_head (positive : 0 < n) :
    ∀ c ∈ (padded n places).head?, c ≠ '0' ∨ (padded n places).length = places + 1 := by
  intro c first
  rw [padded_length]
  rcases Nat.lt_or_ge (Nat.toDigits 10 n).length (places + 1) with fewer | full
  · exact .inr (by omega)
  · rw [padded, Nat.sub_eq_zero_of_le full, List.replicate_zero, List.nil_append] at first
    exact .inl (Text.toDigits_head positive c first)

end

/-- A number whose last digits stand behind the point is read as a float. -/
theorem number_placedText (negative : Bool) {n places : Nat} (positive : 0 < n) (fits : n ≤ greatestWord)
    (some : 0 < places) :
    ∃ y, number negative ((padded n places).take ((padded n places).length - places) ++
      '.' :: (padded n places).drop ((padded n places).length - places)) = .ok (.float y, []) := by
  have digits := padded_isDigit n places
  have value := ofDigitChars_padded n places
  have leading := padded_head n places positive
  have length : places + 1 ≤ (padded n places).length := by
    rw [padded_length]
    omega
  have split := List.take_append_drop ((padded n places).length - places) (padded n places)
  have behind : ((padded n places).drop ((padded n places).length - places)).length = places := by
    rw [List.length_drop]
    omega
  have before : ((padded n places).take ((padded n places).length - places)).length =
      (padded n places).length - places := by
    rw [List.length_take]
    omega
  generalize (padded n places).drop ((padded n places).length - places) = fraction at *
  cases whole : (padded n places).take ((padded n places).length - places) with
  | nil =>
      rw [whole, List.length_nil] at before
      omega
  | cons c cs =>
      rw [whole] at split before
      rw [← split] at digits value
      have first : c ≠ '0' ∨ cs = [] := by
        refine (leading c (by rw [← split]; rfl)).imp_right fun one => ?_
        rw [List.length_cons] at before
        exact List.length_eq_zero_iff.mp (by omega)
      have read := number_point negative [] digits first (List.length_pos_iff.mp (by omega)) (by rwa [value])
        (fun d none => by cases none)
      obtain ⟨y, made⟩ := finish_down negative (Nat.ofDigitChars 10 (c :: cs ++ fraction) 0)
        (by omega : -(fraction.length : Int) < 0)
      rw [List.append_nil] at read
      exact ⟨y, by rw [read]; exact (congrArg _ made).trans rfl⟩

theorem gatherExponent_digits {cs : List Char} (digits : ∀ c ∈ cs, c.isDigit = true) (exponent : Nat) :
    gatherExponent exponent cs = (some (Nat.ofDigitChars 10 cs exponent), []) ∨
      greatestExponent < Nat.ofDigitChars 10 cs exponent ∧
        ∃ rest, gatherExponent exponent cs = (none, rest) ∧ ∀ c ∈ rest, c.isDigit = true := by
  induction cs generalizing exponent with
  | nil => exact .inl rfl
  | cons c cs ih =>
      obtain ⟨first, others⟩ := List.forall_mem_cons.mp digits
      rw [gatherExponent, if_pos first, Nat.ofDigitChars_cons]
      split
      · exact ih others _
      · next large =>
        exact .inr ⟨Nat.lt_of_lt_of_le (Nat.not_le.mp large) (le_ofDigitChars cs _), c :: cs, rfl, digits⟩

theorem exponentDigits_toDigits (negative down : Bool) (word : Nat) (shift : Int) {n : Nat}
    (small : down = true ∨ n ≤ greatestExponent)
    (made : ∃ y, scaled negative word (if down then shift - n else shift + n) = .ok y) :
    ∃ y, exponentDigits negative down word shift (Nat.toDigits 10 n) = .ok (y, []) := by
  obtain ⟨c, cs, spelled, digits, value, -⟩ := Text.exists_toDigits n
  obtain ⟨first, others⟩ := List.forall_mem_cons.mp digits
  rw [Nat.ofDigitChars_cons, Nat.mul_zero, Nat.zero_add] at value
  rw [spelled, exponentDigits, if_neg (by rw [first]; decide)]
  obtain ⟨y, made⟩ := made
  rcases gatherExponent_digits others (digit c) with read | ⟨large, rest, read, others⟩
  · rw [read]
    change ∃ y, (scaled negative word (if down then shift - (Nat.ofDigitChars 10 cs (c.toNat - '0'.toNat) : Nat) else
      shift + (Nat.ofDigitChars 10 cs (c.toNat - '0'.toNat) : Nat))).map _ = _
    rw [value, made]
    exact ⟨y, rfl⟩
  · have under : down = true := small.resolve_right (Nat.not_le.mpr (value ▸ large))
    rw [read, under]
    have none : rest.dropWhile Char.isDigit = [] := List.dropWhile_eq_nil_iff.mpr others
    exact ⟨.zero negative, by simp [none]⟩

theorem exponentPart_toString (negative : Bool) (word : Nat) (shift : Int) {power : Int}
    (small : power ≤ greatestExponent) (made : ∃ y, scaled negative word (shift + power) = .ok y) :
    ∃ y, exponentPart negative word shift ((if power < 0 then "" else "+").toList ++ (toString power).toList) =
      .ok (y, []) := by
  rw [Text.toList_toString]
  by_cases down : power < 0
  · rw [if_pos down, if_pos down]
    refine exponentDigits_toDigits negative true word shift (.inl rfl) ?_
    have same : shift - power.natAbs = shift + power := by omega
    rwa [if_pos rfl, same]
  · rw [if_neg down, if_neg down]
    refine exponentDigits_toDigits negative false word shift (.inr (by omega)) ?_
    have same : shift + power.natAbs = shift + power := by omega
    rwa [if_neg Bool.false_ne_true, same]

theorem finish_exponent (negative : Bool) (word : Nat) (shift : Int) (cs : List Char) :
    finish negative word shift ('e' :: cs) = exponentPart negative word shift cs := rfl

/-- A number with one digit before the point and an exponent is read as a float if its digits are scaled to one. -/
theorem number_scientificText (negative : Bool) {n : Nat} {exponent power : Int}
    (fits : n ≤ greatestWord) (place : power = exponent + ((Nat.toDigits 10 n).length - 1 : Nat))
    (small : power ≤ greatestExponent) (made : ∃ y, scaled negative n exponent = .ok y) :
    ∃ y, number negative ((Nat.toDigits 10 n).take 1 ++
      (if ((Nat.toDigits 10 n).drop 1).isEmpty then [] else '.' :: (Nat.toDigits 10 n).drop 1) ++
        'e' :: ((if power < 0 then "" else "+").toList ++ (toString power).toList)) = .ok (.float y, []) := by
  obtain ⟨c, fraction, spelled, digits, value, -⟩ := Text.exists_toDigits n
  rw [spelled] at place ⊢
  generalize ending : (if power < 0 then "" else "+").toList ++ (toString power).toList = tail
  have scaled_place : -(fraction.length : Int) + power = exponent := by
    rw [place, List.length_cons]
    omega
  obtain ⟨y, read⟩ : ∃ y, exponentPart negative n (-fraction.length) tail = .ok (y, []) := by
    rw [← ending]
    exact exponentPart_toString negative n _ small (by rwa [scaled_place])
  refine ⟨y, ?_⟩
  change number negative ([c] ++ (if fraction.isEmpty then [] else '.' :: fraction) ++ 'e' :: tail) = _
  cases fraction with
  | nil =>
      have here : number negative ([c] ++ 'e' :: tail) = _ :=
        number_whole digits (.inr rfl) (by rwa [value]) (.inr (.inl rfl))
      have exponential : afterWhole negative n 0 ('e' :: tail) = exponentPart negative n 0 tail := rfl
      rw [value, exponential] at here
      exact here.trans (congrArg _ read)
  | cons d fraction =>
      have whole : Nat.ofDigitChars 10 ([c] ++ d :: fraction) 0 = n := value
      have here := number_point negative ('e' :: tail) digits (.inr rfl) (List.cons_ne_nil _ _) (by rwa [whole])
        (by rintro _ ⟨⟩; rfl)
      rw [whole, finish_exponent, read] at here
      exact here

theorem number_decimal (negative : Bool) {d : Decimal} (positive : 0 < d.digits) (short : d.digits < 15 * 10 ^ 17)
    (small : d.exponent ≤ 308) (made : ∃ y, scaled negative d.digits d.exponent = .ok y) :
    ∃ y, number negative (Numeral.json.decimal d).toList = .ok (.float y, []) := by
  have fits : d.digits ≤ greatestWord := by
    rw [greatestWord]
    omega
  have spelled : (toString d.digits).toList = Nat.toDigits 10 d.digits := by
    rw [Nat.toString_eq_ofList_toDigits, String.toList_ofList]
  have length : (toString d.digits).length = (Nat.toDigits 10 d.digits).length := by
    rw [← String.length_toList, spelled]
  rw [Numeral.decimal]
  split
  · next positional =>
    have places : d.exponent + ((Nat.toDigits 10 d.digits).length - 1 : Nat) ≤ 15 := by
      have range := (positional.resolve_left positive.ne').2
      rw [length] at range
      exact of_decide_eq_true range
    rw [Decimal.positional]
    split
    · next whole =>
      obtain ⟨y, read⟩ := number_wholeText negative positive
        (by omega : (Nat.toDigits 10 d.digits).length + d.exponent.toNat ≤ 16)
      refine ⟨y, ?_⟩
      rw [String.toList_append, String.toList_append, spelled, zeros_toList]
      exact read
    · next placed =>
      obtain ⟨y, read⟩ := number_placedText negative positive fits (by omega : 0 < (-d.exponent).toNat)
      refine ⟨y, ?_⟩
      dsimp only
      rw [length, spelled, zeros_toList, String.toList_append, String.toList_append, List.append_assoc]
      simp only [String.toList_ofList]
      exact read
  · have digits : (Nat.toDigits 10 d.digits).length ≤ 19 :=
      (Nat.length_toDigits_le_iff (by decide) (by decide)).mpr (by omega)
    have power : d.exponent + ((Nat.toDigits 10 d.digits).length - 1 : Nat) ≤ greatestExponent := by
      rw [greatestExponent]
      omega
    obtain ⟨y, read⟩ := number_scientificText negative fits rfl power made
    refine ⟨y, ?_⟩
    have fraction (cs : List Char) : (if cs.isEmpty then "" else "." ++ String.ofList cs).toList =
        if cs.isEmpty then [] else '.' :: cs := by
      split <;> simp
    have letter : "e".toList = ['e'] := rfl
    rw [Decimal.scientific]
    simp only [spelled, String.toList_append, String.toList_ofList, fraction, letter, List.append_assoc] at read ⊢
    exact read

theorem number_zero (negative : Bool) :
    ∃ y, number negative (Numeral.json.decimal ⟨0, 0⟩).toList = .ok (.float y, []) := by
  have text : (Numeral.json.decimal ⟨0, 0⟩).toList = ['0', '.', '0'] := by decide +kernel
  obtain ⟨y, made⟩ := finish_down negative 0 (by decide : (-1 : Int) < 0)
  have digits : ∀ d ∈ ['0', '0'], d.isDigit = true :=
    List.forall_mem_cons.mpr ⟨rfl, List.forall_mem_singleton.mpr rfl⟩
  have read : number negative ('0' :: [] ++ '.' :: (['0'] ++ [])) =
      (finish negative 0 (-1) []).map fun r => (.float r.1, r.2) :=
    number_point negative [] digits (.inr rfl) (by decide) (by decide) (fun d none => by cases none)
  rw [made] at read
  exact ⟨y, by rw [text]; exact read⟩

/-- Every finite number but the greatest is read as a float. -/
theorem number_finite (negative : Bool) {m : Nat} {e : Int} (h : Format.double.Canonical m e)
    (small : Format.double.magnitude m e < Format.double.infinityBits) (other : ¬(m = 2 ^ 53 - 1 ∧ e = 971)) :
    ∃ y, number negative (Numeral.json.decimal (if m = 0 then ⟨0, 0⟩ else Format.double.shortest .even m e)).toList =
      .ok (.float y, []) := by
  split
  · exact number_zero negative
  · next nonzero =>
    obtain ⟨positive, short, bounded⟩ := Format.shortest_spec .even (Nat.pos_of_ne_zero nonzero) h small
    obtain ⟨exponent, made⟩ := scaled_decimal negative positive short
      (bounded.trans (end_le_lastEnd 969 h.lt (h.le_greatest small) other))
    exact number_decimal negative positive short exponent made

end PackRpc.Json
