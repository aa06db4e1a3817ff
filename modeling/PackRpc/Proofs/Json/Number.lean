import PackRpc.Json.Number
import PackRpc.Proofs.Json.Parsing
import PackRpc.Proofs.Text.Integer
/-!
# Numbers and what stands behind them

A number that is read to its end is read the same in front of anything that does not go on with it, and the
decimal form of an integer of 64 bits is read as that integer.
-/
namespace PackRpc.Json

/-- No number goes on here. -/
def Ends (cs : List Char) : Prop := ∀ c ∈ cs.head?, c.isDigit = false ∧ c ≠ '.' ∧ c ≠ 'e' ∧ c ≠ 'E'

/-- What does not go on with a number is left behind what is read. -/
def Steady {α : Type} (read : Parser α) : Prop :=
  ∀ cs a left rest, Ends rest → read cs = .ok (a, left) → read (cs ++ rest) = .ok (a, left ++ rest)

theorem Steady.map {α β : Type} {read : Parser α} (h : Steady read) (f : α → β) :
    Steady fun cs => (read cs).map fun r => (f r.1, r.2) := by
  intro cs b left rest ends mapped
  obtain ⟨⟨a, others⟩, given, same⟩ := Except.map_eq_ok.mp mapped
  cases same
  exact Except.map_eq_ok.mpr ⟨_, h cs a others rest ends given, rfl⟩

theorem steady_of_made {α : Type} (made : Except JsonError α) : Steady fun cs => made.map (·, cs) := by
  intro cs a left rest _ read
  obtain ⟨x, made, same⟩ := Except.map_eq_ok.mp read
  cases same
  exact Except.map_eq_ok.mpr ⟨a, made, rfl⟩

section
variable {c : Char} {cs rest : List Char} {negative : Bool} {word count : Nat} {shift : Int}

theorem ends_cons (h : c.isDigit = false ∧ c ≠ '.' ∧ c ≠ 'e' ∧ c ≠ 'E') : Ends (c :: cs) := by
  rintro _ ⟨⟩
  exact h

theorem Ends.dropWhile (ends : Ends rest) : rest.dropWhile Char.isDigit = rest := by
  cases rest with
  | nil => rfl
  | cons c cs => rw [List.dropWhile_cons_of_neg (by rw [(ends c rfl).1]; exact Bool.false_ne_true)]

theorem Ends.dropWhile_append (ends : Ends rest) (cs : List Char) :
    (cs ++ rest).dropWhile Char.isDigit = cs.dropWhile Char.isDigit ++ rest := by
  rw [List.dropWhile_append]
  split
  · next none => rw [List.isEmpty_iff.mp none, ends.dropWhile, List.nil_append]
  · rfl

theorem Ends.takeWhile_append (ends : Ends rest) (cs : List Char) :
    (cs ++ rest).takeWhile Char.isDigit = cs.takeWhile Char.isDigit := by
  have none : rest.takeWhile Char.isDigit = [] := by
    cases rest with
    | nil => rfl
    | cons c cs => rw [List.takeWhile_cons_of_neg (by rw [(ends c rfl).1]; exact Bool.false_ne_true)]
  rw [List.takeWhile_append]
  split
  · next all => rw [none, List.append_nil, (List.takeWhile_prefix _).eq_of_length all]
  · rfl

theorem gather_append (ends : Ends rest) (word count : Nat) (cs : List Char) :
    gather word count (cs ++ rest) =
      ((gather word count cs).1, (gather word count cs).2.1, (gather word count cs).2.2 ++ rest) := by
  induction cs generalizing word count with
  | nil =>
      cases rest with
      | nil => rfl
      | cons c rest => simp [gather, (ends c rfl).1]
  | cons c cs ih =>
      rw [List.cons_append, gather, gather]
      split
      · exact ih _ _
      · rfl

theorem gatherExponent_append (ends : Ends rest) (exponent : Nat) (cs : List Char) :
    gatherExponent exponent (cs ++ rest) =
      ((gatherExponent exponent cs).1, (gatherExponent exponent cs).2 ++ rest) := by
  induction cs generalizing exponent with
  | nil =>
      cases rest with
      | nil => rfl
      | cons c rest => simp [gatherExponent, (ends c rfl).1]
  | cons c cs ih =>
      rw [List.cons_append, gatherExponent, gatherExponent]
      split
      · split
        · exact ih _
        · rfl
      · rfl

theorem exponentDigits_steady (negative down : Bool) (word : Nat) (shift : Int) :
    Steady (exponentDigits negative down word shift) := by
  intro cs a left rest ends read
  cases cs with
  | nil => cases read
  | cons c cs =>
      rw [exponentDigits] at read
      rw [List.cons_append, exponentDigits, gatherExponent_append ends]
      split at read
      · cases read
      · next digit =>
        rw [if_neg digit]
        generalize gatherExponent (Json.digit c) cs = gathered at read
        obtain ⟨e, others⟩ := gathered
        cases e with
        | some e => exact steady_of_made _ others a left rest ends read
        | none =>
            dsimp only at read ⊢
            split at read
            · cases read
            · next small =>
              cases read
              rw [if_neg small, ends.dropWhile_append]

theorem exponentPart_steady (negative : Bool) (word : Nat) (shift : Int) :
    Steady (exponentPart negative word shift) := by
  intro cs a left rest ends read
  cases cs with
  | nil => cases read
  | cons c cs =>
      by_cases plus : c = '+'
      · subst plus
        exact exponentDigits_steady negative false word shift cs a left rest ends read
      · by_cases minus : c = '-'
        · subst minus
          exact exponentDigits_steady negative true word shift cs a left rest ends read
        · have plain (cs : List Char) : exponentPart negative word shift (c :: cs) =
              exponentDigits negative false word shift (c :: cs) := by
            unfold exponentPart
            split <;> simp_all
          rw [plain] at read
          rw [List.cons_append, plain]
          exact exponentDigits_steady negative false word shift (c :: cs) a left rest ends read

theorem finish_other (h : ∀ c ∈ cs.head?, c ≠ 'e' ∧ c ≠ 'E') :
    finish negative word shift cs = (scaled negative word shift).map (·, cs) := by
  unfold finish
  split
  · exact absurd rfl (h _ rfl).1
  · exact absurd rfl (h _ rfl).2
  · rfl

theorem finish_steady (negative : Bool) (word : Nat) (shift : Int) : Steady (finish negative word shift) := by
  intro cs a left rest ends read
  by_cases goes_on : ∃ c tail, cs = c :: tail ∧ (c = 'e' ∨ c = 'E')
  · obtain ⟨c, tail, rfl, rfl | rfl⟩ := goes_on <;>
      exact exponentPart_steady negative word shift tail a left rest ends read
  · have stops : ∀ c ∈ (cs ++ rest).head?, c ≠ 'e' ∧ c ≠ 'E' := by
      intro c first
      cases cs with
      | nil => exact (ends c first).2.2
      | cons d tail =>
          cases first
          exact ⟨fun e => goes_on ⟨c, tail, rfl, .inl e⟩, fun e => goes_on ⟨c, tail, rfl, .inr e⟩⟩
    have stops' : ∀ c ∈ cs.head?, c ≠ 'e' ∧ c ≠ 'E' := by
      intro c first
      refine stops c ?_
      cases cs <;> simp_all
    rw [finish_other stops'] at read
    rw [finish_other stops]
    exact steady_of_made _ cs a left rest ends read

theorem fractionPart_steady (negative : Bool) (word : Nat) (shift : Int) :
    Steady (fractionPart negative word shift) := by
  intro cs a left rest ends read
  unfold fractionPart at read ⊢
  rw [gather_append ends]
  generalize gather word 0 cs = gathered at read
  obtain ⟨word, count, others⟩ := gathered
  dsimp only at read ⊢
  cases others with
  | nil =>
      dsimp only at read
      split at read
      · cases read
      · next some =>
        have read := finish_steady _ _ _ _ _ _ _ ends read
        cases rest with
        | nil => exact (if_neg some).trans read
        | cons c tail =>
            dsimp only [List.nil_append] at read ⊢
            rw [(ends c rfl).1, if_neg Bool.false_ne_true, if_neg some]
            exact read
  | cons c others =>
      dsimp only [List.cons_append] at read ⊢
      split at read
      · next digit =>
        rw [if_pos digit, ← List.cons_append, ends.dropWhile_append]
        exact finish_steady _ _ _ _ _ _ _ ends read
      · next other =>
        rw [if_neg other]
        split at read
        · cases read
        · next some =>
          rw [if_neg some, ← List.cons_append]
          exact finish_steady _ _ _ _ _ _ _ ends read

theorem afterWhole_steady (negative : Bool) (word : Nat) (shift : Int) :
    Steady (afterWhole negative word shift) := by
  intro cs a left rest ends read
  have other (cs : List Char) (h : ∀ c ∈ cs.head?, c ≠ '.') :
      afterWhole negative word shift cs = finish negative word shift cs := by
    unfold afterWhole
    split
    · exact absurd rfl (h _ rfl)
    · rfl
  cases cs with
  | nil =>
      rw [other [] (fun c h => by cases h)] at read
      rw [List.nil_append, other rest fun c first => (ends c first).2.1]
      exact finish_steady negative word shift [] a left rest ends read
  | cons c cs =>
      by_cases point : c = '.'
      · subst point
        exact fractionPart_steady negative word shift cs a left rest ends read
      · have first : ∀ cs, ∀ d ∈ (c :: cs).head?, d ≠ '.' := by
          rintro cs _ ⟨⟩
          exact point
        rw [other _ (first cs)] at read
        rw [List.cons_append, other _ (first (cs ++ rest))]
        exact finish_steady negative word shift (c :: cs) a left rest ends read

theorem afterDigits_steady (negative zero : Bool) (word : Nat) : Steady (afterDigits negative zero word) := by
  intro cs a left rest ends read
  have float (shift : Int) := (afterWhole_steady negative word shift).map Json.float
  cases cs with
  | nil =>
      cases read
      cases rest with
      | nil => rfl
      | cons c tail =>
          obtain ⟨digit, others⟩ := ends c rfl
          have stops : ¬(c = '.' ∨ c = 'e' ∨ c = 'E') := by simpa using others
          rw [List.nil_append, afterDigits, if_neg (by rw [digit]; exact Bool.false_ne_true), if_neg stops]
  | cons c cs =>
      unfold afterDigits at read ⊢
      dsimp only [List.cons_append] at read ⊢
      split at read
      · next digit =>
        rw [if_pos digit]
        split at read
        · cases read
        · next leading =>
          have size : ((c :: cs).takeWhile Char.isDigit).length ≤ (c :: cs).length :=
            (List.takeWhile_prefix _).length_le
          rw [if_neg leading, ← List.cons_append, ends.takeWhile_append, List.drop_append_of_le_length size]
          exact float _ _ a left rest ends read
      · next digit =>
        rw [if_neg digit]
        split at read
        · next goes_on =>
          rw [if_pos goes_on]
          exact float 0 (c :: cs) a left rest ends read
        · next stops =>
          cases read
          rw [if_neg stops]
          rfl

theorem number_steady (negative : Bool) : Steady (number negative) := by
  intro cs a left rest ends read
  cases cs with
  | nil => cases read
  | cons c cs =>
      rw [number] at read
      rw [List.cons_append, number]
      split at read
      · cases read
      · next digit =>
        rw [if_neg digit]
        split at read
        · next zero =>
          rw [if_pos zero]
          exact afterDigits_steady negative true 0 cs a left rest ends read
        · next zero =>
          rw [if_neg zero, gather_append ends]
          exact afterDigits_steady negative false _ _ a left rest ends read

theorem le_ofDigitChars (cs : List Char) (word : Nat) : word ≤ Nat.ofDigitChars 10 cs word := by
  induction cs generalizing word with
  | nil => exact Nat.le_refl _
  | cons c cs ih =>
      rw [Nat.ofDigitChars_cons]
      exact Nat.le_trans (by omega) (ih _)

theorem gather_digits {cs rest : List Char} (digits : ∀ c ∈ cs, c.isDigit = true)
    (stops : ∀ c ∈ rest.head?, c.isDigit = false) (fits : Nat.ofDigitChars 10 cs word ≤ greatestWord) :
    gather word count (cs ++ rest) = (Nat.ofDigitChars 10 cs word, count + cs.length, rest) := by
  induction cs generalizing word count with
  | nil =>
      cases rest with
      | nil => rfl
      | cons c rest => simp [gather, stops c rfl]
  | cons c cs ih =>
      obtain ⟨first, others⟩ := List.forall_mem_cons.mp digits
      rw [Nat.ofDigitChars_cons] at fits ⊢
      rw [List.cons_append, gather, if_pos ⟨first, Nat.le_trans (le_ofDigitChars cs _) fits⟩]
      have taken : gather (10 * word + digit c) (count + 1) (cs ++ rest) = _ := ih others fits
      rw [taken, List.length_cons]
      congr 2
      omega

theorem number_digits {n : Nat} (fits : n < 2 ^ 64) (negative : Bool) :
    number negative (Nat.toDigits 10 n) = .ok (whole negative n, []) := by
  rcases Nat.eq_zero_or_pos n with rfl | positive
  · rfl
  · obtain ⟨c, cs, spelled, digits, value, head⟩ := Text.exists_toDigits n
    obtain ⟨first, others⟩ := List.forall_mem_cons.mp digits
    rw [Nat.ofDigitChars_cons, Nat.mul_zero, Nat.zero_add] at value
    have taken : gather (digit c) 0 (cs ++ []) = _ := gather_digits others (fun d none => by cases none)
      (by change Nat.ofDigitChars 10 cs (c.toNat - '0'.toNat) ≤ _; rw [value, greatestWord]; omega)
    rw [List.append_nil] at taken
    rw [spelled, number, if_neg (by rw [first]; decide), if_neg (head positive), taken]
    change afterDigits negative false (Nat.ofDigitChars 10 cs (c.toNat - '0'.toNat)) [] = _
    rw [value]
    rfl

end

end PackRpc.Json
