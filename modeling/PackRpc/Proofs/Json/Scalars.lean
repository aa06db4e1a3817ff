import PackRpc.Proofs.Json.Float
import PackRpc.Proofs.Json.Untyped
/-!
# Reading what was written

The texts of strings and integers are read as they were written, and the text of a finite float is read as a
float, if not always as the same one: its digits are scaled with a rounding at every step.
-/
namespace PackRpc

/-- What the text of a float is read as. -/
def Binary64.reread? (x : Binary64) : Option Binary64 :=
  match Json.scalar (x.write .json).toList with
  | .ok (.float y, []) => some y
  | _ => none

def Binary64.reread (x : Binary64) : Binary64 := x.reread?.getD x

namespace Json

/-! ## Strings -/

section
variable {c : Char} {rest done : List Char} {fuel : Nat}

/-- The characters that stand for a text between its quotes. -/
def spelling (text : List Char) : List Char := text.flatMap fun c => (escape c).toList

theorem stringText_toList (text : String) : (stringText text).toList = '"' :: (spelling text.toList ++ ['"']) := by
  have gathered (cs : List Char) (out : String) :
      (cs.foldl (fun out c => out ++ escape c) out).toList = out.toList ++ spelling cs := by
    induction cs generalizing out with
    | nil => simp [spelling]
    | cons c cs ih => simp [spelling, ih]
  rw [stringText, String.foldl_eq_foldl_toList, String.toList_append, String.toList_append, gathered]
  simp

theorem hexDigit?_digitChar {d : Nat} (h : d < 16) : hexDigit? d.digitChar = some d := by
  have each : ∀ d < 16, hexDigit? d.digitChar = some d := by decide
  exact each d h

theorem hexByte_toList (b : UInt8) :
    (Text.hexByte b).toList = [(b.toNat / 16).digitChar, (b.toNat % 16).digitChar] := by
  have small := b.toNat_lt
  rw [Text.hexByte, String.toList_ofList, Nat.toDigits_of_lt_base (by omega), Nat.toDigits_of_lt_base (by omega)]
  rfl

theorem unicodeEscape_control (control : c.toNat < 0x20) :
    unicodeEscape ('0' :: '0' :: ((Text.hexByte (.ofNat c.toNat)).toList ++ rest)) = .ok (c, rest) := by
  have byte : (UInt8.ofNat c.toNat).toNat = c.toNat := by
    rw [UInt8.toNat_ofNat']
    omega
  have zero : hexDigit? '0' = some 0 := by decide
  have unit : ((16 * 0 + 0) * 16 + c.toNat / 16) * 16 + c.toNat % 16 = c.toNat := by omega
  have read : fourHex ('0' :: '0' :: ((Text.hexByte (.ofNat c.toNat)).toList ++ rest)) = .ok (c.toNat, rest) := by
    rw [hexByte_toList, byte]
    simp only [List.cons_append, List.nil_append, fourHex, zero, hexDigit?_digitChar (show c.toNat / 16 < 16 by omega),
      hexDigit?_digitChar (show c.toNat % 16 < 16 by omega), unit]
  simp only [unicodeEscape, read, bind, Except.bind]
  rw [if_neg (by omega), if_pos (by omega), Char.ofNat_toNat]

theorem stringOnto_plain (quote : c ≠ '"') (backslash : c ≠ '\\') (visible : ¬c.toNat < 0x20) :
    stringOnto (fuel + 1) done (c :: rest) = stringOnto fuel (c :: done) rest := by
  rw [stringOnto, if_neg visible]
  · exact quote
  · exact backslash

theorem stringOnto_unicode {cs : List Char} (read : unicodeEscape cs = .ok (c, rest)) :
    stringOnto (fuel + 1) done ('\\' :: 'u' :: cs) = stringOnto fuel (c :: done) rest := by
  have letter : escaped ('u' :: cs) = .ok (c, rest) := read
  simp only [stringOnto, letter]

theorem stringOnto_escape (c : Char) (fuel : Nat) (done rest : List Char) :
    stringOnto (fuel + 1) done ((escape c).toList ++ rest) = stringOnto fuel (c :: done) rest := by
  unfold escape
  split_ifs with quote backslash b f n r t control
  · subst quote
    rfl
  · subst backslash
    rfl
  · obtain rfl : c = Char.ofNat 8 := by rw [← b, Char.ofNat_toNat]
    rfl
  · obtain rfl : c = Char.ofNat 12 := by rw [← f, Char.ofNat_toNat]
    rfl
  · subst n
    rfl
  · subst r
    rfl
  · subst t
    rfl
  · have start : "\\u00".toList = ['\\', 'u', '0', '0'] := rfl
    rw [String.toList_append, start, List.append_assoc]
    exact stringOnto_unicode (unicodeEscape_control control)
  · rw [String.toList_singleton]
    exact stringOnto_plain quote backslash control

theorem stringOnto_spelling (text : List Char) (fuel : Nat) (enough : text.length < fuel)
    (done rest : List Char) :
    stringOnto fuel done (spelling text ++ '"' :: rest) = .ok (.ofList (done.reverse ++ text), rest) := by
  induction text generalizing fuel done with
  | nil =>
      cases fuel with
      | zero => cases enough
      | succ fuel =>
          rw [List.append_nil]
          rfl
  | cons c text ih =>
      cases fuel with
      | zero => cases enough
      | succ fuel =>
          rw [spelling, List.flatMap_cons, List.append_assoc, stringOnto_escape]
          have read := ih fuel (Nat.lt_of_succ_lt_succ enough) (c :: done)
          rw [List.reverse_cons, List.append_assoc] at read
          exact read

theorem length_le_spelling (text : List Char) : text.length ≤ (spelling text).length := by
  have some (c : Char) : 0 < (escape c).toList.length := by
    unfold escape
    split_ifs <;> simp
  induction text with
  | nil => exact Nat.le_refl _
  | cons c text ih =>
      have first := some c
      rw [spelling, List.flatMap_cons, List.length_append, List.length_cons]
      change text.length + 1 ≤ (escape c).toList.length + (spelling text).length
      omega

theorem stringBody_spelling (text : String) (rest : List Char) :
    stringBody (spelling text.toList ++ '"' :: rest) = .ok (text, rest) := by
  have size := length_le_spelling text.toList
  have read := stringOnto_spelling text.toList ((spelling text.toList ++ '"' :: rest).length + 1)
    (by rw [List.length_append]; omega) [] rest
  rw [List.reverse_nil, List.nil_append, String.ofList_toList] at read
  exact read

end

/-! ## Scalars -/

/-- Nothing that a value cannot start with stands first. -/
def Opens (cs : List Char) : Prop := ∃ c tail, cs = c :: tail ∧ isBlank c = false ∧ c ≠ ']' ∧ c ≠ '}'

/-- In front of anything that no number goes on with, the text is read and the rest left. -/
def Takes {α : Type} (read : Parser α) (text : String) (a : α) : Prop :=
  Opens text.toList ∧ ∀ rest, Ends rest → read (text.toList ++ rest) = .ok (a, rest)

section
variable {cs rest : List Char} {c : Char} {j : Json} {text : String}

theorem word_append (ws : List Char) (result : Json) (rest : List Char) :
    word ws result (ws ++ rest) = .ok (result, rest) := by
  induction ws with
  | nil => rfl
  | cons w ws ih => rw [List.cons_append, word, if_pos rfl, ih]

theorem word_result {ws : List Char} {result : Json} (read : word ws result cs = .ok (j, rest)) : j = result := by
  induction ws generalizing cs with
  | nil =>
      cases read
      rfl
  | cons w ws ih =>
      cases cs with
      | nil => cases read
      | cons c cs =>
          rw [word] at read
          split at read
          · exact ih read
          · cases read

theorem digit_ne {d : Char} (digit : c.isDigit = true) (other : d.isDigit = false) : c ≠ d := by
  rintro rfl
  rw [digit] at other
  cases other

theorem digit_visible (digit : c.isDigit = true) : isBlank c = false := by
  rw [isBlank, beq_false_of_ne (digit_ne digit rfl), beq_false_of_ne (digit_ne digit rfl),
    beq_false_of_ne (digit_ne digit rfl), beq_false_of_ne (digit_ne digit rfl)]
  rfl

theorem scalar_digit (digit : c.isDigit = true) : scalar (c :: cs) = number false (c :: cs) := by
  rw [scalar, if_pos digit] <;> exact digit_ne digit rfl

theorem scalar_head {r : Json × List Char} (read : scalar cs = .ok r) :
    ∃ c tail, cs = c :: tail ∧ isBlank c = false ∧ c ∉ ['[', ']', '{', '}'] := by
  unfold scalar at read
  split at read
  · exact ⟨_, _, rfl, by decide, by decide⟩
  · exact ⟨_, _, rfl, by decide, by decide⟩
  · exact ⟨_, _, rfl, by decide, by decide⟩
  · exact ⟨_, _, rfl, by decide, by decide⟩
  · exact ⟨_, _, rfl, by decide, by decide⟩
  · next c tail _ _ _ _ _ =>
    split at read
    · next digit =>
      have none : ∀ d ∈ ['[', ']', '{', '}'], d.isDigit = false := by
        simp only [List.forall_mem_cons]
        exact ⟨rfl, rfl, rfl, rfl, List.forall_mem_nil _⟩
      exact ⟨c, tail, rfl, digit_visible digit, fun bracket => digit_ne digit (none c bracket) rfl⟩
    · cases read
  · cases read

theorem valueAt_scalar {r : Json × List Char} (read : scalar cs = .ok r) (levels : Nat) :
    valueAt levels cs = .ok r := by
  obtain ⟨c, tail, rfl, blank, other⟩ := scalar_head read
  have every (inner : Option (Parser Json)) : valueWith inner (c :: tail) = scalar (c :: tail) := by
    have first : skipBlanks (c :: tail) = c :: tail :=
      List.dropWhile_cons_of_neg (by rw [blank]; exact Bool.false_ne_true)
    unfold valueWith
    rw [first]
    split
    · next same =>
      cases same
      exact absurd (by decide) other
    · next same =>
      cases same
      exact absurd (by decide) other
    · rfl
  cases levels <;> exact (every _).trans read

/-- What is read as a scalar wherever it stands is taken as a value. -/
theorem takes_scalar (h : ∀ rest, Ends rest → scalar (text.toList ++ rest) = .ok (j, rest)) (levels : Nat) :
    Takes (valueAt levels) text j := by
  refine ⟨?_, fun rest ends => valueAt_scalar (h rest ends) levels⟩
  obtain ⟨c, tail, spelled, blank, other⟩ := scalar_head (h [] fun c none => by cases none)
  rw [List.append_nil] at spelled
  exact ⟨c, tail, spelled, blank, fun same => other (by simp [same]), fun same => other (by simp [same])⟩

theorem scalar_string (text : String) (rest : List Char) :
    scalar ((stringText text).toList ++ rest) = .ok (.string text, rest) := by
  have read := stringBody_spelling text rest
  rw [stringText_toList, List.cons_append, List.append_assoc]
  change (stringBody (spelling text.toList ++ '"' :: rest)).map _ = _
  rw [read]
  rfl

theorem whole_natAbs (n : PackedInt) : whole (decide (n.val < 0)) n.val.natAbs = .int n := by
  have low := n.ge
  have high := n.lt
  by_cases negative : n.val < 0
  · have number : -(n.val.natAbs : Int) = n.val := by omega
    rw [decide_eq_true negative, whole, dif_neg (fun h => by cases h.2), dif_pos (by omega)]
    exact congrArg Json.int (PackedInt.ext number)
  · have number : (n.val.natAbs : Int) = n.val := by omega
    rw [decide_eq_false negative, whole, dif_pos ⟨by omega, rfl⟩]
    exact congrArg Json.int (PackedInt.ext number)

theorem scalar_int (n : PackedInt) (ends : Ends rest) :
    scalar ((toString n.val).toList ++ rest) = .ok (.int n, rest) := by
  have low := n.ge
  have high := n.lt
  have read (negative : Bool) := number_steady negative _ _ _ rest ends
    (number_digits (n := n.val.natAbs) (by omega) negative)
  have kept := whole_natAbs n
  rw [Text.toList_toString]
  by_cases negative : n.val < 0
  · rw [if_pos negative]
    rw [decide_eq_true negative] at kept
    rw [← kept]
    exact read true
  · rw [if_neg negative]
    rw [decide_eq_false negative] at kept
    rw [← kept]
    obtain ⟨c, cs, spelled, digits, -⟩ := Text.exists_toDigits n.val.natAbs
    rw [spelled, List.cons_append, scalar_digit (digits c List.mem_cons_self), ← List.cons_append, ← spelled]
    exact read false

theorem scalar_number (read : number false cs = .ok (j, rest)) : scalar cs = .ok (j, rest) := by
  cases cs with
  | nil => cases read
  | cons c cs =>
      cases digit : c.isDigit with
      | true => exact (scalar_digit digit).trans read
      | false =>
          rw [number, if_pos (by rw [digit]; rfl)] at read
          cases read

theorem reread_greatest {x : Binary64} {negative : Bool}
    (bits : x.bits.toNat = Binary.Format.double.withSign negative (Binary.Format.double.magnitude (2 ^ 53 - 1) 971)) :
    ∃ y, x.reread? = some y := by
  rw [← Option.isSome_iff_exists]
  obtain ⟨word⟩ := x
  cases negative with
  | false =>
      obtain rfl : word = 0x7fefffffffffffff := UInt64.toNat_inj.mp bits
      decide +kernel
  | true =>
      obtain rfl : word = 0xffefffffffffffff := UInt64.toNat_inj.mp bits
      decide +kernel

/-- The text of a finite float is read as a float. -/
theorem exists_reread {x : Binary64} (finite : x.isFinite = true) : ∃ y, x.reread? = some y := by
  have bound : x.bits.toNat < 2 * Binary.Format.double.signBit := x.bits.toNat_lt
  rw [Binary64.isFinite] at finite
  split at finite
  · next negative m e class_eq =>
    obtain ⟨canonical, small, bits⟩ := Binary.Format.classify_eq_finite bound class_eq
    by_cases greatest : m = 2 ^ 53 - 1 ∧ e = 971
    · obtain ⟨rfl, rfl⟩ := greatest
      exact reread_greatest bits
    · obtain ⟨y, read⟩ := number_finite negative canonical small greatest
      have text : x.write .json = (if negative then "-" else "") ++
          Binary.Numeral.json.decimal (if m = 0 then ⟨0, 0⟩ else Binary.Format.double.shortest .even m e) := by
        rw [Binary64.write, class_eq]
        rfl
      have whole : scalar (x.write .json).toList = .ok (.float y, []) := by
        rw [text, String.toList_append]
        cases negative with
        | false => exact scalar_number read
        | true => exact read
      exact ⟨y, by rw [Binary64.reread?, whole]⟩
  · cases finite

theorem scalar_float {x : Binary64} (finite : x.isFinite = true) (ends : Ends rest) :
    scalar ((x.write .json).toList ++ rest) = .ok (.float x.reread, rest) := by
  have whole : scalar (x.write .json).toList = .ok (.float x.reread, []) := by
    obtain ⟨y, read⟩ := exists_reread finite
    rw [Binary64.reread, read]
    unfold Binary64.reread? at read
    split at read
    · next made =>
      cases read
      exact made
    · cases read
  generalize (x.write .json).toList = cs at whole
  unfold scalar at whole
  split at whole
  · cases word_result whole
  · cases word_result whole
  · cases word_result whole
  · exact number_steady _ _ _ _ rest ends whole
  · obtain ⟨r, -, same⟩ := Except.map_eq_ok.mp whole
    cases same
  · split at whole
    · next digit =>
      rw [List.cons_append, scalar_digit digit]
      exact number_steady _ _ _ _ rest ends whole
    · cases whole
  · cases whole

end

end Json

end PackRpc
