import Mathlib.Data.List.DropRight
import PackRpc.Descriptor.Parsing
/-!
# Tokens of descriptors and declarations

A text is written in names and marks, with white space wherever one likes between them. What the parts of
the parser read off the front of a text is stated by the tokens it is written in, whatever follows them.
-/
namespace PackRpc.Descriptor

inductive Mark where
  | opening
  | closing
  | comma
  | colon
  | leftBrace
  | rightBrace
  deriving DecidableEq

def Mark.char : Mark → Char
  | opening => '<'
  | closing => '>'
  | comma => ','
  | colon => ':'
  | leftBrace => '\x7b'
  | rightBrace => '\x7d'

inductive Token where
  | name (text : String)
  | mark (m : Mark)
  deriving DecidableEq

def IsLetter (c : Char) : Prop := ('a' ≤ c ∧ c ≤ 'z') ∨ ('A' ≤ c ∧ c ≤ 'Z')

def IsDigit (c : Char) : Prop := '0' ≤ c ∧ c ≤ '9'

/-- Letters, digits and underscores, no digit being the first. -/
def IsName (text : String) : Prop :=
  ∃ c rest, text.toList = c :: rest ∧ (c = '_' ∨ IsLetter c) ∧
    ∀ c ∈ rest, c = '_' ∨ IsLetter c ∨ IsDigit c

def Blank (cs : List Char) : Prop := ∀ c ∈ cs, Text.isBlank c = true

/-- The characters are the tokens in order, with any white space before, between and after them. -/
inductive Written : List Token → List Char → Prop
  | nil {blanks} : Blank blanks → Written [] blanks
  | name {blanks text tokens cs} : Blank blanks → IsName text → Written tokens cs →
      Written (.name text :: tokens) (blanks ++ (text.toList ++ cs))
  | mark {blanks tokens cs} (m : Mark) : Blank blanks → Written tokens cs →
      Written (.mark m :: tokens) (blanks ++ m.char :: cs)

theorem isAlpha_iff (c : Char) : c.isAlpha = true ↔ IsLetter c := by
  have letters : c.isAlpha = (decide ('A' ≤ c ∧ c ≤ 'Z') || (decide ('a' ≤ c) && decide (c ≤ 'z'))) := rfl
  simp only [letters, Bool.or_eq_true, Bool.and_eq_true, decide_eq_true_eq, IsLetter]
  exact Or.comm

theorem isNameStart_iff (c : Char) : isNameStart c = true ↔ c = '_' ∨ IsLetter c := by
  simp only [isNameStart, Bool.or_eq_true, beq_iff_eq, isAlpha_iff]

theorem isNameRest_iff (c : Char) : isNameRest c = true ↔ c = '_' ∨ IsLetter c ∨ IsDigit c := by
  simp only [isNameRest, Char.isAlphanum, Char.isDigit, Bool.or_eq_true, Bool.and_eq_true, decide_eq_true_eq,
    beq_iff_eq, isAlpha_iff, IsDigit, Char.le_def, ge_iff_le]

theorem not_isNameRest_of_isBlank {c : Char} (h : Text.isBlank c = true) : isNameRest c = false := by
  -- No blank is among the code points of underscore, letters and digits.
  have codes (named : isNameRest c = true) : c.toNat = 95 ∨ (97 ≤ c.toNat ∧ c.toNat ≤ 122) ∨
      (65 ≤ c.toNat ∧ c.toNat ≤ 90) ∨ (48 ≤ c.toNat ∧ c.toNat ≤ 57) := by
    rcases (isNameRest_iff c).mp named with rfl | (⟨low, high⟩ | ⟨low, high⟩) | ⟨low, high⟩
    · exact .inl rfl
    · exact .inr (.inl ⟨low, high⟩)
    · exact .inr (.inr (.inl ⟨low, high⟩))
    · exact .inr (.inr (.inr ⟨low, high⟩))
  simp only [Text.isBlank, Bool.or_eq_true, Bool.and_eq_true, decide_eq_true_eq, beq_iff_eq] at h
  refine Bool.eq_false_iff.mpr fun named => ?_
  have := codes named
  omega

theorem isNameRest_of_isNameStart {c : Char} (h : isNameStart c = true) : isNameRest c = true :=
  (isNameRest_iff c).mpr (((isNameStart_iff c).mp h).imp_right .inl)

theorem Mark.not_isBlank (m : Mark) : Text.isBlank m.char = false := by cases m <;> decide

theorem Mark.not_isNameRest (m : Mark) : isNameRest m.char = false := by cases m <;> decide

theorem Mark.char_injective {m n : Mark} (h : m.char = n.char) : m = n := by
  cases m <;> cases n <;> first | rfl | cases h

variable {m : Mark} {text : String} {tokens after : List Token} {start cs rest blanks : List Char}

theorem isName_iff : IsName text ↔ ∃ c rest, text.toList = c :: rest ∧ isNameStart c = true ∧
    ∀ c ∈ rest, isNameRest c = true := by
  simp only [IsName, isNameStart_iff, isNameRest_iff]

instance (text : String) : Decidable (IsName text) :=
  decidable_of_iff ((text.toList.head?.any isNameStart && text.toList.tail.all isNameRest) = true) <| by
    rw [isName_iff]
    cases text.toList <;> simp

theorem skipBlanks_append (h : Blank blanks) (cs : List Char) : skipBlanks (blanks ++ cs) = skipBlanks cs :=
  List.dropWhile_append_of_pos h

theorem skipBlanks_skipBlanks (cs : List Char) : skipBlanks (skipBlanks cs) = skipBlanks cs :=
  List.dropWhile_idempotent _ _

theorem skipBlanks_cons {c : Char} (h : Text.isBlank c = false) (cs : List Char) :
    skipBlanks (c :: cs) = c :: cs :=
  List.dropWhile_cons_of_neg (Bool.eq_false_iff.mp h)

theorem skipBlanks_eq (cs : List Char) : ∃ blanks, Blank blanks ∧ cs = blanks ++ skipBlanks cs :=
  ⟨cs.takeWhile Text.isBlank, fun _ h => List.all_eq_true.mp List.all_takeWhile _ h,
    List.takeWhile_append_dropWhile.symm⟩

theorem skipBlanks_eq_nil : skipBlanks cs = [] ↔ Blank cs := List.dropWhile_eq_nil_iff

/-! ## The first token -/

theorem written_nil : Written [] cs ↔ skipBlanks cs = [] := by
  rw [skipBlanks_eq_nil]
  exact ⟨fun | .nil blank => blank, .nil⟩

theorem written_mark : Written (.mark m :: after) cs ↔
    ∃ rest, skipBlanks cs = m.char :: rest ∧ Written after rest := by
  constructor
  · rintro (_ | _ | ⟨_, blank, others⟩)
    exact ⟨_, by rw [skipBlanks_append blank, skipBlanks_cons m.not_isBlank], others⟩
  · rintro ⟨rest, front, others⟩
    obtain ⟨blanks, blank, split⟩ := skipBlanks_eq cs
    rw [split, front]
    exact .mark m blank others

theorem written_name : Written (.name text :: after) cs ↔
    IsName text ∧ ∃ rest, skipBlanks cs = text.toList ++ rest ∧ Written after rest := by
  constructor
  · rintro (_ | ⟨blank, named, others⟩ | _)
    refine ⟨named, _, ?_, others⟩
    obtain ⟨c, more, chars, first, -⟩ := isName_iff.mp named
    have solid : Text.isBlank c = false := by
      refine Bool.eq_false_iff.mpr fun blank => ?_
      have := not_isNameRest_of_isBlank blank
      rw [isNameRest_of_isNameStart first] at this
      cases this
    rw [skipBlanks_append blank, chars]
    exact skipBlanks_cons solid _
  · rintro ⟨named, rest, front, others⟩
    obtain ⟨blanks, blank, split⟩ := skipBlanks_eq cs
    rw [split, front]
    exact .name blank named others

theorem written_skipBlanks : Written tokens (skipBlanks cs) ↔ Written tokens cs := by
  match tokens with
  | [] => rw [written_nil, written_nil, skipBlanks_skipBlanks]
  | .name _ :: _ => rw [written_name, written_name, skipBlanks_skipBlanks]
  | .mark _ :: _ => rw [written_mark, written_mark, skipBlanks_skipBlanks]

theorem Written.blanks_append (h : Written tokens cs) (blank : Blank blanks) : Written tokens (blanks ++ cs) := by
  rw [← written_skipBlanks, skipBlanks_append blank, written_skipBlanks]
  exact h

theorem Written.length_le (h : Written tokens cs) : tokens.length ≤ cs.length := by
  induction h with
  | nil => exact Nat.zero_le _
  | name _ named _ bound =>
      obtain ⟨c, more, chars, -⟩ := named
      simp only [chars, List.length_append, List.length_cons]
      omega
  | mark _ _ _ bound =>
      simp only [List.length_append, List.length_cons]
      omega

/-- No name comes next, that letters would add to a name before it. -/
def Closed (after : List Token) : Prop := ∀ text, after.head? ≠ some (.name text)

theorem Written.not_isNameRest (h : Written after cs) (closed : Closed after) :
    ∀ c ∈ cs.head?, isNameRest c = false := by
  have blankFirst {blanks more : List Char} (blank : Blank blanks)
      (others : ∀ c ∈ more.head?, isNameRest c = false) :
      ∀ c ∈ (blanks ++ more).head?, isNameRest c = false := by
    cases blanks with
    | nil => exact others
    | cons b _ =>
        rintro _ ⟨⟩
        exact not_isNameRest_of_isBlank (blank b List.mem_cons_self)
  cases h with
  | nil blank =>
      rw [← List.append_nil cs]
      exact blankFirst blank nofun
  | name => exact absurd rfl (closed _)
  | mark m blank =>
      refine blankFirst blank ?_
      rintro _ ⟨⟩
      exact m.not_isNameRest

/-! ## What the parser reads first -/

theorem eat?_eq_some {c : Char} : eat? c cs = some rest ↔ skipBlanks cs = c :: rest := by
  unfold eat?
  split
  case h_1 d more front => simp only [front, Option.ite_none_right_eq_some, Option.some.injEq, List.cons.injEq]
  case h_2 front => simp [front]

theorem written_mark_iff_eat? : Written (.mark m :: after) cs ↔
    ∃ rest, eat? m.char cs = some rest ∧ Written after rest := by
  simp only [written_mark, eat?_eq_some]

theorem eat?_eq_none (h : Written tokens cs) (other : tokens.head? ≠ some (.mark m)) :
    eat? m.char cs = none := by
  refine Option.eq_none_iff_forall_ne_some.mpr fun rest found => ?_
  rw [eat?_eq_some] at found
  match tokens with
  | [] =>
      rw [written_nil.mp h] at found
      cases found
  | .name text :: _ =>
      obtain ⟨named, _, front, -⟩ := written_name.mp h
      obtain ⟨c, more, chars, first, -⟩ := isName_iff.mp named
      rw [found, chars] at front
      obtain ⟨rfl, -⟩ := List.cons.inj front
      have := m.not_isNameRest
      rw [isNameRest_of_isNameStart first] at this
      cases this
  | .mark n :: _ =>
      obtain ⟨_, front, -⟩ := written_mark.mp h
      rw [found] at front
      obtain rfl := Mark.char_injective (List.cons.inj front).1
      exact other rfl

theorem expect_eq_ok {c : Char} : expect c cs = .ok rest ↔ eat? c cs = some rest := by
  unfold expect
  split <;> simp_all

/-- Characters of a name are told from what follows them. -/
theorem span_name {more : List Char} (others : ∀ c ∈ more, isNameRest c = true)
    (ended : ∀ c ∈ rest.head?, isNameRest c = false) :
    (more ++ rest).takeWhile isNameRest = more ∧ (more ++ rest).dropWhile isNameRest = rest := by
  rw [List.takeWhile_append_of_pos others, List.dropWhile_append_of_pos others]
  cases rest with
  | nil => exact ⟨List.append_nil more, rfl⟩
  | cons d rest =>
      have := Bool.eq_false_iff.mp (ended d rfl)
      rw [List.takeWhile_cons_of_neg this, List.dropWhile_cons_of_neg this, List.append_nil]
      exact ⟨rfl, rfl⟩

theorem name_eq_ok : name cs = .ok ((start, text), rest) ↔
    start = skipBlanks cs ∧ IsName text ∧ skipBlanks cs = text.toList ++ rest ∧
      ∀ c ∈ rest.head?, isNameRest c = false := by
  constructor
  · intro h
    simp only [name] at h
    split at h
    case h_2 => cases h
    case h_1 c more front =>
      split at h
      case isFalse => cases h
      case isTrue first =>
        rw [Except.ok.injEq, Prod.mk.injEq, Prod.mk.injEq] at h
        obtain ⟨⟨rfl, rfl⟩, rfl⟩ := h
        refine ⟨rfl, isName_iff.mpr ⟨c, _, String.toList_ofList, first, fun c h => ?_⟩, ?_, fun c h => ?_⟩
        · exact List.mem_takeWhile_imp h
        · rw [String.toList_ofList, List.cons_append, List.takeWhile_append_dropWhile, front]
        · have := List.head?_dropWhile_not isNameRest more
          rw [h] at this
          simpa using this
  · rintro ⟨rfl, named, front, ended⟩
    obtain ⟨c, more, chars, first, others⟩ := isName_iff.mp named
    obtain ⟨taken, left⟩ := span_name others ended
    have written : text = .ofList (c :: more) := by rw [← chars, String.ofList_toList]
    rw [chars, List.cons_append] at front
    simp only [name, front, first, if_true, taken, left, written]

theorem name_written (h : Written (.name text :: after) cs) (closed : Closed after) :
    ∃ rest, name cs = .ok ((skipBlanks cs, text), rest) ∧ Written after rest := by
  obtain ⟨named, rest, front, others⟩ := written_name.mp h
  exact ⟨rest, name_eq_ok.mpr ⟨rfl, named, front, others.not_isNameRest closed⟩, others⟩

theorem written_of_name (h : name cs = .ok ((start, text), rest)) :
    IsName text ∧ ∀ after, Written after rest → Written (.name text :: after) cs := by
  obtain ⟨-, named, front, -⟩ := name_eq_ok.mp h
  exact ⟨named, fun _ others => written_name.mpr ⟨named, rest, front, others⟩⟩

end PackRpc.Descriptor
