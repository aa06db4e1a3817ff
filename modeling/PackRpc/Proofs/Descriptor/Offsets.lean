import PackRpc.Proofs.Descriptor.Grammar
/-!
# Where texts of descriptors fail

An error names what it is about by where it stands: the characters that could not follow, or the name that
means nothing, takes other parameters, or opens one bracket too many. A parser goes through the characters in
one direction and closes the brackets that it opens, so that how deep it is in them can be read off the
characters before.
-/
namespace PackRpc.Descriptor

/-- How many angle brackets are open after a character; none if it closes one that has not been opened. -/
def openBy (depth : Nat) (c : Char) : Option Nat :=
  if c = '<' then some (depth + 1)
  else if c = '>' then if depth = 0 then none else some (depth - 1)
  else some depth

def openAfter (depth : Nat) (cs : List Char) : Option Nat := cs.foldlM openBy depth

/-- With so many brackets open, the characters go on with the rest, where so many are open. -/
def Passes (depth depth' : Nat) (cs rest : List Char) : Prop :=
  ∃ taken, cs = taken ++ rest ∧ openAfter depth taken = some depth'

/-- The error is found among the characters, before which so many brackets are open. -/
def Within (depth : Nat) (cs : List Char) : Failure → Prop
  | .unexpected start _ found => start <:+ cs ∧ start.head? = found
  | .bareTuple start => start <:+ cs
  | .unknownType start name => start <:+ cs ∧ name.toList <+: start
  | .wrongParameterCount start name _ _ => start <:+ cs ∧ name.toList <+: start
  | .duplicateField .. => True
  | .tooDeep start max => max = defaultMaxDepth ∧ Passes depth max cs start ∧
      ∃ name blanks rest, IsName name ∧ Blank blanks ∧ start = name.toList ++ (blanks ++ '<' :: rest)

/-- The parser has gone on, so many brackets being open then, or has found an error. -/
def Advances {α : Type} (depth depth' : Nat) (cs : List Char) : Except Failure (α × List Char) → Prop
  | .ok (_, rest) => Passes depth depth' cs rest ∧ rest.length < cs.length
  | .error e => Within depth cs e

/-! ## The parser step by step -/

def step (c : Char) : Parser Unit := fun cs => (expect c cs).map fun rest => ((), rest)

section
variable {lookup : String → Option Descriptor} {cs : List Char}

theorem restOf_succ {α : Type} (item : Parser α) (close : Char) (fuel : Nat) (done : List α) :
    restOf item close (fuel + 1) done cs =
      match eat? close cs with
      | some rest => .ok (done.reverse, rest)
      | none => (step ',' cs).bind fun comma => (item comma.2).bind fun found =>
          restOf item close fuel (found.1 :: done) found.2 := by
  rw [restOf, step]
  cases eat? close cs with
  | some rest => rfl
  | none =>
      cases expect ',' cs with
      | error e => rfl
      | ok rest =>
          dsimp only [Except.map, Except.bind]
          cases item rest <;> rfl

theorem parameters_eq (type : Parser Descriptor) :
    parameters type cs =
      match eat? '>' cs with
      | some rest => .ok ([], rest)
      | none => (type cs).bind fun found => restOf type '>' cs.length [found.1] found.2 := by
  rw [parameters]
  cases eat? '>' cs with
  | some rest => rfl
  | none => cases type cs <;> rfl

theorem typeWith_eq (inner : Option (Parser Descriptor)) :
    typeWith lookup inner cs = (name cs).bind fun named =>
      match eat? '<' named.2 with
      | none => (resolve lookup named.1.1 named.1.2 none named.2).map (·, skipBlanks named.2)
      | some inside =>
        match inner with
        | none => .error (.tooDeep named.1.1 defaultMaxDepth)
        | some type => (parameters type inside).bind fun listed =>
            (resolve lookup named.1.1 named.1.2 (some listed.1) listed.2).map (·, listed.2) := by
  rw [typeWith]
  cases name cs with
  | error e => rfl
  | ok named =>
      dsimp only [Except.bind]
      cases eat? '<' named.2 with
      | none => rfl
      | some inside =>
          cases inner with
          | none => rfl
          | some type =>
              dsimp only
              cases parameters type inside <;> rfl

theorem fieldsOnto_succ (record : String) (fuel : Nat) (done : List (String × Descriptor)) :
    fieldsOnto lookup record (fuel + 1) done cs =
      match eat? '\x7d' cs with
      | some rest => .ok (done.reverse, rest)
      | none => (name cs).bind fun named =>
          if done.any (·.1 == named.1.2) then .error (.duplicateField record named.1.2)
          else (step ':' named.2).bind fun colon => (type lookup colon.2).bind fun typed =>
            match eat? ',' typed.2 with
            | some rest => fieldsOnto lookup record fuel ((named.1.2, typed.1) :: done) rest
            | none => (step '\x7d' typed.2).map fun brace =>
                (((named.1.2, typed.1) :: done).reverse, brace.2) := by
  rw [fieldsOnto]
  cases eat? '\x7d' cs with
  | some rest => rfl
  | none =>
      cases name cs with
      | error e => rfl
      | ok named =>
          dsimp only [Except.bind, step]
          by_cases double : done.any (·.1 == named.1.2) = true
          · rw [if_pos double, if_pos double]
          · rw [if_neg double, if_neg double]
            cases expect ':' named.2 with
            | error e => rfl
            | ok rest =>
                dsimp only [Except.map]
                cases type lookup rest with
                | error e => rfl
                | ok typed =>
                    dsimp only
                    cases eat? ',' typed.2 with
                    | some rest => rfl
                    | none => cases expect '\x7d' typed.2 <;> rfl

theorem declaration_eq : declaration lookup cs = (name cs).bind fun named =>
    (step '\x7b' named.2).bind fun brace =>
      (fieldsOnto lookup named.1.2 (brace.2.length + 1) [] brace.2).map fun listed =>
        (⟨named.1.2, listed.1⟩, listed.2) := by
  rw [declaration]
  cases name cs with
  | error e => rfl
  | ok named =>
      dsimp only [Except.bind, step]
      cases expect '\x7b' named.2 with
      | error e => rfl
      | ok rest =>
          dsimp only [Except.map]
          cases fieldsOnto lookup named.1.2 (rest.length + 1) [] rest <;> rfl

end

/-! ## What is passed -/

section
variable {depth depth' last : Nat} {c : Char} {as bs cs rest start taken : List Char} {text : String} {e : Failure}

theorem openAfter_append (depth : Nat) (as bs : List Char) :
    openAfter depth (as ++ bs) = (openAfter depth as).bind fun depth => openAfter depth bs :=
  List.foldlM_append

/-- Only brackets change how many are open. -/
theorem openAfter_plain (depth : Nat) (plain : ∀ c ∈ taken, c ≠ '<' ∧ c ≠ '>') :
    openAfter depth taken = some depth := by
  induction taken with
  | nil => rfl
  | cons c cs ih =>
      obtain ⟨⟨opened, closed⟩, others⟩ := List.forall_mem_cons.mp plain
      have same : openBy depth c = some depth := by rw [openBy, if_neg opened, if_neg closed]
      rw [openAfter, List.foldlM_cons, same]
      exact ih others

theorem not_bracket_of_isBlank (h : Text.isBlank c = true) : c ≠ '<' ∧ c ≠ '>' := by
  constructor
  · rintro rfl
    exact absurd h (by decide)
  · rintro rfl
    exact absurd h (by decide)

theorem not_bracket_of_isNameRest (h : isNameRest c = true) : c ≠ '<' ∧ c ≠ '>' := by
  constructor
  · rintro rfl
    exact absurd h (by decide)
  · rintro rfl
    exact absurd h (by decide)

theorem Passes.suffix (h : Passes depth depth' cs rest) : rest <:+ cs := by
  obtain ⟨taken, rfl, -⟩ := h
  exact List.suffix_append taken rest

theorem Passes.trans (first : Passes depth depth' cs as) (second : Passes depth' last as rest) :
    Passes depth last cs rest := by
  obtain ⟨taken, rfl, inside⟩ := first
  obtain ⟨more, rfl, further⟩ := second
  refine ⟨taken ++ more, (List.append_assoc ..).symm, ?_⟩
  rw [openAfter_append, inside]
  exact further

theorem passes_plain (plain : ∀ c ∈ taken, c ≠ '<' ∧ c ≠ '>') : Passes depth depth (taken ++ rest) rest :=
  ⟨taken, rfl, openAfter_plain depth plain⟩

theorem passes_skipBlanks (depth : Nat) (cs : List Char) : Passes depth depth cs (skipBlanks cs) := by
  obtain ⟨blanks, blank, split⟩ := skipBlanks_eq cs
  exact ⟨blanks, split, openAfter_plain depth fun c hc => not_bracket_of_isBlank (blank c hc)⟩

theorem Passes.length_le (h : Passes depth depth' cs rest) : rest.length ≤ cs.length := h.suffix.length_le

theorem passes_eat? (eaten : eat? c cs = some rest) (counted : openAfter depth [c] = some depth') :
    Passes depth depth' cs rest ∧ rest.length < cs.length := by
  have front : skipBlanks cs = c :: rest := eat?_eq_some.mp eaten
  have blanks : Passes depth depth cs (skipBlanks cs) := passes_skipBlanks depth cs
  have length := blanks.length_le
  rw [front] at blanks length
  exact ⟨blanks.trans ⟨[c], rfl, counted⟩, length⟩

theorem Within.behind (passed : Passes depth depth' cs rest) (h : Within depth' rest e) : Within depth cs e := by
  cases e with
  | unexpected | unknownType | wrongParameterCount => exact ⟨h.1.trans passed.suffix, h.2⟩
  | bareTuple => exact List.IsSuffix.trans h passed.suffix
  | duplicateField => trivial
  | tooDeep => exact ⟨h.1, passed.trans h.2.1, h.2.2⟩

theorem Advances.behind {α : Type} {r : Except Failure (α × List Char)} (passed : Passes depth depth' cs rest)
    (h : Advances depth' last rest r) : Advances depth last cs r := by
  cases r with
  | ok found => exact ⟨passed.trans h.1, Nat.lt_of_lt_of_le h.2 passed.length_le⟩
  | error e => exact Within.behind passed h

theorem Advances.bind {α β : Type} {r : Except Failure (α × List Char)}
    {next : α × List Char → Except Failure (β × List Char)} (first : Advances depth depth' cs r)
    (others : ∀ a rest, r = .ok (a, rest) → Advances depth' last rest (next (a, rest))) :
    Advances depth last cs (r.bind next) := by
  cases r with
  | error e => exact first
  | ok found => exact (others found.1 found.2 rfl).behind first.1

theorem Advances.map {α β : Type} {f : α × List Char → β} {r : Except Failure (α × List Char)}
    (h : Advances depth depth' cs r) : Advances depth depth' cs (r.map fun found => (f found, found.2)) := by
  cases r with
  | error e => exact h
  | ok found => exact h

theorem within_failAt (depth : Nat) (wanted : Wanted) (cs : List Char) : Within depth cs (failAt wanted cs) :=
  ⟨(passes_skipBlanks depth cs).suffix, rfl⟩

theorem step_advances (counted : openAfter depth [c] = some depth') : Advances depth depth' cs (step c cs) := by
  rw [step, expect]
  cases eaten : eat? c cs with
  | some rest => exact passes_eat? eaten counted
  | none => exact within_failAt depth (.char c) cs

theorem name_passes (depth : Nat) (h : name cs = .ok ((start, text), rest)) :
    Passes depth depth cs start ∧ Passes depth depth start rest ∧ rest.length < cs.length ∧
      start = text.toList ++ rest ∧ IsName text := by
  obtain ⟨rfl, named, front, -⟩ := name_eq_ok.mp h
  obtain ⟨c, more, chars, first, others⟩ := isName_iff.mp named
  have plain : ∀ c ∈ text.toList, c ≠ '<' ∧ c ≠ '>' := by
    rw [chars]
    exact List.forall_mem_cons.mpr ⟨not_bracket_of_isNameRest (isNameRest_of_isNameStart first),
      fun c hc => not_bracket_of_isNameRest (others c hc)⟩
  have blanks : Passes depth depth cs (skipBlanks cs) := passes_skipBlanks depth cs
  have length : rest.length < cs.length := by
    refine Nat.lt_of_lt_of_le ?_ blanks.length_le
    rw [front, chars, List.cons_append, List.length_cons, List.length_append]
    omega
  refine ⟨blanks, ?_, length, front, named⟩
  rw [front]
  exact passes_plain plain

theorem name_advances (depth : Nat) (cs : List Char) : Advances depth depth cs (name cs) := by
  cases read : name cs with
  | ok found =>
      obtain ⟨blanks, passed, shorter, -⟩ := name_passes depth read
      exact ⟨blanks.trans passed, shorter⟩
  | error e =>
      simp only [name] at read
      split at read
      · split at read
        · cases read
        · cases read
          exact within_failAt depth .typeName cs
      · cases read
        exact within_failAt depth .typeName cs

end

/-! ## Parsers -/

/-- Wherever it starts with so many brackets open, the parser goes on to where so many are open again, or finds
an error. -/
def Steady {α : Type} (depth : Nat) (parser : Parser α) : Prop :=
  ∀ cs, Advances depth depth cs (parser cs)

section
variable {depth : Nat} {lookup : String → Option Descriptor} {c : Char} {cs rest start : List Char} {text : String}
  {e : Failure} {params : Option (List Descriptor)}

/-- The rest of a list closes the bracket that the list has opened. -/
theorem restOf_advances {α : Type} {item : Parser α} (steady : Steady (depth + 1) item) (fuel : Nat) (done : List α)
    (cs : List Char) : Advances (depth + 1) depth cs (restOf item '>' fuel done cs) := by
  induction fuel generalizing done cs with
  | zero => exact within_failAt (depth + 1) (.char ',') cs
  | succ fuel ih =>
      rw [restOf_succ]
      cases closed : eat? '>' cs with
      | some rest => exact passes_eat? closed rfl
      | none =>
          have comma : Advances (depth + 1) (depth + 1) cs (step ',' cs) := step_advances rfl
          refine comma.bind fun _ rest _ => ?_
          exact (steady rest).bind fun a after _ => ih (a :: done) after

theorem parameters_advances {type : Parser Descriptor} (steady : Steady (depth + 1) type) (cs : List Char) :
    Advances (depth + 1) depth cs (parameters type cs) := by
  rw [parameters_eq]
  cases closed : eat? '>' cs with
  | some rest => exact passes_eat? closed rfl
  | none => exact (steady cs).bind fun d rest _ => restOf_advances steady cs.length [d] rest

/-- A name is refused where it stands, but a tuple without parameters is refused behind its name. -/
theorem resolve_within {all : List Char} (stands : start <:+ all) (named : text.toList <+: start)
    (after : skipBlanks cs <:+ all) (h : resolve lookup start text params cs = .error e) : Within depth all e := by
  by_cases generic : text ∈ generics
  · unfold resolve at h
    split at h
    case h_6 => simp_all [generics]
    case h_5 =>
      split at h
      · cases h
      · cases h
        exact after
    all_goals
      split at h
      · cases h
      · cases h
        exact ⟨stands, named⟩
  · rw [resolve_simple generic] at h
    split at h
    · cases h
      exact ⟨stands, named⟩
    · split at h
      · cases h
      · cases h
        exact ⟨stands, named⟩

/-- What a name means is read behind it, with what follows it. -/
theorem resolve_advances {all rest : List Char} (stands : start <:+ all) (named : text.toList <+: start)
    (after : skipBlanks cs <:+ all) (passed : Passes depth depth all rest) (shorter : rest.length < all.length) :
    Advances depth depth all ((resolve lookup start text params cs).map (·, rest)) := by
  cases meant : resolve lookup start text params cs with
  | error e => exact resolve_within stands named after meant
  | ok d => exact ⟨passed, shorter⟩

/-- The bracket that may not be opened is one more than may be open. -/
theorem typeWith_steady {inner : Option (Parser Descriptor)} (deepest : inner = none → depth = defaultMaxDepth)
    (steady : ∀ type, inner = some type → Steady (depth + 1) type) : Steady depth (typeWith lookup inner) := by
  intro cs
  rw [typeWith_eq]
  cases first : name cs with
  | error e =>
      have failed := name_advances depth cs
      rw [first] at failed
      exact failed
  | ok named =>
      obtain ⟨⟨start, text⟩, rest⟩ := named
      obtain ⟨blanks, passed, shorter, front, named⟩ := name_passes depth first
      have reached : Passes depth depth cs rest := blanks.trans passed
      have prefixed : text.toList <+: start := ⟨rest, front.symm⟩
      dsimp only [Except.bind]
      cases opened : eat? '<' rest with
      | none =>
          have skipped : Passes depth depth rest (skipBlanks rest) := passes_skipBlanks depth rest
          have after : Passes depth depth cs (skipBlanks rest) := reached.trans skipped
          have fewer : (skipBlanks rest).length < cs.length := Nat.lt_of_le_of_lt skipped.length_le shorter
          exact resolve_advances blanks.suffix prefixed after.suffix after fewer
      | some inside =>
          have entered : Passes depth (depth + 1) cs inside := reached.trans (passes_eat? opened rfl).1
          cases inner with
          | none =>
              obtain ⟨gap, blank, split⟩ := skipBlanks_eq rest
              rw [eat?_eq_some.mp opened] at split
              have full : depth = defaultMaxDepth := deepest rfl
              exact ⟨rfl, full ▸ blanks, text, gap, inside, named, blank, by rw [front, split]⟩
          | some type =>
              have closes := (parameters_advances (steady type rfl) inside).behind entered
              dsimp only
              cases read : parameters type inside with
              | error e =>
                  rw [read] at closes
                  exact closes
              | ok listed =>
                  rw [read] at closes
                  have after := (closes.1.trans (passes_skipBlanks depth listed.2)).suffix
                  exact resolve_advances blanks.suffix prefixed after closes.1 closes.2

theorem typeAt_steady {levels : Nat} (h : depth + levels = defaultMaxDepth) : Steady depth (typeAt lookup levels) := by
  induction levels generalizing depth with
  | zero => exact typeWith_steady (fun _ => h) nofun
  | succ levels ih =>
      refine typeWith_steady nofun ?_
      rintro _ ⟨⟩
      exact ih (by omega)

theorem type_steady : Steady 0 (type lookup) := typeAt_steady rfl

theorem fieldsOnto_advances (record : String) (fuel : Nat) (done : List (String × Descriptor)) (cs : List Char) :
    Advances 0 0 cs (fieldsOnto lookup record fuel done cs) := by
  induction fuel generalizing done cs with
  | zero => exact within_failAt 0 (.char '\x7d') cs
  | succ fuel ih =>
      rw [fieldsOnto_succ]
      cases closed : eat? '\x7d' cs with
      | some rest => exact passes_eat? closed rfl
      | none =>
          refine (name_advances 0 cs).bind fun named rest _ => ?_
          dsimp only
          by_cases double : done.any (·.1 == named.2) = true
          · rw [if_pos double]
            trivial
          · rw [if_neg double]
            have colon : Advances 0 0 rest (step ':' rest) := step_advances rfl
            refine colon.bind fun _ typed _ => (type_steady typed).bind fun d after _ => ?_
            dsimp only
            cases comma : eat? ',' after with
            | some more => exact (ih _ more).behind (passes_eat? comma rfl).1
            | none =>
                have brace : Advances 0 0 after (step '\x7d' after) := step_advances rfl
                exact brace.map

theorem declaration_steady : Steady 0 (declaration lookup) := by
  intro cs
  rw [declaration_eq]
  have brace (rest : List Char) : Advances 0 0 rest (step '\x7b' rest) := step_advances rfl
  refine (name_advances 0 cs).bind fun named rest _ => (brace rest).bind fun _ inside _ => ?_
  exact (fieldsOnto_advances named.2 (inside.length + 1) [] inside).map

theorem whole_within {α : Type} {parser : Parser α} (steady : Steady 0 parser) (h : whole parser cs = .error e) :
    Within 0 cs e := by
  have read := steady cs
  unfold whole at h
  split at h
  case h_1 failed =>
    cases h
    rw [failed] at read
    exact read
  case h_2 rest found =>
    rw [found] at read
    split at h
    · cases h
    · cases h
      exact (within_failAt 0 .endOfInput rest).behind read.1

end

/-! ## Offsets -/

/-- The byte offset in a text of the characters that are left of it. -/
def offset (text : String) (cs : List Char) : Nat := utf8Length text.toList - utf8Length cs

theorem utf8Length_append (as bs : List Char) : utf8Length (as ++ bs) = utf8Length as + utf8Length bs := by
  rw [utf8Length, String.ofList_append, String.utf8ByteSize_append]
  rfl

theorem offset_of_append {text : String} {before cs : List Char} (split : text.toList = before ++ cs) :
    offset text cs = utf8Length before := by
  rw [offset, split, utf8Length_append, Nat.add_sub_cancel]

theorem run_eq {α : Type} (parser : Parser α) (text : String) :
    run parser text = (whole parser text.toList).mapError (.map (offset text)) := by
  rw [run]
  cases whole parser text.toList <;> rfl

end PackRpc.Descriptor

namespace PackRpc

open Descriptor (IsName Blank openAfter offset Within whole)

def StandsAt (text : String) (offset : Nat) (after : String) : Prop :=
  ∃ before, text = before ++ after ∧ before.utf8ByteSize = offset

namespace ParseError

def offset? : ParseError Nat → Option Nat
  | unexpected offset .. | bareTuple offset | unknownType offset _ | wrongParameterCount offset .. | tooDeep offset _ =>
    some offset
  | duplicateField .. => none

/-- What stands in the text where the error says: the character that could not follow, the name that is
refused, or the name whose bracket is one more than may be open. -/
def PointsInto (text : String) : ParseError Nat → Prop
  | unexpected offset _ found => ∃ after, StandsAt text offset after ∧ after.toList.head? = found
  | bareTuple offset => ∃ after, StandsAt text offset after
  | unknownType offset name | wrongParameterCount offset name _ _ => ∃ after, StandsAt text offset (name ++ after)
  | duplicateField .. => True
  | tooDeep offset max => max = defaultMaxDepth ∧ ∃ before name blanks after,
      text = before ++ (name ++ (blanks ++ ("<" ++ after))) ∧ before.utf8ByteSize = offset ∧ IsName name ∧
        Blank blanks.toList ∧ openAfter 0 before.toList = some max

end ParseError

section
variable {text : String} {n : Nat}

theorem StandsAt.isValid {after : String} (h : StandsAt text n after) :
    n ≤ text.utf8ByteSize ∧ (⟨n⟩ : String.Pos.Raw).IsValid text := by
  obtain ⟨before, rfl, rfl⟩ := h
  have valid : (⟨before.utf8ByteSize⟩ : String.Pos.Raw).IsValid (before ++ after) :=
    String.Pos.Raw.isValid_iff_exists_append.mpr ⟨before, after, rfl, rfl⟩
  exact ⟨valid.le_utf8ByteSize, valid⟩

theorem ParseError.PointsInto.isValid {e : ParseError Nat} (h : e.PointsInto text) (stated : e.offset? = some n) :
    n ≤ text.utf8ByteSize ∧ (⟨n⟩ : String.Pos.Raw).IsValid text := by
  cases e with
  | duplicateField => cases stated
  | tooDeep =>
      cases stated
      obtain ⟨-, before, name, blanks, after, split, size, -⟩ := h
      exact StandsAt.isValid ⟨before, split, size⟩
  | unexpected =>
      cases stated
      obtain ⟨after, behind, -⟩ := h
      exact behind.isValid
  | _ =>
      cases stated
      obtain ⟨after, behind⟩ := h
      exact behind.isValid

theorem standsAt_of_suffix {cs : List Char} (h : cs <:+ text.toList) : StandsAt text (offset text cs) (.ofList cs) := by
  obtain ⟨before, split⟩ := h
  refine ⟨.ofList before, ?_, (Descriptor.offset_of_append split.symm).symm⟩
  rw [← String.ofList_append, split, String.ofList_toList]

theorem standsAt_of_name {cs : List Char} {name : String} (h : cs <:+ text.toList) (named : name.toList <+: cs) :
    ∃ after, StandsAt text (offset text cs) (name ++ after) := by
  obtain ⟨after, rfl⟩ := named
  refine ⟨.ofList after, ?_⟩
  have behind := standsAt_of_suffix h
  rwa [String.ofList_append, String.ofList_toList] at behind

/-- An error among the characters of a text has the offset of what it is about. -/
theorem pointsInto_of_within {e : ParseError (List Char)} (h : Within 0 text.toList e) :
    (e.map (offset text)).PointsInto text := by
  cases e with
  | unexpected start wanted found => exact ⟨.ofList start, standsAt_of_suffix h.1, by rw [String.toList_ofList, h.2]⟩
  | bareTuple start => exact ⟨.ofList start, standsAt_of_suffix h⟩
  | unknownType start name => exact standsAt_of_name h.1 h.2
  | wrongParameterCount start name => exact standsAt_of_name h.1 h.2
  | duplicateField => trivial
  | tooDeep start max =>
      obtain ⟨rfl, ⟨before, split, opened⟩, name, blanks, rest, named, blank, rfl⟩ := h
      refine ⟨rfl, .ofList before, name, .ofList blanks, .ofList rest, ?_, ?_, named, ?_, ?_⟩
      · rw [← String.toList_inj, split]
        simp
      · exact (Descriptor.offset_of_append split).symm
      · rwa [String.toList_ofList]
      · rwa [String.toList_ofList]

theorem run_pointsInto {α : Type} {parser : Descriptor.Parser α} (steady : Descriptor.Steady 0 parser)
    {e : ParseError Nat} (h : Descriptor.run parser text = .error e) : e.PointsInto text := by
  rw [Descriptor.run_eq] at h
  cases read : whole parser text.toList with
  | ok a =>
      rw [read] at h
      cases h
  | error failure =>
      rw [read] at h
      cases h
      exact pointsInto_of_within (Descriptor.whole_within steady read)

end

end PackRpc
