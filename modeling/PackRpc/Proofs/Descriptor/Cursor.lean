import PackRpc.Proofs.Descriptor.Offsets
/-!
# Reading by byte positions

A parser that keeps a position in the bytes of a text and slices the text there would be stopped by a slice
that starts or ends inside a character or outside the text, and could go on forever. Written down in that way,
the parser of descriptors does neither, and it gives what the parser gives that takes characters off the front.
-/
namespace PackRpc.Descriptor

namespace Cursor

/-- Reads from a byte position on, and moves it. Nothing comes of it if the text is sliced where it cannot be
or if there is no end to it. -/
abbrev Scan (α : Type) := StateT Nat (ExceptT (ParseError Nat) Option) α

/-- The characters behind so many bytes; none past the end of them and inside a character. -/
def dropBytes : (bytes : Nat) → List Char → Option (List Char)
  | 0, cs => some cs
  | _ + 1, [] => none
  | n + 1, c :: cs => if c.utf8Size ≤ n + 1 then dropBytes (n + 1 - c.utf8Size) cs else none

/-- The characters of the first so many bytes, where the others can be sliced off. -/
def takeBytes (bytes : Nat) (cs : List Char) : Option (List Char) :=
  (dropBytes bytes cs).map fun rest => cs.take (cs.length - rest.length)

/-- The byte position, counted from `i`, of the first character that is not part of a name. A digit is part of it
except at the start. -/
def nameEnd (i : Nat) : List Char → Nat
  | [] => i
  | c :: cs => if c == '_' || c.isAlpha || (decide (0 < i) && c.isDigit) then nameEnd (i + c.utf8Size) cs else i

section
variable (text : String)

def rest : Scan (List Char) := do
  dropBytes (← get) text.toList

def skipWhite : Scan Unit := do
  let rest ← rest text
  modify (· + (utf8Length rest - utf8Length (rest.dropWhile Text.isBlank)))

def peek : Scan (Option Char) := do
  skipWhite text
  return (← rest text).head?

def eat (c : Char) : Scan Bool := do
  if (← peek text) = some c then
    modify (· + c.utf8Size)
    return true
  else
    return false

def unexpected {α : Type} (wanted : Wanted) : Scan α := do
  let found ← peek text
  throw (.unexpected (← get) wanted found)

def expect (c : Char) : Scan Unit := do
  if ← eat text c then
    return ()
  else
    unexpected text (.char c)

def identifier : Scan (Nat × String) := do
  skipWhite text
  let start ← get
  let rest ← rest text
  let length := nameEnd 0 rest
  if length = 0 then
    unexpected text .typeName
  else
    modify (· + length)
    return (start, .ofList (← takeBytes length rest))

def finish : Scan Unit := do
  match ← peek text with
  | none => return ()
  | some _ => unexpected text .endOfInput

end

/-- The parameters of a name, if there are as many as it takes. -/
def arity (start : Nat) (name : String) (params : Option (List Descriptor)) (expected : Nat) :
    Scan (List Descriptor) :=
  match params with
  | some ds => if ds.length = expected then return ds else throw (.wrongParameterCount start name expected ds.length)
  | none => throw (.wrongParameterCount start name expected 0)

def meaning (lookup : String → Option Descriptor) (start : Nat) (name : String)
    (params : Option (List Descriptor)) : Scan Descriptor := do
  match name with
  | "nullable" | "optional" => return .nullable ((← arity start name params 1).headD .unit)
  | "list" => return .list ((← arity start name params 1).headD .unit)
  | "map" =>
    let ds ← arity start name params 2
    return .map (ds.headD .unit) (ds.tail.headD .unit)
  | "tuple" =>
    match params with
    | some items => return .tuple items
    | none => throw (.bareTuple (← get))
  | _ =>
    match (plain? name).or (lookup name) with
    | none => throw (.unknownType start name)
    | some d =>
      if params.isSome then
        let _ ← arity start name params 0
        return d
      else
        return d

section
variable (text : String)

def parametersOnto (type : Scan Descriptor) : (fuel : Nat) → List Descriptor → Scan (List Descriptor)
  | 0, _ => (none : Option (List Descriptor))
  | fuel + 1, params => do
    let params := params ++ [← type]
    if ← eat text '>' then
      return params
    else
      expect text ','
      parametersOnto type fuel params

def parameters (type : Scan Descriptor) : Scan (List Descriptor) := do
  if ← eat text '>' then
    return []
  else
    parametersOnto text type (text.length + 1) []

def descriptorWith (lookup : String → Option Descriptor) (inner : Option (Scan Descriptor)) : Scan Descriptor := do
  let (start, name) ← identifier text
  if ← eat text '<' then
    match inner with
    | none => throw (.tooDeep start defaultMaxDepth)
    | some type => meaning lookup start name (some (← parameters text type))
  else
    meaning lookup start name none

/-- Reads a type; so many more brackets may be opened. -/
def descriptorAt (lookup : String → Option Descriptor) : (levels : Nat) → Scan Descriptor
  | 0 => descriptorWith text lookup none
  | levels + 1 => descriptorWith text lookup (some (descriptorAt lookup levels))

def descriptor (lookup : String → Option Descriptor) : Scan Descriptor := descriptorAt text lookup defaultMaxDepth

def fieldsOnto (lookup : String → Option Descriptor) (record : String) :
    (fuel : Nat) → List (String × Descriptor) → Scan (List (String × Descriptor))
  | 0, _ => (none : Option (List (String × Descriptor)))
  | fuel + 1, fields => do
    if ← eat text '\x7d' then
      return fields
    else
      let (_, field) ← identifier text
      if fields.any (·.1 == field) then
        throw (.duplicateField record field)
      else
        expect text ':'
        let fields := fields ++ [(field, ← descriptor text lookup)]
        if ← eat text ',' then
          fieldsOnto lookup record fuel fields
        else
          expect text '\x7d'
          return fields

def declaration (lookup : String → Option Descriptor) : Scan RecordType := do
  let (_, name) ← identifier text
  expect text '\x7b'
  return ⟨name, ← fieldsOnto text lookup name (text.length + 1) []⟩

def run {α : Type} (scan : Scan α) : Option (Except (ParseError Nat) α) :=
  (do
    let a ← scan
    finish text
    return a : Scan α).run' 0

end

def parse (r : Registry) (text : String) : Option (Except (ParseError Nat) Descriptor) :=
  run text (descriptor text r.lookup)

def define (r : Registry) (text : String) : Option (Except (ParseError Nat) (RecordType × Registry)) :=
  (run text (declaration text r.lookup)).map fun read => read.map fun t => (t, r.insert t.name t)

/-! ## What a scan gives -/

/-- What a scan gives at a position: a value and the next position, or an error. -/
def outcome {α : Type} (scan : Scan α) (position : Nat) : Option (Except (ParseError Nat) (α × Nat)) :=
  (scan.run position).run

/-- At the characters, the scan gives what is given, at the byte positions of the characters named there. -/
def Follows {α : Type} (text : String) (scan : Scan α) (cs : List Char) :
    Except Failure (α × List Char) → Prop
  | .ok (a, rest) => outcome scan (offset text cs) = some (.ok (a, offset text rest))
  | .error e => outcome scan (offset text cs) = some (.error (e.map (offset text)))

section
variable {α β : Type} {text : String} {scan : Scan α} {next : α → Scan β} {a : α} {e : Failure}
  {cs rest : List Char} {r : Except Failure (β × List Char)}

theorem outcome_bind (scan : Scan α) (next : α → Scan β) (position : Nat) :
    outcome (scan >>= next) position =
      match outcome scan position with
      | none => none
      | some (.error e) => some (.error e)
      | some (.ok (a, moved)) => outcome (next a) moved := by
  rw [outcome, outcome, StateT.run_bind, ExceptT.run_bind]
  cases (scan.run position).run with
  | none => rfl
  | some result => cases result <;> rfl

theorem follows_pure (a : α) (cs : List Char) : Follows text (pure a) cs (.ok (a, cs)) := rfl

theorem Follows.bind_ok (first : Follows text scan cs (.ok (a, rest))) (follow : Follows text (next a) rest r) :
    Follows text (scan >>= next) cs r := by
  have moved : outcome (scan >>= next) (offset text cs) = outcome (next a) (offset text rest) := by
    rw [outcome_bind, first]
  cases r with
  | ok found => exact moved.trans follow
  | error e => exact moved.trans follow

theorem Follows.bind_error (first : Follows text scan cs (.error e)) :
    Follows text (scan >>= next) cs (.error e) := by
  rw [Follows, outcome_bind, first]

/-- A scan goes on where the parser goes on, which is further on in the text, or stops at its error. -/
theorem Follows.bind {depth depth' : Nat} {given : Except Failure (α × List Char)}
    {others : α × List Char → Except Failure (β × List Char)} (first : Follows text scan cs given)
    (advanced : Advances depth depth' cs given)
    (follow : ∀ a rest, rest <:+ cs → rest.length < cs.length → Follows text (next a) rest (others (a, rest))) :
    Follows text (scan >>= next) cs (given.bind others) := by
  cases given with
  | error e => exact first.bind_error
  | ok found => exact first.bind_ok (follow found.1 found.2 advanced.1.suffix advanced.2)

theorem Follows.map {given : Except Failure (α × List Char)} {f : α → β} (h : Follows text scan cs given) :
    Follows text (scan >>= fun a => pure (f a)) cs (given.map fun found => (f found.1, found.2)) := by
  cases given with
  | error e => exact h.bind_error
  | ok found => exact h.bind_ok (follows_pure _ found.2)

end

/-! ## Slices -/

section
variable {text : String} {c : Char} {cs rest taken : List Char}

theorem utf8Length_cons (c : Char) (cs : List Char) : utf8Length (c :: cs) = c.utf8Size + utf8Length cs := by
  have single : utf8Length [c] = c.utf8Size := by
    rw [utf8Length, ← String.singleton_eq_ofList, String.utf8ByteSize_singleton]
  rw [← single, ← utf8Length_append, List.singleton_append]

theorem dropBytes_append (as cs : List Char) : dropBytes (utf8Length as) (as ++ cs) = some cs := by
  induction as with
  | nil => cases cs <;> rfl
  | cons a as ih =>
      obtain ⟨n, size⟩ : ∃ n, a.utf8Size = n + 1 := Nat.exists_eq_add_one.mpr a.utf8Size_pos
      have bytes : utf8Length (a :: as) = n + utf8Length as + 1 := by
        rw [utf8Length_cons, size]
        omega
      have left : n + utf8Length as + 1 - a.utf8Size = utf8Length as := by omega
      rw [bytes, List.cons_append, dropBytes, if_pos (by omega), left, ih]

theorem dropBytes_eq_some {n : Nat} :
    dropBytes n cs = some rest ↔ ∃ before, cs = before ++ rest ∧ utf8Length before = n := by
  constructor
  · intro sliced
    induction cs generalizing n with
    | nil =>
        cases n with
        | zero =>
            cases sliced
            exact ⟨[], rfl, rfl⟩
        | succ n => cases sliced
    | cons c cs ih =>
        cases n with
        | zero =>
            cases sliced
            exact ⟨[], rfl, rfl⟩
        | succ n =>
            rw [dropBytes] at sliced
            split at sliced
            case isFalse => cases sliced
            case isTrue fits =>
              obtain ⟨before, rfl, size⟩ := ih sliced
              refine ⟨c :: before, rfl, ?_⟩
              rw [utf8Length_cons, size]
              omega
  · rintro ⟨before, rfl, rfl⟩
    exact dropBytes_append before rest

/-- A text can be sliced at the boundaries of its characters, and nowhere else. -/
theorem dropBytes_isSome_iff (text : String) (n : Nat) :
    (dropBytes n text.toList).isSome = true ↔ (⟨n⟩ : String.Pos.Raw).IsValid text := by
  rw [Option.isSome_iff_exists, String.Pos.Raw.isValid_iff_exists_append]
  constructor
  · rintro ⟨after, sliced⟩
    obtain ⟨before, split, rfl⟩ := dropBytes_eq_some.mp sliced
    refine ⟨.ofList before, .ofList after, ?_, rfl⟩
    rw [← String.ofList_append, ← split, String.ofList_toList]
  · rintro ⟨before, after, rfl, place⟩
    obtain rfl : n = before.utf8ByteSize := congrArg String.Pos.Raw.byteIdx place
    refine ⟨after.toList, dropBytes_eq_some.mpr ⟨before.toList, String.toList_append, ?_⟩⟩
    rw [utf8Length, String.ofList_toList]

theorem takeBytes_append (as cs : List Char) : takeBytes (utf8Length as) (as ++ cs) = some as := by
  rw [takeBytes, dropBytes_append, Option.map_some, List.length_append, Nat.add_sub_cancel, List.take_left]

theorem offset_add (inside : cs <:+ text.toList) (split : cs = taken ++ rest) :
    offset text cs + utf8Length taken = offset text rest := by
  obtain ⟨before, all⟩ := inside
  have further : text.toList = (before ++ taken) ++ rest := by rw [← all, split, List.append_assoc]
  rw [offset_of_append all.symm, offset_of_append further, utf8Length_append]

theorem rest_follows (inside : cs <:+ text.toList) : Follows text (Cursor.rest text) cs (.ok (cs, cs)) := by
  obtain ⟨before, split⟩ := inside
  have found : dropBytes (offset text cs) text.toList = some cs := by
    rw [offset_of_append split.symm, ← split, dropBytes_append]
  rw [Follows, Cursor.rest]
  show outcome (_ >>= _) _ = _
  rw [outcome_bind]
  show outcome (liftM (dropBytes (offset text cs) text.toList)) _ = _
  rw [found]
  rfl

theorem modify_follows (inside : cs <:+ text.toList) (split : cs = taken ++ rest) :
    Follows text (modify (· + utf8Length taken)) cs (.ok ((), rest)) := by
  rw [Follows, ← offset_add inside split]
  rfl

theorem get_follows (cs : List Char) : Follows text get cs (.ok (offset text cs, cs)) := rfl

theorem skipWhite_follows (inside : cs <:+ text.toList) : Follows text (skipWhite text) cs (.ok ((), skipBlanks cs)) := by
  obtain ⟨blanks, -, split⟩ := skipBlanks_eq cs
  have size : utf8Length cs - utf8Length (cs.dropWhile Text.isBlank) = utf8Length blanks := by
    rw [← skipBlanks]
    nth_rewrite 1 [split]
    rw [utf8Length_append, Nat.add_sub_cancel]
  refine (rest_follows inside).bind_ok ?_
  rw [size]
  exact modify_follows inside split

theorem skipBlanks_suffix (inside : cs <:+ text.toList) : skipBlanks cs <:+ text.toList :=
  (passes_skipBlanks 0 cs).suffix.trans inside

theorem peek_follows (inside : cs <:+ text.toList) :
    Follows text (peek text) cs (.ok ((skipBlanks cs).head?, skipBlanks cs)) :=
  (skipWhite_follows inside).bind_ok ((rest_follows (skipBlanks_suffix inside)).bind_ok (follows_pure _ _))

theorem eat_follows_some (inside : cs <:+ text.toList) (eaten : eat? c cs = some rest) :
    Follows text (eat text c) cs (.ok (true, rest)) := by
  have front : skipBlanks cs = [c] ++ rest := eat?_eq_some.mp eaten
  refine (peek_follows inside).bind_ok ?_
  rw [if_pos (by rw [front]; rfl)]
  have moved : Follows text (modify (· + utf8Length [c])) (skipBlanks cs) (.ok ((), rest)) :=
    modify_follows (skipBlanks_suffix inside) front
  rw [utf8Length_cons] at moved
  exact moved.bind_ok (follows_pure true rest)

theorem eat_follows_none (inside : cs <:+ text.toList) (other : eat? c cs = none) :
    Follows text (eat text c) cs (.ok (false, skipBlanks cs)) := by
  have front : (skipBlanks cs).head? ≠ some c := by
    intro front
    obtain ⟨rest, front⟩ := List.head?_eq_some_iff.mp front
    rw [eat?_eq_some.mpr front] at other
    cases other
  refine (peek_follows inside).bind_ok ?_
  rw [if_neg front]
  exact follows_pure false _

theorem unexpected_follows (wanted : Wanted) (inside : cs <:+ text.toList) :
    Follows text (unexpected text wanted : Scan α) cs (.error (failAt wanted cs)) :=
  (peek_follows inside).bind_ok rfl

theorem failAt_skipBlanks (wanted : Wanted) (cs : List Char) : failAt wanted (skipBlanks cs) = failAt wanted cs := by
  rw [failAt, skipBlanks_skipBlanks, failAt]

theorem expect_follows (inside : cs <:+ text.toList) : Follows text (expect text c) cs (step c cs) := by
  rw [step, Descriptor.expect]
  cases eaten : eat? c cs with
  | some rest => exact (eat_follows_some inside eaten).bind_ok (follows_pure () rest)
  | none =>
      have failed : Follows text (unexpected text (.char c) : Scan Unit) (skipBlanks cs) _ :=
        unexpected_follows _ (skipBlanks_suffix inside)
      rw [failAt_skipBlanks] at failed
      exact (eat_follows_none inside eaten).bind_ok failed

/-- Behind its start, a name ends where no more of its characters follow. -/
theorem nameEnd_rest {i : Nat} (positive : 0 < i) (cs : List Char) :
    nameEnd i cs = i + utf8Length (cs.takeWhile isNameRest) := by
  induction cs generalizing i with
  | nil => rfl
  | cons c cs ih =>
      have part : (c == '_' || c.isAlpha || (decide (0 < i) && c.isDigit)) = isNameRest c := by
        rw [decide_eq_true positive, Bool.true_and, Bool.or_assoc]
        rfl
      rw [nameEnd, part]
      cases named : isNameRest c with
      | false =>
          rw [List.takeWhile_cons_of_neg (Bool.eq_false_iff.mp named), if_neg Bool.false_ne_true]
          rfl
      | true =>
          rw [List.takeWhile_cons_of_pos named, if_pos rfl, ih (by omega), utf8Length_cons]
          omega

theorem nameEnd_start (c : Char) (cs : List Char) :
    nameEnd 0 (c :: cs) = if isNameStart c then utf8Length (c :: cs.takeWhile isNameRest) else 0 := by
  have part : (c == '_' || c.isAlpha || (decide (0 < 0) && c.isDigit)) = isNameStart c := Bool.or_false _
  have positive : 0 < 0 + c.utf8Size := by
    have := c.utf8Size_pos
    omega
  rw [nameEnd, part, nameEnd_rest positive, utf8Length_cons, Nat.zero_add]

theorem identifier_follows (inside : cs <:+ text.toList) :
    Follows text (identifier text) cs
      ((Descriptor.name cs).map fun found => ((offset text found.1.1, found.1.2), found.2)) := by
  have start : skipBlanks cs <:+ text.toList := skipBlanks_suffix inside
  refine (skipWhite_follows inside).bind_ok ((get_follows _).bind_ok ((rest_follows start).bind_ok ?_))
  have failed : Follows text (unexpected text .typeName : Scan (Nat × String)) (skipBlanks cs) _ :=
    unexpected_follows _ start
  rw [failAt_skipBlanks] at failed
  simp only [Descriptor.name]
  cases front : skipBlanks cs with
  | nil =>
      rw [front] at failed
      exact failed
  | cons c more =>
      rw [front] at failed start
      dsimp only
      rw [nameEnd_start]
      cases named : isNameStart c with
      | false =>
          rw [if_neg Bool.false_ne_true, if_neg Bool.false_ne_true, if_pos rfl]
          exact failed
      | true =>
          have split : c :: more = (c :: more.takeWhile isNameRest) ++ more.dropWhile isNameRest := by
            rw [List.cons_append, List.takeWhile_append_dropWhile]
          have nonempty : utf8Length (c :: more.takeWhile isNameRest) ≠ 0 := by
            have := c.utf8Size_pos
            rw [utf8Length_cons]
            omega
          have taken := takeBytes_append (c :: more.takeWhile isNameRest) (more.dropWhile isNameRest)
          rw [← split] at taken
          rw [if_pos rfl, if_pos rfl, if_neg nonempty]
          refine (modify_follows start split).bind_ok ?_
          rw [taken]
          exact follows_pure _ _

end

/-! ## Parts of the grammar -/

section
variable {text name : String} {lookup : String → Option Descriptor} {cs rest start : List Char} {depth expected : Nat}
  {params : Option (List Descriptor)} {ds : List Descriptor} {scan : Scan Descriptor} {parser : Parser Descriptor}

theorem arity_follows_ok (size : ds.length = expected) :
    Follows text (arity (offset text start) name (some ds) expected) rest (.ok (ds, rest)) := by
  rw [arity, if_pos size]
  exact follows_pure ds rest

theorem arity_follows_error (other : params.map List.length ≠ some expected) :
    Follows text (arity (offset text start) name params expected) rest
      (.error (.wrongParameterCount start name expected ((params.map List.length).getD 0))) := by
  cases params with
  | none => rfl
  | some ds =>
      rw [arity, if_neg fun size => other (congrArg some size)]
      rfl

theorem meaning_simple {start : Nat} (simple : name ∉ generics) : meaning lookup start name params =
    match (plain? name).or (lookup name) with
    | none => throw (.unknownType start name)
    | some d =>
      if params.isSome then do
        let _ ← arity start name params 0
        return d
      else
        return d := by
  unfold meaning
  split
  case h_6 => rfl
  all_goals simp [generics] at simple

theorem one_follows (make : Descriptor → Descriptor)
    (scanned : ∀ params, meaning lookup (offset text start) name params =
      (do return make ((← arity (offset text start) name params 1).headD .unit)))
    (resolved : ∀ params, resolve lookup start name params cs =
      match params with
      | some [d] => .ok (make d)
      | _ => .error (.wrongParameterCount start name 1 ((params.map List.length).getD 0))) :
    Follows text (meaning lookup (offset text start) name params) rest
      ((resolve lookup start name params cs).map (·, rest)) := by
  rw [scanned, resolved]
  match params with
  | some [d] => exact (arity_follows_ok rfl).bind_ok (follows_pure (make d) rest)
  | none => exact (arity_follows_error (by simp)).bind_error
  | some [] => exact (arity_follows_error (by simp)).bind_error
  | some (_ :: _ :: _) => exact (arity_follows_error (by simp)).bind_error

theorem two_follows (make : Descriptor → Descriptor → Descriptor)
    (scanned : ∀ params, meaning lookup (offset text start) name params = (do
      let ds ← arity (offset text start) name params 2
      return make (ds.headD .unit) (ds.tail.headD .unit)))
    (resolved : ∀ params, resolve lookup start name params cs =
      match params with
      | some [d, d'] => .ok (make d d')
      | _ => .error (.wrongParameterCount start name 2 ((params.map List.length).getD 0))) :
    Follows text (meaning lookup (offset text start) name params) rest
      ((resolve lookup start name params cs).map (·, rest)) := by
  rw [scanned, resolved]
  match params with
  | some [d, d'] => exact (arity_follows_ok rfl).bind_ok (follows_pure (make d d') rest)
  | none => exact (arity_follows_error (by simp)).bind_error
  | some [] => exact (arity_follows_error (by simp)).bind_error
  | some [_] => exact (arity_follows_error (by simp)).bind_error
  | some (_ :: _ :: _ :: _) => exact (arity_follows_error (by simp)).bind_error

theorem meaning_follows (name : String) (bare : params = none → rest = skipBlanks cs) :
    Follows text (meaning lookup (offset text start) name params) rest
      ((resolve lookup start name params cs).map (·, rest)) := by
  by_cases generic : name ∈ generics
  · simp only [generics, List.mem_cons, List.not_mem_nil, or_false] at generic
    rcases generic with rfl | rfl | rfl | rfl | rfl
    · exact one_follows .nullable (fun _ => rfl) fun _ => rfl
    · exact one_follows .nullable (fun _ => rfl) fun _ => rfl
    · exact one_follows .list (fun _ => rfl) fun _ => rfl
    · exact two_follows .map (fun _ => rfl) fun _ => rfl
    · cases params with
      | some items => exact follows_pure (tuple items) rest
      | none =>
          rw [bare rfl]
          rfl
  · rw [resolve_simple generic, meaning_simple generic]
    cases (plain? name).or (lookup name) with
    | none => rfl
    | some d =>
        cases params with
        | none => exact follows_pure d rest
        | some ds =>
            by_cases empty : ds.length = 0
            · dsimp only [Option.map_some, Option.getD_some]
              rw [if_pos empty]
              exact (arity_follows_ok empty).bind_ok (follows_pure d rest)
            · dsimp only [Option.map_some, Option.getD_some]
              rw [if_neg empty]
              exact (arity_follows_error (by simpa using empty)).bind_error

/-- The scan does what the parser does, which goes on from where it starts, in whatever blanks it starts. -/
structure Mirrors (text : String) (depth : Nat) (scan : Scan Descriptor) (parser : Parser Descriptor) : Prop where
  follows : ∀ cs, cs <:+ text.toList → Follows text scan cs (parser cs)
  steady : Steady depth parser
  blank : ∀ cs, parser (skipBlanks cs) = parser cs

theorem step_skipBlanks (c : Char) (cs : List Char) : step c (skipBlanks cs) = step c cs := by
  rw [step, Descriptor.expect, eat?, skipBlanks_skipBlanks, failAt_skipBlanks, step, Descriptor.expect, eat?]

theorem name_skipBlanks (cs : List Char) : Descriptor.name (skipBlanks cs) = Descriptor.name cs := by
  simp only [Descriptor.name, skipBlanks_skipBlanks, failAt_skipBlanks]

theorem typeWith_skipBlanks (inner : Option (Parser Descriptor)) (cs : List Char) :
    typeWith lookup inner (skipBlanks cs) = typeWith lookup inner cs := by
  rw [typeWith, name_skipBlanks, typeWith]

theorem skipBlanks_length_le (cs : List Char) : (skipBlanks cs).length ≤ cs.length :=
  (passes_skipBlanks 0 cs).length_le

theorem enough_fuel (inside : cs <:+ text.toList) : cs.length < text.length + 1 := by
  have := inside.length_le
  rw [String.length_toList] at this
  omega

theorem identifier_bind {α : Type} {next : Nat × String → Scan α}
    {others : (List Char × String) × List Char → Except Failure (α × List Char)} (inside : cs <:+ text.toList)
    (follow : ∀ start name rest, rest <:+ cs → rest.length < cs.length →
      Follows text (next (offset text start, name)) rest (others ((start, name), rest))) :
    Follows text (identifier text >>= next) cs ((Descriptor.name cs).bind others) := by
  have named := identifier_follows inside
  have advanced := name_advances 0 cs
  cases first : Descriptor.name cs with
  | error e =>
      rw [first] at named
      exact named.bind_error
  | ok found =>
      rw [first] at named advanced
      exact named.bind_ok (follow found.1.1 found.1.2 found.2 advanced.1.suffix advanced.2)

/-- One parameter after another is read and appended, where the parser collects them in front. -/
theorem parametersOnto_follows (mirrors : Mirrors text depth scan parser) {fuel : Nat} (more : Nat)
    (done : List Descriptor) (inside : cs <:+ text.toList) (enough : cs.length < fuel) (left : cs.length ≤ more) :
    Follows text (parametersOnto text scan fuel done.reverse) cs
      ((parser cs).bind fun found => restOf parser '>' more (found.1 :: done) found.2) := by
  induction fuel generalizing more done cs with
  | zero => omega
  | succ fuel ih =>
      rw [parametersOnto]
      refine (mirrors.follows cs inside).bind (mirrors.steady cs) fun d rest further shorter => ?_
      have within : rest <:+ text.toList := further.trans inside
      obtain ⟨more, rfl⟩ : ∃ n, more = n + 1 := ⟨more - 1, by omega⟩
      dsimp only
      rw [← List.reverse_cons, restOf_succ]
      cases closed : eat? '>' rest with
      | some after => exact (eat_follows_some within closed).bind_ok (follows_pure _ after)
      | none =>
          have skipped : (skipBlanks rest).length ≤ rest.length := skipBlanks_length_le rest
          have blanks : skipBlanks rest <:+ text.toList := skipBlanks_suffix within
          have comma : Advances 0 0 (skipBlanks rest) (step ',' (skipBlanks rest)) := step_advances rfl
          refine (eat_follows_none within closed).bind_ok ?_
          rw [if_neg Bool.false_ne_true, ← step_skipBlanks]
          refine (expect_follows blanks).bind comma fun _ after inner fewer => ?_
          exact ih more (d :: done) (inner.trans blanks) (by omega) (by omega)

theorem parameters_follows (mirrors : Mirrors text depth scan parser) (inside : cs <:+ text.toList) :
    Follows text (parameters text scan) cs (Descriptor.parameters parser cs) := by
  rw [parameters, parameters_eq]
  cases closed : eat? '>' cs with
  | some rest => exact (eat_follows_some inside closed).bind_ok (follows_pure [] rest)
  | none =>
      have blanks : skipBlanks cs <:+ text.toList := skipBlanks_suffix inside
      refine (eat_follows_none inside closed).bind_ok ?_
      rw [if_neg Bool.false_ne_true]
      dsimp only
      rw [← mirrors.blank]
      exact parametersOnto_follows mirrors cs.length [] blanks (enough_fuel blanks) (skipBlanks_length_le cs)

theorem descriptorWith_follows {scans : Option (Scan Descriptor)} {parsers : Option (Parser Descriptor)}
    (mirrors : Option.Rel (Mirrors text (depth + 1)) scans parsers) (inside : cs <:+ text.toList) :
    Follows text (descriptorWith text lookup scans) cs (typeWith lookup parsers cs) := by
  rw [descriptorWith, typeWith_eq]
  refine identifier_bind inside fun start name rest further _ => ?_
  have within : rest <:+ text.toList := further.trans inside
  dsimp only
  cases opened : eat? '<' rest with
  | none => exact (eat_follows_none within opened).bind_ok (meaning_follows name fun _ => rfl)
  | some after =>
      have entered : Passes 0 1 rest after := (passes_eat? opened rfl).1
      have behind : after <:+ text.toList := entered.suffix.trans within
      refine (eat_follows_some within opened).bind_ok ?_
      rw [if_pos rfl]
      cases mirrors with
      | none => rfl
      | some mirrors =>
          refine (parameters_follows mirrors behind).bind (parameters_advances mirrors.steady after) ?_
          exact fun params last _ _ => meaning_follows name nofun

theorem descriptorAt_mirrors {levels : Nat} (h : depth + levels = defaultMaxDepth) :
    Mirrors text depth (descriptorAt text lookup levels) (typeAt lookup levels) := by
  induction levels generalizing depth with
  | zero =>
      refine ⟨fun cs inside => ?_, typeAt_steady h, typeWith_skipBlanks none⟩
      exact descriptorWith_follows (.none : Option.Rel (Mirrors text (depth + 1)) none none) inside
  | succ levels ih =>
      have deeper : depth + 1 + levels = defaultMaxDepth := by omega
      refine ⟨fun cs inside => ?_, typeAt_steady h, typeWith_skipBlanks _⟩
      exact descriptorWith_follows (.some (ih deeper)) inside

theorem descriptor_follows (inside : cs <:+ text.toList) :
    Follows text (descriptor text lookup) cs (type lookup cs) :=
  (descriptorAt_mirrors rfl).follows cs inside

theorem fieldsOnto_follows (record : String) {fuel : Nat} (more : Nat) (done : List (String × Descriptor))
    (inside : cs <:+ text.toList) (enough : cs.length < fuel) (left : cs.length < more) :
    Follows text (fieldsOnto text lookup record fuel done.reverse) cs
      (Descriptor.fieldsOnto lookup record more done cs) := by
  induction fuel generalizing more done cs with
  | zero => omega
  | succ fuel ih =>
      obtain ⟨more, rfl⟩ : ∃ n, more = n + 1 := ⟨more - 1, by omega⟩
      rw [fieldsOnto, fieldsOnto_succ]
      cases closed : eat? '\x7d' cs with
      | some rest => exact (eat_follows_some inside closed).bind_ok (follows_pure _ rest)
      | none =>
          have skipped : (skipBlanks cs).length ≤ cs.length := skipBlanks_length_le cs
          have blanks : skipBlanks cs <:+ text.toList := skipBlanks_suffix inside
          refine (eat_follows_none inside closed).bind_ok ?_
          rw [if_neg Bool.false_ne_true, ← name_skipBlanks]
          refine identifier_bind blanks fun _ field colonAt further fewer => ?_
          have within : colonAt <:+ text.toList := further.trans blanks
          dsimp only
          rw [List.any_reverse]
          by_cases double : done.any (·.1 == field) = true
          · rw [if_pos double, if_pos double]
            rfl
          · rw [if_neg double, if_neg double]
            have colon : Advances 0 0 colonAt (step ':' colonAt) := step_advances rfl
            refine (expect_follows within).bind colon fun _ typed after shorter => ?_
            have behind : typed <:+ text.toList := after.trans within
            refine (descriptor_follows behind).bind (type_steady typed) fun d rest inner less => ?_
            have last : rest <:+ text.toList := inner.trans behind
            dsimp only
            rw [← List.reverse_cons]
            cases comma : eat? ',' rest with
            | some next =>
                have eaten : Passes 0 0 rest next ∧ next.length < rest.length := passes_eat? comma rfl
                refine (eat_follows_some last comma).bind_ok ?_
                exact ih more ((field, d) :: done) (eaten.1.suffix.trans last) (by omega) (by omega)
            | none =>
                refine (eat_follows_none last comma).bind_ok ?_
                rw [if_neg Bool.false_ne_true, ← step_skipBlanks]
                exact (expect_follows (skipBlanks_suffix last)).map

theorem declaration_follows (inside : cs <:+ text.toList) :
    Follows text (declaration text lookup) cs (Descriptor.declaration lookup cs) := by
  rw [declaration, declaration_eq]
  refine identifier_bind inside fun _ name rest further _ => ?_
  have within : rest <:+ text.toList := further.trans inside
  have brace : Advances 0 0 rest (step '\x7b' rest) := step_advances rfl
  refine (expect_follows within).bind brace fun _ after inner _ => ?_
  have behind : after <:+ text.toList := inner.trans within
  exact (fieldsOnto_follows name (after.length + 1) [] behind (enough_fuel behind) (Nat.lt_succ_self _)).map

end

/-! ## Whole texts -/

section
variable {α : Type} {text : String} {scan : Scan α} {parser : Parser α}

theorem offset_start (text : String) : offset text text.toList = 0 := Nat.sub_self _

theorem finish_follows {cs : List Char} (inside : cs <:+ text.toList) :
    Follows text (finish text) cs
      (match skipBlanks cs with
        | [] => .ok ((), [])
        | _ => .error (failAt .endOfInput cs)) := by
  have peeked := peek_follows inside
  have failed : Follows text (unexpected text .endOfInput : Scan Unit) (skipBlanks cs) _ :=
    unexpected_follows _ (skipBlanks_suffix inside)
  rw [failAt_skipBlanks] at failed
  cases front : skipBlanks cs with
  | nil =>
      rw [front] at peeked
      exact peeked.bind_ok (follows_pure () [])
  | cons c rest =>
      rw [front] at peeked failed
      exact peeked.bind_ok failed

theorem run_eq_outcome (text : String) (scan : Scan α) : run text scan =
    (outcome (scan >>= fun a => finish text >>= fun _ => pure a) 0).map fun read => read.map Prod.fst := by
  show ExceptT.map Prod.fst (outcome (scan >>= fun a => finish text >>= fun _ => pure a) 0) = _
  cases outcome (scan >>= fun a => finish text >>= fun _ => pure a) 0 with
  | none => rfl
  | some read => cases read <;> rfl

theorem run_follows (follows : Follows text scan text.toList (parser text.toList)) (steady : Steady 0 parser) :
    run text scan = some (Descriptor.run parser text) := by
  have advanced := steady text.toList
  rw [run_eq_outcome, ← offset_start text, Descriptor.run, whole]
  cases read : parser text.toList with
  | error e =>
      rw [read] at follows
      have stopped : Follows text (scan >>= fun a => finish text >>= fun _ => pure a) text.toList (.error e) :=
        follows.bind_error
      rw [stopped]
      rfl
  | ok found =>
      obtain ⟨a, rest⟩ := found
      rw [read] at follows advanced
      have finished := finish_follows advanced.1.suffix
      dsimp only
      cases ended : skipBlanks rest with
      | nil =>
          rw [ended] at finished
          have all : Follows text (scan >>= fun a => finish text >>= fun _ => pure a) text.toList (.ok (a, [])) :=
            follows.bind_ok (finished.bind_ok (follows_pure a []))
          rw [all]
          rfl
      | cons c more =>
          rw [ended] at finished
          have all : Follows text (scan >>= fun a => finish text >>= fun _ => pure a) text.toList (.error _) :=
            follows.bind_ok finished.bind_error
          rw [all]
          rfl

theorem parse_eq (r : Registry) (text : String) : parse r text = some (r.parse text) :=
  run_follows (descriptor_follows (List.suffix_refl _)) type_steady

theorem define_eq (r : Registry) (text : String) : define r text = some (r.define text) := by
  have read : run text (declaration text r.lookup) = some (Descriptor.run (Descriptor.declaration r.lookup) text) :=
    run_follows (declaration_follows (List.suffix_refl _)) declaration_steady
  rw [define, read, Registry.define]
  cases Descriptor.run (Descriptor.declaration r.lookup) text <;> rfl

end

end Cursor

end PackRpc.Descriptor

namespace PackRpc.Registry

open Descriptor

/-- A text is read as a type and as a declaration with every slice at a boundary of its characters, and something
comes of it: a result, or an error whose offset is such a boundary within the text. A name that is refused stands
at the offset given with it, and so does the name whose bracket is one more than may be open. -/
theorem errors_point_into (r : Registry) (text : String) :
    Cursor.parse r text = some (r.parse text) ∧ Cursor.define r text = some (r.define text) ∧
      (∀ n, (Cursor.dropBytes n text.toList).isSome = true ↔ (⟨n⟩ : String.Pos.Raw).IsValid text) ∧
      ∀ e, r.parse text = .error e ∨ r.define text = .error e → e.PointsInto text ∧
        ∀ n, e.offset? = some n → n ≤ text.utf8ByteSize ∧ (⟨n⟩ : String.Pos.Raw).IsValid text := by
  refine ⟨Cursor.parse_eq r text, Cursor.define_eq r text, Cursor.dropBytes_isSome_iff text, fun e failed => ?_⟩
  have points : e.PointsInto text := by
    rcases failed with parsed | defined
    · exact run_pointsInto type_steady parsed
    · rw [define] at defined
      split at defined
      · cases defined
      · next refused =>
          cases defined
          exact run_pointsInto declaration_steady refused
  exact ⟨points, fun n stated => points.isValid stated⟩

/-- A name without a meaning behind a wide blank, and sixty-five brackets one in the other. -/
theorem errors_point_into_deep :
    let wide := "map<string,\u3000nope>"
    let deep := String.ofList (List.replicate 65 "list<".toList).flatten
    new.parse wide = .error (.unknownType 14 "nope") ∧ (⟨14⟩ : String.Pos.Raw).IsValid wide ∧
      ¬(⟨12⟩ : String.Pos.Raw).IsValid wide ∧ new.parse deep = .error (.tooDeep 320 64) ∧
      (ParseError.tooDeep 320 64).PointsInto deep := by
  intro wide deep
  have unknown : new.parse wide = .error (.unknownType 14 "nope") := by decide +kernel
  have nested : new.parse deep = .error (.tooDeep 320 64) := by
    have stopped : whole (type new.lookup) (List.replicate 65 "list<".toList).flatten =
        .error (.tooDeep "list<".toList 64) := by decide +kernel
    have place : offset deep "list<".toList = 320 := by
      rw [offset, String.toList_ofList]
      decide +kernel
    rw [parse, run_eq, String.toList_ofList, stopped, ← place]
    rfl
  obtain ⟨-, -, slices, errors⟩ := errors_point_into new wide
  obtain ⟨-, -, -, deepErrors⟩ := errors_point_into new deep
  refine ⟨unknown, ((errors _ (.inl unknown)).2 14 rfl).2, ?_, nested, (deepErrors _ (.inl nested)).1⟩
  rw [← slices]
  decide

end PackRpc.Registry
