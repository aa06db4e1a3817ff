import PackRpc.Proofs.Packed.Narrowing
/-!
# Reading by positions

A reader that keeps a position in a buffer takes it from the length of the buffer and slices the buffer there. A
difference below zero or a slice outside the buffer would stop it. Written down in that way, the reader of packed
values is stopped by neither, and it gives what the reader gives that takes bytes off the front (`ofBytes_eq`).
-/
namespace PackRpc.Packed.Cursor

/-- Reads from a position on, and moves it. Nothing comes of it if a difference is below zero or a slice is not in
the buffer. -/
abbrev Step (α : Type) := StateT Nat (ExceptT Stop Option) α

/-- What a step gives at a position: something and the next position, or why it stopped. -/
def outcome {α : Type} (step : Step α) (position : Nat) : Option (Except Stop (α × Nat)) :=
  (step.run position).run

def minus (a b : Nat) : Option Nat :=
  if b ≤ a then some (a - b) else none

def slice (bytes : Bytes) (start stop : Nat) : Option Bytes :=
  if start ≤ stop ∧ stop ≤ bytes.length then some ((bytes.take stop).drop start) else none

section
variable (limits : Limits) (buffer : Bytes)

def take (count : Nat) : Step Bytes := do
  let position ← get
  if (← minus buffer.length position) < count then
    throw .short
  else
    let data ← slice buffer position (position + count)
    set (position + count)
    return data

/-- Reads so many bytes into as many places. -/
def field (count : Nat) : Step Bytes := do
  let data ← take buffer count
  if data.length = count then return data else (none : Option Bytes)

def byte : Step UInt8 := do
  let data ← field buffer 1
  data.head?

def number (count : Nat) : Step Nat := do
  return (← field buffer count).toNat

def checkLength (length : Nat) : Step Nat :=
  if length > limits.maxSize then throw (.refused (.tooLarge length limits.maxSize)) else return length

def many {α : Type} (step : Step α) : (count : Nat) → Step (List α)
  | 0 => return []
  | count + 1 => do
    let first ← step
    let others ← many step count
    return first :: others

def pair {α : Type} (step : Step α) : Step (α × α) := do
  let key ← step
  let value ← step
  return (key, value)

/-- Enters a container, if the nesting allows it. Room is made for no more parts than there are bytes left. -/
def enter {α : Type} (inner : Option (Step Packed)) (parts : Step Packed → Step α) : Step α := do
  match inner with
  | none => throw (.refused (.tooDeep limits.maxDepth))
  | some value =>
    let _ ← minus buffer.length (← get)
    parts value

def body (inner : Option (Step Packed)) (family : Family) (length : Nat) : Step Packed := do
  let length ← checkLength limits length
  match family with
  | .str => return ofStr (← take buffer length)
  | .bin => return .bin (← take buffer length)
  | .ext =>
    let type ← number buffer 1
    return .ext (UInt8.ofNat type).toInt8 (← take buffer length)
  | .array => enter limits buffer inner fun value => return .array (← many value length)
  | .map => enter limits buffer inner fun value => return .map (← many (pair value) length)

def announced (inner : Option (Step Packed)) : Shape → Step Packed
  | .value v => return v
  | .number size spelled => return spelled (← field buffer size)
  | .fixed family length => body limits buffer inner family length
  | .sized family header => do body limits buffer inner family (← number buffer header)
  | .reserved => throw (.refused (.malformed .reservedMarker))

def item (inner : Option (Step Packed)) : Step Packed := do
  announced limits buffer inner (shape (← byte buffer))

def value : (levels : Nat) → Step Packed
  | 0 => item limits buffer none
  | levels + 1 => item limits buffer (some (value levels))

def ofBytes : Option (Except FormatError Packed) := do
  match ← outcome (value limits buffer limits.maxDepth) 0 with
  | .error .short => return .error (.malformed (.truncated buffer.length))
  | .error (.refused e) => return .error e
  | .ok (v, position) =>
    if position = buffer.length then
      return .ok v
    else
      return .error (.malformed (.trailing (← minus buffer.length position)))

end

/-! ## Slices -/

theorem slice_front {bytes : Bytes} {size : Nat} (inside : size ≤ bytes.length) :
    slice bytes 0 size = some (bytes.take size) :=
  if_pos ⟨Nat.zero_le _, inside⟩

theorem slice_back {bytes : Bytes} {size : Nat} (inside : size ≤ bytes.length) :
    slice bytes size bytes.length = some (bytes.drop size) := by
  rw [slice, if_pos ⟨inside, Nat.le_refl _⟩, List.take_length]

/-! ## What a step gives -/

section
variable {α β : Type} {step : Step α} {next : α → Step β} {a : α} {stop : Stop} {position moved : Nat}

theorem outcome_bind (step : Step α) (next : α → Step β) (position : Nat) :
    outcome (step >>= next) position =
      match outcome step position with
      | none => none
      | some (.error stop) => some (.error stop)
      | some (.ok (a, moved)) => outcome (next a) moved := by
  rw [outcome, outcome, StateT.run_bind, ExceptT.run_bind]
  cases (step.run position).run with
  | none => rfl
  | some result => cases result <;> rfl

theorem outcome_ok (first : outcome step position = some (.ok (a, moved))) :
    outcome (step >>= next) position = outcome (next a) moved := by
  rw [outcome_bind, first]

theorem outcome_error (first : outcome step position = some (.error stop)) :
    outcome (step >>= next) position = some (.error stop) := by
  rw [outcome_bind, first]

theorem outcome_lift {found : Option α} (there : found = some a) (position : Nat) :
    outcome (liftM found : Step α) position = some (.ok (a, position)) := by
  rw [there]
  rfl

theorem outcome_take {buffer : Bytes} (inside : position ≤ buffer.length) (count : Nat) :
    outcome (take buffer count) position =
      some (if position + count ≤ buffer.length then .ok ((buffer.drop position).take count, position + count)
        else .error .short) := by
  have placed : outcome (get : Step Nat) position = some (.ok (position, position)) := rfl
  have left : minus buffer.length position = some (buffer.length - position) := if_pos inside
  by_cases enough : position + count ≤ buffer.length
  · have sliced : slice buffer position (position + count) = some ((buffer.drop position).take count) := by
      rw [slice, if_pos ⟨Nat.le_add_right _ _, enough⟩, List.drop_take, Nat.add_sub_cancel_left]
    rw [if_pos enough, take, outcome_ok placed, outcome_ok (outcome_lift left position), if_neg (by omega),
      outcome_ok (outcome_lift sliced position)]
    rfl
  · rw [if_neg enough, take, outcome_ok placed, outcome_ok (outcome_lift left position), if_pos (by omega)]
    rfl

end

/-! ## Steps and readers -/

/-- Between `front` and `rest` a step gives what a reader gives of `rest`, with the position where that stands. -/
inductive Meets {α : Type} (front rest : Bytes) :
    Except Stop (α × Bytes) → Option (Except Stop (α × Nat)) → Prop
  | read {a used left} : rest = used ++ left →
      Meets front rest (.ok (a, left)) (some (.ok (a, (front ++ used).length)))
  | stopped {stop} : Meets front rest (.error stop) (some (.error stop))

/-- At every position of the buffer, the step does what the reader does with the bytes from there on. -/
def Follows {α : Type} (buffer : Bytes) (step : Step α) (read : Reader α) : Prop :=
  ∀ front rest, buffer = front ++ rest → Meets front rest (read rest) (outcome step front.length)

section
variable {α β : Type} {limits : Limits} {buffer front rest : Bytes} {step : Step α} {read : Reader α}
  {next : α → Step β} {next' : α → Reader β}

theorem Meets.behind {used left : Bytes} {given : Except Stop (α × Bytes)} {found : Option (Except Stop (α × Nat))}
    (h : Meets (front ++ used) left given found) : Meets front (used ++ left) given found := by
  cases h with
  | @read a more left split =>
      subst split
      rw [List.append_assoc front]
      exact .read (List.append_assoc _ _ _).symm
  | stopped => exact .stopped

theorem Follows.ok {used left : Bytes} {a : α} (h : Follows buffer step read)
    (split : buffer = front ++ (used ++ left)) (given : read (used ++ left) = .ok (a, left)) :
    outcome step front.length = some (.ok (a, (front ++ used).length)) := by
  have met := h front _ split
  rw [given] at met
  generalize outcome step front.length = found at met
  cases met with
  | read same => rw [List.append_cancel_right same]

theorem Follows.error {stop : Stop} (h : Follows buffer step read) (split : buffer = front ++ rest)
    (given : read rest = .error stop) : outcome step front.length = some (.error stop) := by
  have met := h front rest split
  rw [given] at met
  generalize outcome step front.length = found at met
  cases met
  rfl

theorem Follows.andThen (first : Follows buffer step read) (on : ∀ a, Follows buffer (next a) (next' a)) :
    Follows buffer (step >>= next) (Reader.andThen read next') := by
  intro front rest split
  have given := first front rest split
  rw [outcome_bind, Reader.andThen]
  generalize read rest = result at given
  generalize outcome step front.length = found at given
  cases given with
  | stopped => exact .stopped
  | @read a used left inside =>
      subst inside
      exact (on a (front ++ used) left (by rw [split, List.append_assoc])).behind

theorem follows_pure (buffer : Bytes) (a : α) : Follows buffer (pure a) fun bytes => .ok (a, bytes) := by
  intro front rest _
  have split : rest = [] ++ rest := rfl
  have here : Meets front rest (.ok (a, rest)) (some (.ok (a, (front ++ []).length))) := .read split
  rwa [List.append_nil] at here

theorem follows_throw (buffer : Bytes) (stop : Stop) :
    Follows buffer (throw stop : Step α) fun _ => .error stop := fun _ _ _ => .stopped

theorem Follows.map (h : Follows buffer step read) (f : α → β) :
    Follows buffer (step >>= fun a => pure (f a)) (Reader.map f read) := by
  have mapped : Reader.map f read = Reader.andThen read fun a bytes => .ok (f a, bytes) := rfl
  rw [mapped]
  exact h.andThen fun a => follows_pure buffer (f a)

theorem Follows.many (h : Follows buffer step read) (count : Nat) :
    Follows buffer (many step count) (Reader.many read count) := by
  induction count with
  | zero => exact follows_pure buffer []
  | succ count ih =>
      rw [Reader.many_succ]
      exact h.andThen fun a => ih.map (a :: ·)

theorem Follows.pair (h : Follows buffer step read) : Follows buffer (pair step) (Reader.pair read read) :=
  h.andThen fun a => h.map fun b => (a, b)

theorem take_follows (buffer : Bytes) (count : Nat) : Follows buffer (take buffer count) (Reader.take count) := by
  rintro front rest rfl
  have size : (front ++ rest).length = front.length + rest.length := List.length_append
  have taken := outcome_take (by omega : front.length ≤ (front ++ rest).length) count
  rw [taken]
  by_cases short : rest.length < count
  · rw [if_neg (by omega), (Reader.take_takes count).short rest short]
    exact .stopped
  · obtain ⟨data, left, rfl, rfl⟩ : ∃ data left, rest = data ++ left ∧ data.length = count :=
      ⟨rest.take count, rest.drop count, (List.take_append_drop _ _).symm,
        List.length_take_of_le (Nat.not_lt.mp short)⟩
    have read : Reader.take data.length (data ++ left) = .ok (data, left) :=
      (Reader.take_accepts _ _ _ _).mpr ⟨data, rfl, rfl, rfl⟩
    have moved : front.length + data.length = (front ++ data).length := List.length_append.symm
    rw [if_pos (by rw [size, List.length_append]; omega), read, List.drop_left, List.take_left, moved]
    exact .read rfl

theorem outcome_field {position : Nat} (inside : position ≤ buffer.length) (count : Nat) :
    outcome (field buffer count) position = outcome (take buffer count) position := by
  have taken := outcome_take inside count
  rw [field]
  by_cases enough : position + count ≤ buffer.length
  · rw [if_pos enough] at taken
    have size : ((buffer.drop position).take count).length = count := by
      rw [List.length_take, List.length_drop]
      omega
    rw [outcome_ok taken, taken, if_pos size]
    rfl
  · rw [if_neg enough] at taken
    rw [outcome_error taken, taken]

theorem field_follows (buffer : Bytes) (count : Nat) : Follows buffer (field buffer count) (Reader.take count) := by
  rintro front rest split
  rw [outcome_field (by rw [split, List.length_append]; exact Nat.le_add_right _ _)]
  exact take_follows buffer count front rest split

theorem number_follows (buffer : Bytes) (count : Nat) :
    Follows buffer (number buffer count) (Reader.number count) := by
  rw [Reader.number_eq_map]
  exact (field_follows buffer count).map Bytes.toNat

theorem outcome_byte_nil (front : Bytes) : outcome (byte front) front.length = some (.error .short) := by
  have none : Reader.take 1 [] = .error .short := rfl
  exact outcome_error ((field_follows front 1).error (List.append_nil front).symm none)

theorem outcome_byte_cons (front tail : Bytes) (marker : UInt8) :
    outcome (byte (front ++ marker :: tail)) front.length = some (.ok (marker, (front ++ [marker]).length)) := by
  have one : Reader.take 1 ([marker] ++ tail) = .ok ([marker], tail) := rfl
  rw [byte, outcome_ok ((field_follows (front ++ marker :: tail) 1).ok rfl one)]
  rfl

theorem checked_follows {length : Nat} {next : Nat → Step α} (limits : Limits)
    (h : Follows buffer (next length) read) :
    Follows buffer (checkLength limits length >>= next) (checked limits length read) := by
  intro front rest split
  rw [checked, checkLength]
  split_ifs
  · exact .stopped
  · exact h front rest split

variable {inner : Option (Step Packed)} {inner' : Option (Reader Packed)}

theorem enter_follows {parts : Step Packed → Step α} {parts' : Reader Packed → Reader α} (limits : Limits)
    (same : Option.Rel (Follows buffer) inner inner')
    (each : ∀ step read, Follows buffer step read → Follows buffer (parts step) (parts' read)) :
    Follows buffer (enter limits buffer inner parts) (nested limits inner' parts') := by
  intro front rest split
  cases same with
  | none => exact .stopped
  | some h =>
      have placed : outcome (get : Step Nat) front.length = some (.ok (front.length, front.length)) := rfl
      have left : minus buffer.length front.length = some (buffer.length - front.length) :=
        if_pos (by rw [split, List.length_append]; exact Nat.le_add_right _ _)
      rw [enter, outcome_ok placed, outcome_ok (outcome_lift left _)]
      exact each _ _ h front rest split

theorem body_follows (limits : Limits) (same : Option.Rel (Follows buffer) inner inner') (family : Family)
    (length : Nat) : Follows buffer (body limits buffer inner family length) (family.body limits inner' length) := by
  cases family with
  | str => exact checked_follows limits ((take_follows buffer length).map _)
  | bin => exact checked_follows limits ((take_follows buffer length).map _)
  | ext =>
      refine checked_follows limits ((number_follows buffer 1).andThen fun type => ?_)
      exact (take_follows buffer length).map _
  | array => exact checked_follows limits (enter_follows limits same fun _ _ part => (part.many length).map _)
  | map => exact checked_follows limits (enter_follows limits same fun _ _ part => (part.pair.many length).map _)

theorem announced_follows (limits : Limits) (same : Option.Rel (Follows buffer) inner inner') (shape : Shape) :
    Follows buffer (announced limits buffer inner shape) (shape.read limits inner') := by
  cases shape with
  | value v => exact follows_pure buffer v
  | number size spelled => exact (field_follows buffer size).map spelled
  | fixed family length => exact body_follows limits same family length
  | sized family header => exact (number_follows buffer header).andThen (body_follows limits same family)
  | reserved => exact follows_throw buffer _

theorem item_follows (limits : Limits) (same : Option.Rel (Follows buffer) inner inner') :
    Follows buffer (item limits buffer inner) (Packed.item limits inner') := by
  rintro front rest rfl
  cases rest with
  | nil =>
      rw [List.append_nil, item, outcome_error (outcome_byte_nil front)]
      exact .stopped
  | cons marker tail =>
      have split : front ++ marker :: tail = front ++ [marker] ++ tail := List.append_cons front marker tail
      rw [item, outcome_ok (outcome_byte_cons front tail marker), item_eq_read]
      exact (announced_follows limits same (shape marker) (front ++ [marker]) tail split).behind

theorem value_follows (limits : Limits) (buffer : Bytes) (levels : Nat) :
    Follows buffer (value limits buffer levels) (parse limits levels) := by
  induction levels with
  | zero => exact item_follows limits .none
  | succ levels ih => exact item_follows limits (.some ih)

end

/-- The reader by positions is never stopped, and gives what the reader gives that takes bytes off the front. -/
theorem ofBytes_eq (limits : Limits) (bytes : Bytes) : ofBytes limits bytes = some (Packed.ofBytes limits bytes) := by
  have met := value_follows limits bytes limits.maxDepth [] bytes rfl
  rw [ofBytes, Packed.ofBytes]
  change Meets _ _ _ (outcome _ 0) at met
  generalize parse limits limits.maxDepth bytes = given at met
  generalize outcome (value limits bytes limits.maxDepth) 0 = found at met
  cases met with
  | @stopped stop => cases stop <;> rfl
  | @read v used left split =>
      have size : bytes.length = used.length + left.length := by rw [split, List.length_append]
      show (if used.length = bytes.length then _ else (minus bytes.length used.length).bind _) = _
      cases left with
      | nil =>
          have whole : used.length = bytes.length := size.symm
          rw [if_pos whole]
          rfl
      | cons marker tail =>
          have behind : minus bytes.length used.length = some (marker :: tail).length := by
            rw [minus, if_pos (by omega), size, Nat.add_sub_cancel_left]
          rw [if_neg (by rw [size, List.length_cons]; omega), behind]
          rfl

end PackRpc.Packed.Cursor
