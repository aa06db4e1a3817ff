import PackRpc.Proofs.Packed.Marker
import PackRpc.Proofs.Packed.Measure
import PackRpc.Proofs.Packed.Reader
/-!
# Accepted spellings

`Spells` says which byte strings stand for a value, layer by layer as the reader goes. The reader accepts
exactly these (`parse_accepts`), so that what is proved of spellings holds of all input; a spelling keeps
the limits under which it is accepted.
-/
namespace PackRpc.Packed
open Reader (Accepts Series Pair take number andThen many map_eq_ok andThen_eq_ok)

/-- The bytes declare a part of the family of the given length. -/
inductive Announces (family : Family) : Bytes → Nat → Prop
  | fixed {marker length} : shape marker = .fixed family length → Announces family [marker] length
  | sized {marker header} : shape marker = .sized family header.length →
      Announces family (marker :: header) (Bytes.toNat header)

def ofStr (data : Bytes) : Packed := (data.toText?.map Packed.str).getD (.bin data)

/-- What may follow a declared length, the parts of a container being spelled as `inner` says. -/
inductive Content (limits : Limits) (inner : Option (Packed → Bytes → Prop)) :
    Family → Nat → Packed → Bytes → Prop
  | str {data} : data.length ≤ limits.maxSize →
      Content limits inner .str data.length (ofStr data) data
  | bin {data} : data.length ≤ limits.maxSize →
      Content limits inner .bin data.length (.bin data) data
  | ext {type data} : data.length ≤ limits.maxSize →
      Content limits inner .ext data.length (.ext (UInt8.toInt8 type) data) (type :: data)
  | array {form items bytes} : inner = some form → items.length ≤ limits.maxSize →
      Series form items bytes → Content limits inner .array items.length (.array items) bytes
  | map {form entries bytes} : inner = some form → entries.length ≤ limits.maxSize →
      Series (Pair form) entries bytes → Content limits inner .map entries.length (.map entries) bytes

/-- The spellings of a value whose parts are spelled as `inner` says. -/
inductive Layer (limits : Limits) (inner : Option (Packed → Bytes → Prop)) :
    Packed → Bytes → Prop
  | value {marker v} : shape marker = .value v → Layer limits inner v [marker]
  | number {marker size spelled} {data : Bytes} : shape marker = .number size spelled →
      data.length = size → Layer limits inner (spelled data) (marker :: data)
  | content {family front length v back} : Announces family front length →
      Content limits inner family length v back → Layer limits inner v (front ++ back)

/-- The spellings of a value within the limits, with so many levels of containers. -/
def Spells (limits : Limits) : (levels : Nat) → Packed → Bytes → Prop
  | 0 => Layer limits none
  | levels + 1 => Layer limits (some (Spells limits levels))

theorem checked_eq_ok {α : Type} {limits : Limits} {length : Nat} {next : Reader α} {bytes : Bytes}
    {r : α × Bytes} :
    checked limits length next bytes = .ok r ↔ length ≤ limits.maxSize ∧ next bytes = .ok r := by
  unfold checked
  split
  · next large => simp [Nat.not_le.mpr large]
  · next small => simp [Nat.not_lt.mp small]

theorem container_eq_ok {α : Type} {limits : Limits} {inner : Option (Reader Packed)} {length : Nat}
    {part : Reader Packed → Reader α} {wrap : List α → Packed} {bytes rest : Bytes} {v : Packed} :
    checked limits length (nested limits inner fun read => Reader.map wrap (many (part read) length))
        bytes = .ok (v, rest) ↔
      length ≤ limits.maxSize ∧ ∃ read parts, inner = some read ∧
        many (part read) length bytes = .ok (parts, rest) ∧ wrap parts = v := by
  rw [checked_eq_ok]
  refine and_congr_right fun _ => ?_
  unfold nested
  cases inner with
  | none => simp
  | some read => simp [map_eq_ok]

section
variable {limits : Limits} {inner : Option (Reader Packed)} {forms : Option (Packed → Bytes → Prop)}

theorem payload_accepts (wrap : Bytes → Packed) (length : Nat) :
    Accepts (checked limits length (Reader.map wrap (take length))) fun v front =>
      length ≤ limits.maxSize ∧ front.length = length ∧ wrap front = v := by
  intro bytes v rest
  rw [checked_eq_ok, map_eq_ok]
  constructor
  · rintro ⟨small, data, h, rfl⟩
    obtain ⟨front, rfl, rfl, size⟩ := (Reader.take_accepts _ _ _ _).mp h
    exact ⟨front, rfl, small, size, rfl⟩
  · rintro ⟨front, rfl, small, size, rfl⟩
    exact ⟨small, front, (Reader.take_accepts _ _ _ _).mpr ⟨front, rfl, rfl, size⟩, rfl⟩

theorem strBody_accepts (length : Nat) :
    Accepts (strBody limits length) (Content limits forms .str length) := by
  refine (payload_accepts ofStr length).congr fun v front => ⟨?_, fun content => ?_⟩
  · rintro ⟨small, rfl, rfl⟩
    exact .str small
  · cases content with
    | str small => exact ⟨small, rfl, rfl⟩

theorem binBody_accepts (length : Nat) :
    Accepts (binBody limits length) (Content limits forms .bin length) := by
  refine (payload_accepts Packed.bin length).congr fun v front => ⟨?_, fun content => ?_⟩
  · rintro ⟨small, rfl, rfl⟩
    exact .bin small
  · cases content with
    | bin small => exact ⟨small, rfl, rfl⟩

theorem extBody_accepts (length : Nat) :
    Accepts (extBody limits length) (Content limits forms .ext length) := by
  intro bytes v rest
  rw [extBody, checked_eq_ok, andThen_eq_ok]
  constructor
  · rintro ⟨small, n, mid, first, h⟩
    obtain ⟨data, last, rfl⟩ := map_eq_ok.mp h
    obtain ⟨type, rfl, size, rfl⟩ := (Reader.number_accepts _ _ _ _).mp first
    obtain ⟨front, rfl, rfl, rfl⟩ := (Reader.take_accepts _ _ _ _).mp last
    obtain ⟨type, rfl⟩ := List.length_eq_one_iff.mp size
    refine ⟨type :: front, rfl, ?_⟩
    rw [Bytes.toNat_singleton, UInt8.ofNat_toNat]
    exact .ext small
  · rintro ⟨front, rfl, content⟩
    cases content with
    | @ext type data small =>
        refine ⟨small, type.toNat, data ++ rest,
          (Reader.number_accepts _ _ _ _).mpr ⟨[type], rfl, rfl, Bytes.toNat_singleton type⟩, ?_⟩
        rw [map_eq_ok]
        refine ⟨data, (Reader.take_accepts _ _ _ _).mpr ⟨data, rfl, rfl, rfl⟩, ?_⟩
        rw [UInt8.ofNat_toNat]

theorem container_accepts {α : Type} {part : Reader Packed → Reader α}
    {partForm : (Packed → Bytes → Prop) → α → Bytes → Prop} (limits : Limits) (wrap : List α → Packed)
    (h : Option.Rel Accepts inner forms)
    (parts : ∀ read form, Accepts read form → Accepts (part read) (partForm form)) (length : Nat) :
    Accepts (checked limits length
        (nested limits inner fun read => Reader.map wrap (many (part read) length)))
      fun v bytes => length ≤ limits.maxSize ∧ ∃ form as, forms = some form ∧
        as.length = length ∧ Series (partForm form) as bytes ∧ wrap as = v := by
  intro bytes v rest
  refine Iff.trans container_eq_ok ?_
  cases h with
  | none =>
      refine iff_of_false (by simp) ?_
      rintro ⟨front, -, -, form, as, impossible, -⟩
      cases impossible
  | some accepts =>
      have each := Reader.many_accepts (parts _ _ accepts) length
      constructor
      · rintro ⟨small, read, as, given, h, rfl⟩
        cases given
        obtain ⟨front, rfl, size, series⟩ := (each _ _ _).mp h
        exact ⟨front, rfl, small, _, as, rfl, size, series, rfl⟩
      · rintro ⟨front, rfl, small, form, as, given, size, series, rfl⟩
        cases given
        exact ⟨small, _, as, rfl, (each _ _ _).mpr ⟨front, rfl, size, series⟩, rfl⟩

theorem arrayBody_accepts (h : Option.Rel Accepts inner forms) (length : Nat) :
    Accepts (arrayBody limits inner length) (Content limits forms .array length) := by
  have accepts := container_accepts limits Packed.array h (fun _ _ each => each) length
  refine accepts.congr fun v front => ⟨?_, fun content => ?_⟩
  · rintro ⟨small, form, items, given, rfl, series, rfl⟩
    exact .array given small series
  · cases content with
    | array given small series => exact ⟨small, _, _, given, rfl, series, rfl⟩

theorem mapBody_accepts (h : Option.Rel Accepts inner forms) (length : Nat) :
    Accepts (mapBody limits inner length) (Content limits forms .map length) := by
  have accepts :=
    container_accepts limits Packed.map h (fun _ _ each => Reader.pair_accepts each) length
  refine accepts.congr fun v front => ⟨?_, fun content => ?_⟩
  · rintro ⟨small, form, entries, given, rfl, series, rfl⟩
    exact .map given small series
  · cases content with
    | map given small series => exact ⟨small, _, _, given, rfl, series, rfl⟩

theorem body_accepts (h : Option.Rel Accepts inner forms) (family : Family) (length : Nat) :
    Accepts (family.body limits inner length) (Content limits forms family length) := by
  cases family with
  | str => exact strBody_accepts length
  | bin => exact binBody_accepts length
  | ext => exact extBody_accepts length
  | array => exact arrayBody_accepts h length
  | map => exact mapBody_accepts h length

theorem item_announces {family : Family} {front : Bytes} {length : Nat}
    (h : Announces family front length) (rest : Bytes) :
    item limits inner (front ++ rest) = family.body limits inner length rest := by
  cases h with
  | fixed announced => rw [List.singleton_append, item, body_eq_read, announced, Shape.read]
  | @sized marker header announced =>
      have first := (Reader.number_accepts header.length (header ++ rest) _ rest).mpr
        ⟨header, rfl, rfl, rfl⟩
      rw [List.cons_append, item, body_eq_read, announced, Shape.read, andThen, first]

theorem item_accepts (h : Option.Rel Accepts inner forms) :
    Accepts (item limits inner) (Layer limits forms) := by
  intro bytes v rest
  constructor
  · intro read
    cases bytes with
    | nil => cases read
    | cons marker bytes =>
        rw [item, body_eq_read] at read
        cases announced : shape marker with
        | value w =>
            rw [announced] at read
            cases read
            exact ⟨[marker], rfl, .value announced⟩
        | number size spelled =>
            rw [announced, Shape.read, map_eq_ok] at read
            obtain ⟨data, read, rfl⟩ := read
            obtain ⟨front, rfl, rfl, size⟩ := (Reader.take_accepts _ _ _ _).mp read
            exact ⟨marker :: front, rfl, .number announced size⟩
        | fixed family length =>
            rw [announced] at read
            obtain ⟨front, rfl, content⟩ := (body_accepts h family length _ _ _).mp read
            exact ⟨marker :: front, rfl, .content (.fixed announced) content⟩
        | sized family size =>
            rw [announced, Shape.read, andThen_eq_ok] at read
            obtain ⟨n, mid, first, read⟩ := read
            obtain ⟨header, rfl, rfl, rfl⟩ := (Reader.number_accepts _ _ _ _).mp first
            obtain ⟨front, rfl, content⟩ := (body_accepts h family _ _ _ _).mp read
            exact ⟨marker :: header ++ front, by simp, .content (.sized announced) content⟩
        | reserved =>
            rw [announced] at read
            cases read
  · rintro ⟨front, rfl, layer⟩
    cases layer with
    | @value marker v announced => rw [List.singleton_append, item, body_eq_read, announced, Shape.read]
    | @number marker size spelled data announced size =>
        rw [List.cons_append, item, body_eq_read, announced, Shape.read, map_eq_ok]
        exact ⟨data, (Reader.take_accepts _ _ _ _).mpr ⟨data, rfl, rfl, size⟩, rfl⟩
    | @content family front length v back announces content =>
        rw [List.append_assoc, item_announces announces]
        exact (body_accepts h family length _ v rest).mpr ⟨back, rfl, content⟩

end

/-- Reading is finding the spelling at the front. -/
theorem parse_accepts (limits : Limits) (levels : Nat) :
    Accepts (parse limits levels) (Spells limits levels) := by
  induction levels with
  | zero => exact item_accepts .none
  | succ levels ih => exact item_accepts (.some ih)

/-- A byte string is accepted as a whole when it is a spelling. -/
theorem ofBytes_eq_ok {limits : Limits} {bytes : Bytes} {v : Packed} :
    ofBytes limits bytes = .ok v ↔ Spells limits limits.maxDepth v bytes := by
  have accepts := parse_accepts limits limits.maxDepth bytes v []
  simp only [List.append_nil, exists_eq_left'] at accepts
  rw [← accepts]
  unfold ofBytes
  cases parse limits limits.maxDepth bytes with
  | error e => cases e <;> simp
  | ok r =>
      obtain ⟨w, rest⟩ := r
      cases rest <;> simp

section
variable {limits limits' : Limits} {inner inner' : Option (Packed → Bytes → Prop)} {v : Packed}
  {front : Bytes}

theorem Content.mono {family : Family} {length : Nat} (h : Content limits inner family length v front)
    (wider : limits.maxSize ≤ limits'.maxSize)
    (below : ∀ form, inner = some form → ∃ form', inner' = some form' ∧
      ∀ v front, form v front → form' v front) : Content limits' inner' family length v front := by
  cases h with
  | str small => exact .str (Nat.le_trans small wider)
  | bin small => exact .bin (Nat.le_trans small wider)
  | ext small => exact .ext (Nat.le_trans small wider)
  | array given small series =>
      obtain ⟨form', given, each⟩ := below _ given
      exact .array given (Nat.le_trans small wider) (series.mono each)
  | map given small series =>
      obtain ⟨form', given, each⟩ := below _ given
      exact .map given (Nat.le_trans small wider) (series.mono fun _ _ pair => pair.mono each)

theorem Layer.mono (h : Layer limits inner v front) (wider : limits.maxSize ≤ limits'.maxSize)
    (below : ∀ form, inner = some form → ∃ form', inner' = some form' ∧
      ∀ v front, form v front → form' v front) : Layer limits' inner' v front := by
  cases h with
  | value announced => exact .value announced
  | number announced size => exact .number announced size
  | content announces content => exact .content announces (content.mono wider below)

/-- Wider limits admit more spellings. -/
theorem Spells.mono {levels levels' : Nat} (h : Spells limits levels v front)
    (wider : limits.maxSize ≤ limits'.maxSize) (deeper : levels ≤ levels') :
    Spells limits' levels' v front := by
  induction levels generalizing levels' v front with
  | zero => cases levels' <;> exact Layer.mono h wider (by simp)
  | succ levels ih =>
      obtain ⟨below, rfl⟩ := Nat.exists_eq_add_of_lt deeper
      refine Layer.mono h wider fun form given => ⟨_, rfl, ?_⟩
      cases given
      exact fun v front part => ih part (Nat.le_add_right _ _)

/-- At most one byte string at the front of another is accepted, whatever the limits. -/
theorem ofBytes_prefix_unique {p q bytes : Bytes} {v w : Packed} (hp : p <+: bytes)
    (hq : q <+: bytes) (v_read : ofBytes limits p = .ok v) (w_read : ofBytes limits' q = .ok w) :
    q = p ∧ w = v := by
  obtain ⟨back, rfl⟩ := hp
  obtain ⟨tail, split⟩ := hq
  let wide : Limits := ⟨max limits.maxSize limits'.maxSize, max limits.maxDepth limits'.maxDepth⟩
  have spelled : Spells wide wide.maxDepth v p :=
    (ofBytes_eq_ok.mp v_read).mono (Nat.le_max_left _ _) (Nat.le_max_left _ _)
  have again : Spells wide wide.maxDepth w q :=
    (ofBytes_eq_ok.mp w_read).mono (Nat.le_max_right _ _) (Nat.le_max_right _ _)
  have first := (parse_accepts wide wide.maxDepth (p ++ back) v back).mpr ⟨p, rfl, spelled⟩
  have second := (parse_accepts wide wide.maxDepth (p ++ back) w tail).mpr ⟨q, split.symm, again⟩
  rw [first] at second
  cases second
  exact ⟨List.append_cancel_right split, rfl⟩

end

/-- A value that a reader with these limits and so many levels of containers may accept. -/
def Fits (limits : Limits) (levels : Nat) (v : Packed) : Prop :=
  v.longest ≤ limits.maxSize ∧ v.depth ≤ levels

def IsScalar (v : Packed) : Prop := v.longest = 0 ∧ v.depth = 0

theorem IsScalar.fits {v : Packed} (h : v.IsScalar) (limits : Limits) (levels : Nat) :
    Fits limits levels v := ⟨by rw [h.1]; exact Nat.zero_le _, by rw [h.2]; exact Nat.zero_le _⟩

/-- Markers and numbers spell scalars, and a length has at most four bytes. -/
def Shape.Tame : Shape → Prop
  | .value v => v.IsScalar
  | .number _ spelled => ∀ data, (spelled data).IsScalar
  | .fixed _ length => length < 32
  | .sized _ header => header ≤ 4
  | .reserved => True

theorem shape_tame {marker : UInt8} {announced : Shape} (h : shape marker = announced) :
    announced.Tame := by
  subst h
  unfold shape
  generalize marker.toNat = m
  dsimp only
  split_ifs
  · exact ⟨rfl, rfl⟩
  · simp only [Shape.Tame]; omega
  · simp only [Shape.Tame]; omega
  · simp only [Shape.Tame]; omega
  · exact ⟨rfl, rfl⟩
  · split <;> simp [Shape.Tame, IsScalar, longest, depth, ofNat, ofInt]

theorem Announces.lt {family : Family} {front : Bytes} {length : Nat}
    (h : Announces family front length) : length < 2 ^ 32 := by
  cases h with
  | @fixed marker length announced =>
      have small : length < 32 := shape_tame announced
      exact Nat.lt_trans small (by decide)
  | @sized marker header announced =>
      have small : header.length ≤ 4 := shape_tame announced
      calc Bytes.toNat header < 256 ^ header.length := Bytes.toNat_lt header
        _ ≤ 256 ^ 4 := Nat.pow_le_pow_right (by decide) small
        _ = 2 ^ 32 := by decide

theorem Announces.ne_nil {family : Family} {front : Bytes} {length : Nat}
    (h : Announces family front length) : front ≠ [] := by
  cases h <;> exact List.cons_ne_nil _ _

theorem Layer.ne_nil {limits : Limits} {inner : Option (Packed → Bytes → Prop)} {v : Packed}
    {front : Bytes} (h : Layer limits inner v front) : front ≠ [] := by
  cases h with
  | value announced => exact List.cons_ne_nil _ _
  | number announced size => exact List.cons_ne_nil _ _
  | content announces content => exact List.append_ne_nil_of_left_ne_nil announces.ne_nil _

theorem Layer.spells {limits : Limits} {v : Packed} {front : Bytes}
    (h : ∀ inner, Layer limits inner v front) (levels : Nat) : Spells limits levels v front := by
  cases levels <;> exact h _

theorem Spells.ne_nil {limits : Limits} {levels : Nat} {v : Packed} {front : Bytes}
    (h : Spells limits levels v front) : front ≠ [] := by
  cases levels <;> exact Layer.ne_nil h

theorem ofStr_longest (data : Bytes) : (ofStr data).longest = data.length := by
  unfold ofStr
  cases h : data.toText? with
  | none => rfl
  | some text =>
      rw [Bytes.toText?_eq_some.mp h]
      rfl

theorem ofStr_depth (data : Bytes) : (ofStr data).depth = 0 := by
  unfold ofStr
  cases data.toText? <;> rfl

theorem Layer.fits {limits : Limits} {levels : Nat} {inner : Option (Packed → Bytes → Prop)}
    (below : ∀ form, inner = some form → ∃ n, levels = n + 1 ∧
      ∀ v front, form v front → Fits limits n v ∧ v.longest < 2 ^ 32)
    {v : Packed} {front : Bytes} (h : Layer limits inner v front) :
    Fits limits levels v ∧ v.longest < 2 ^ 32 := by
  have scalar : ∀ v : Packed, v.IsScalar → Fits limits levels v ∧ v.longest < 2 ^ 32 := by
    intro v h
    exact ⟨h.fits limits levels, by rw [h.1]; decide⟩
  cases h with
  | value announced => exact scalar v (shape_tame announced)
  | @number marker size spelled data announced =>
      have every : ∀ data, (spelled data).IsScalar := shape_tame announced
      exact scalar _ (every data)
  | content announces content =>
      have short := announces.lt
      cases content with
      | @str data small =>
          rw [Fits, ofStr_longest, ofStr_depth]
          exact ⟨⟨small, Nat.zero_le _⟩, short⟩
      | bin small => exact ⟨⟨small, Nat.zero_le _⟩, short⟩
      | ext small => exact ⟨⟨small, Nat.zero_le _⟩, short⟩
      | array some small series =>
          obtain ⟨n, rfl, parts⟩ := below _ some
          have each := series.forall_mem parts
          refine ⟨⟨Nat.max_le.mpr ⟨small, longestItems_le.mpr fun v hv => (each v hv).1.1⟩, ?_⟩, ?_⟩
          · exact Nat.succ_le_succ (depthItems_le.mpr fun v hv => (each v hv).1.2)
          · exact Nat.max_lt.mpr
              ⟨short, (longestItems_lt (by decide)).mpr fun v hv => (each v hv).2⟩
      | map some small series =>
          obtain ⟨n, rfl, parts⟩ := below _ some
          have each := series.flatten.forall_mem parts
          simp only [List.mem_flatMap, List.mem_cons, List.not_mem_nil, or_false,
            forall_exists_index, and_imp] at each
          have key := fun e he => each e.1 e he (.inl rfl)
          have value := fun e he => each e.2 e he (.inr rfl)
          refine ⟨⟨Nat.max_le.mpr ⟨small, longestEntries_le.mpr fun e he =>
            ⟨(key e he).1.1, (value e he).1.1⟩⟩, ?_⟩, ?_⟩
          · exact Nat.succ_le_succ
              (depthEntries_le.mpr fun e he => ⟨(key e he).1.2, (value e he).1.2⟩)
          · exact Nat.max_lt.mpr ⟨short, (longestEntries_lt (by decide)).mpr fun e he =>
              ⟨(key e he).2, (value e he).2⟩⟩

/-- What is accepted is within the limits, and can be written. -/
theorem Spells.fits {limits : Limits} {levels : Nat} {v : Packed} {front : Bytes}
    (h : Spells limits levels v front) : Fits limits levels v ∧ v.longest < 2 ^ 32 := by
  induction levels generalizing v front with
  | zero => exact Layer.fits (fun form none => by cases none) h
  | succ levels ih =>
      refine Layer.fits (fun form some => ?_) h
      cases some
      exact ⟨levels, rfl, fun v front => ih⟩

end PackRpc.Packed
