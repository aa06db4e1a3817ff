import PackRpc.Proofs.Packed.RoundTrip

namespace PackRpc.Packed
open Reader (Series Pair)

/-- How many bytes of a declared part are payload. Containers have none of their own. -/
def Family.extent (length : Nat) : Family → Nat
  | .str | .bin => length
  -- An extension has one more byte, for its type.
  | .ext => length + 1
  | .array | .map => 0

def Shape.extent (rest : Bytes) : Shape → Nat
  | .value _ | .reserved => 0
  | .number size _ => size
  | .fixed family length => family.extent length
  | .sized family header => header + family.extent (Bytes.toNat (rest.take header))

/-- The payload of a text among the bytes behind a marker. -/
def Shape.text? (rest : Bytes) : Shape → Option Bytes
  | .fixed .str length => some (rest.take length)
  | .sized .str header => some ((rest.drop header).take (Bytes.toNat (rest.take header)))
  | _ => none

/-- The payloads of the texts in a byte string whose next marker stands behind `skip` bytes. -/
def textPayloads : (skip : Nat) → Bytes → List Bytes
  | _, [] => []
  | skip + 1, _ :: rest => textPayloads skip rest
  | 0, marker :: rest =>
    ((shape marker).text? rest).toList ++ textPayloads ((shape marker).extent rest) rest

def misspelled (payloads : List Bytes) : Nat := payloads.countP fun data => data.toText?.isNone

theorem textPayloads_skip (front rest : Bytes) (skip : Nat) :
    textPayloads (front.length + skip) (front ++ rest) = textPayloads skip rest := by
  induction front with
  | nil => rw [List.length_nil, Nat.zero_add, List.nil_append]
  | cons b front ih => rwa [List.length_cons, Nat.add_right_comm, List.cons_append, textPayloads]

/-- The first bytes can be written in place of the second: they are no longer, but for one byte for each
text among these that is misspelled. -/
structure Replaces (written bytes : Bytes) : Prop where
  /-- The bytes are whole items, so that the texts behind them do not depend on them. -/
  texts : ∀ rest, textPayloads 0 (bytes ++ rest) = textPayloads 0 bytes ++ textPayloads 0 rest
  length_le : written.length ≤ bytes.length + misspelled (textPayloads 0 bytes)

theorem Replaces.of_payloads {written bytes : Bytes} (payloads : List Bytes)
    (texts : ∀ rest, textPayloads 0 (bytes ++ rest) = payloads ++ textPayloads 0 rest)
    (short : written.length ≤ bytes.length + misspelled payloads) : Replaces written bytes := by
  have alone := texts []
  rw [List.append_nil, textPayloads, List.append_nil] at alone
  subst alone
  exact ⟨texts, short⟩

theorem Replaces.nil : Replaces [] [] := ⟨fun _ => rfl, Nat.le_refl _⟩

theorem Replaces.append {written bytes more back : Bytes} (first : Replaces written bytes)
    (second : Replaces more back) : Replaces (written ++ more) (bytes ++ back) where
  texts := by
    intro rest
    rw [List.append_assoc, first.texts, first.texts, second.texts, List.append_assoc]
  length_le := by
    have front := first.length_le
    have rear := second.length_le
    rw [first.texts back]
    simp only [misspelled, List.length_append, List.countP_append] at *
    omega

theorem Replaces.series {form : Packed → Bytes → Prop} {items : List Packed} {bytes : Bytes}
    (h : Series form items bytes) (each : ∀ v front, form v front → Replaces (encode v) front) :
    Replaces (items.flatMap encode) bytes := by
  induction h with
  | nil => exact .nil
  | cons first others ih => exact (each _ _ first).append ih

/-! ## Integers and headers -/

/-- An integer takes no more bytes than a marker and any number of bytes that spells it, signed or not. -/
theorem encodeInt_length_le {n : Int} {size : Nat} (sizes : size ∈ [1, 2, 4, 8])
    (low : -(256 ^ size : Nat) ≤ 2 * n) (high : n < (256 ^ size : Nat)) :
    (encodeInt n).length ≤ size + 1 := by
  simp only [List.mem_cons, List.not_mem_nil, or_false] at sizes
  unfold encodeInt
  rcases sizes with rfl | rfl | rfl | rfl <;> dsimp only <;> split_ifs <;>
    simp only [marked, List.length_cons, List.length_nil, Bytes.length_ofNat] <;> omega

theorem encode_ofNat {n : Nat} (h : n < 2 ^ 64) : encode (ofNat n) = encodeInt n := by
  have word : (UInt64.ofNat n).toNat = n := UInt64.toNat_ofNat_of_lt' h
  simp only [ofNat, PackedInt.ofUInt64, encode, word]

theorem encode_ofInt {n : Int} (low : -2 ^ 63 ≤ n) (high : n < 2 ^ 63) : encode (ofInt n) = encodeInt n := by
  simp only [ofInt, PackedInt.ofInt64, encode, Int64.toInt_ofInt_of_le low high]

theorem encode_marker {marker : UInt8} {v : Packed} (h : shape marker = .value v) :
    (encode v).length = 1 := by
  have small : marker.toNat < 256 := marker.toNat_lt
  revert h small
  unfold shape
  generalize marker.toNat = m
  intro h small
  dsimp only at h
  split_ifs at h with positive _ _ _ negative
  · cases h
    rw [encode_ofNat (by omega), encodeInt, if_pos (by omega)]
    simp only [Int.toNat_natCast, if_pos positive, List.length_singleton]
  · cases h
    rw [encode_ofInt (by omega) (by omega), encodeInt, if_neg (by omega), if_pos (by omega)]
    rfl
  · split at h <;> cases h <;> rfl

/-- The ways to spell a number in the bytes behind a marker. -/
inductive IsNumeral : (size : Nat) → (Bytes → Packed) → Prop
  | float32 : IsNumeral 4 fun data => .float32 ⟨.ofNat data.toNat⟩
  | float64 : IsNumeral 8 fun data => .float64 ⟨.ofNat data.toNat⟩
  | unsigned {size} : size ∈ [1, 2, 4, 8] → IsNumeral size fun data => .ofNat data.toNat
  | signed {size} : size ∈ [1, 2, 4, 8] → IsNumeral size fun data => .ofInt data.toInt

theorem shape_number {marker : UInt8} {size : Nat} {spelled : Bytes → Packed}
    (h : shape marker = .number size spelled) : IsNumeral size spelled := by
  unfold shape at h
  dsimp only at h
  split_ifs at h
  split at h <;> cases h
  · exact .float32
  · exact .float64
  all_goals first | exact .unsigned (by decide) | exact .signed (by decide)

theorem IsNumeral.length_le {size : Nat} {spelled : Bytes → Packed} (h : IsNumeral size spelled)
    {data : Bytes} (length : data.length = size) : (encode (spelled data)).length ≤ size + 1 := by
  have bound := Bytes.toNat_lt data
  rw [length] at bound
  have word : ∀ {n : Nat}, n ∈ [1, 2, 4, 8] → (256 ^ n : Nat) ≤ 2 ^ 64 := by decide
  cases h with
  | float32 | float64 => simp [encode, marked]
  | unsigned sizes =>
      rw [encode_ofNat (Nat.lt_of_lt_of_le bound (word sizes))]
      exact encodeInt_length_le sizes (by omega) (by exact_mod_cast bound)
  | signed sizes =>
      have half : -(256 ^ size : Nat) ≤ 2 * data.toInt ∧ 2 * data.toInt < (256 ^ size : Nat) := by
        simp only [Bytes.toInt, length]
        split_ifs <;> omega
      have fits := word sizes
      rw [encode_ofInt (by omega) (by omega)]
      exact encodeInt_length_le sizes half.1 (by omega)

def Family.header : Family → Nat → Bytes
  | .str => strHeader
  | .bin => binHeader
  | .ext => extHeader
  | .array => arrayHeader
  | .map => mapHeader

theorem header_fixed {marker : UInt8} {family : Family} {length : Nat}
    (h : shape marker = .fixed family length) : (family.header length).length = 1 := by
  unfold shape at h
  dsimp only at h
  split_ifs at h
  · cases h
    rw [Family.header, mapHeader, if_pos (by omega), List.length_singleton]
  · cases h
    rw [Family.header, arrayHeader, if_pos (by omega), List.length_singleton]
  · cases h
    rw [Family.header, strHeader, if_pos (by omega), List.length_singleton]
  · split at h <;> cases h <;> rfl

theorem header_length_le (family : Family) (length : Nat) :
    (family.header length).length ≤ 5 ∧ (length < 2 ^ 16 → (family.header length).length ≤ 3) ∧
      (length < 2 ^ 8 → family ≠ .array → family ≠ .map → (family.header length).length ≤ 2) := by
  cases family with
  | str => rw [Family.header, strHeader]; split_ifs <;> simp [marked] <;> omega
  | bin => rw [Family.header, binHeader]; split_ifs <;> simp [marked] <;> omega
  | ext =>
      rw [Family.header]
      unfold extHeader
      split
      case h_6 => split_ifs <;> simp [marked] <;> omega
      all_goals simp
  | array =>
      rw [Family.header, arrayHeader]
      split_ifs <;> simp [marked]
      omega
  | map =>
      rw [Family.header, mapHeader]
      split_ifs <;> simp [marked]
      omega

/-- A length of so many bytes is written in no more of them. -/
theorem header_sized {marker : UInt8} {family : Family} {size length : Nat}
    (h : shape marker = .sized family size) (bound : length < 256 ^ size) :
    (family.header length).length ≤ size + 1 := by
  obtain ⟨four, two, one⟩ := header_length_le family length
  -- Containers have no header with a length of one byte.
  have sizes : (size = 1 ∧ family ≠ .array ∧ family ≠ .map) ∨ size = 2 ∨ size = 4 := by
    unfold shape at h
    dsimp only at h
    split_ifs at h
    split at h <;> cases h <;> decide
  rcases sizes with ⟨rfl, plain⟩ | rfl | rfl
  · exact one bound plain.1 plain.2
  · exact two bound
  · exact four

/-- No declaration of a length is shorter than the header that is written. -/
theorem Announces.header_length_le {family : Family} {front : Bytes} {length : Nat}
    (h : Announces family front length) : (family.header length).length ≤ front.length := by
  cases h with
  | fixed announced => exact (header_fixed announced).le
  | sized announced => exact header_sized announced (Bytes.toNat_lt _)

/-! ## Whole values -/

section
variable {limits : Limits} {inner : Option (Packed → Bytes → Prop)} {family : Family} {length : Nat}
  {v : Packed} {front back : Bytes}

theorem Announces.textPayloads (h : Announces family front length) (rest : Bytes) :
    textPayloads 0 (front ++ rest) =
      (if family = .str then [rest.take length] else []) ++
        Packed.textPayloads (family.extent length) rest := by
  cases h with
  | fixed announced =>
      rw [List.singleton_append, Packed.textPayloads, announced]
      cases family <;> rfl
  | @sized marker header announced =>
      have payload : (header ++ rest).take header.length = header := List.take_left
      rw [List.cons_append, Packed.textPayloads, announced, Shape.extent, payload, textPayloads_skip]
      cases family <;> simp [Shape.text?]

theorem ofStr_length_le (data : Bytes) :
    (encode (ofStr data)).length ≤ (strHeader data.length).length + data.length + misspelled [data] := by
  unfold ofStr misspelled
  cases given : data.toText? with
  | some text =>
      rw [Bytes.toText?_eq_some.mp given]
      simp [encode]
  | none =>
      have headers : (binHeader data.length).length ≤ (strHeader data.length).length + 1 := by
        unfold binHeader strHeader
        split_ifs <;> simp [marked] <;> omega
      simp [encode, given]
      omega

theorem Content.replaces (announces : Announces family front length)
    (h : Content limits inner family length v back)
    (below : ∀ form, inner = some form → ∀ v front, form v front → Replaces (encode v) front) :
    Replaces (encode v) (front ++ back) := by
  have header := announces.header_length_le
  have texts := announces.textPayloads
  cases h with
  | str small =>
      rw [Family.header] at header
      refine .of_payloads [back] (fun rest => ?_) ?_
      · rw [List.append_assoc, texts, if_pos rfl, List.take_left]
        exact congrArg _ (textPayloads_skip back rest 0)
      · have written := ofStr_length_le back
        rw [List.length_append]
        omega
  | bin small =>
      rw [Family.header] at header
      refine .of_payloads [] (fun rest => ?_) ?_
      · rw [List.append_assoc, texts]
        exact textPayloads_skip back rest 0
      · simp only [encode, List.length_append]
        omega
  | @ext type data small =>
      rw [Family.header] at header
      refine .of_payloads [] (fun rest => ?_) ?_
      · rw [List.append_assoc, texts]
        exact textPayloads_skip (type :: data) rest 0
      · simp only [encode, List.length_append, List.length_cons]
        omega
  | array given small series =>
      rw [encode, encodeItems_eq]
      exact .append (.of_payloads [] texts header) (.series series (below _ given))
  | @map form entries _ given small series =>
      have parts : (entries.flatMap fun e => encode e.1 ++ encode e.2) =
          (entries.flatMap fun e => [e.1, e.2]).flatMap encode := by
        simp [List.flatMap_assoc]
      rw [encode, encodeEntries_eq, parts]
      exact .append (.of_payloads [] texts header) (.series series.flatten (below _ given))

/-- A layer is written in no more bytes than it has, if what is inside it is. -/
theorem Layer.replaces (h : Layer limits inner v front)
    (below : ∀ form, inner = some form → ∀ v front, form v front → Replaces (encode v) front) :
    Replaces (encode v) front := by
  cases h with
  | value announced =>
      refine .of_payloads [] (fun rest => ?_) ?_
      · rw [List.singleton_append, textPayloads, announced]
        rfl
      · exact (encode_marker announced).le
  | @number marker size spelled data announced length =>
      refine .of_payloads [] (fun rest => ?_) ?_
      · rw [List.cons_append, textPayloads, announced, ← length]
        exact textPayloads_skip data rest 0
      · rw [List.length_cons, length]
        exact (shape_number announced).length_le length
  | content announces content => exact content.replaces announces below

theorem Spells.replaces {levels : Nat} (h : Spells limits levels v front) : Replaces (encode v) front := by
  induction levels generalizing v front with
  | zero => exact Layer.replaces h nofun
  | succ levels ih =>
      refine Layer.replaces h ?_
      rintro _ ⟨⟩ v front inside
      exact ih inside

/-- What is accepted is written again in no more bytes, but for one byte for each text that is misspelled. -/
theorem encode_length_le {bytes : Bytes} (accepted : ofBytes limits bytes = .ok v) :
    (encode v).length ≤ bytes.length + misspelled (textPayloads 0 bytes) :=
  (ofBytes_eq_ok.mp accepted).replaces.length_le

end

/-- Writing is minimal. Whatever byte string is accepted as a value, under whatever limits, the value is
written in no more bytes, unless texts in the byte string are not well-formed UTF-8; and what is written is
accepted under the same limits, as the same value. -/
theorem toBytes_shortest (limits : Limits) (bytes : Bytes) (v : Packed) (accepted : ofBytes limits bytes = .ok v)
    (texts : ∀ data ∈ textPayloads 0 bytes, ∃ text, data.toText? = some text) :
    ∃ shortest, v.toBytes = .ok shortest ∧ shortest.length ≤ bytes.length ∧
      ofBytes limits shortest = .ok v := by
  have none : misspelled (textPayloads 0 bytes) = 0 := by
    refine List.countP_eq_zero.mpr fun data member => ?_
    obtain ⟨text, given⟩ := texts data member
    rw [given]
    exact Bool.false_ne_true
  have short := encode_length_le accepted
  rw [none] at short
  obtain ⟨fits, small⟩ := (ofBytes_eq_ok.mp accepted).fits
  exact ⟨encode v, toBytes_eq_ok.mpr ⟨small, rfl⟩, short, (ofBytes_encode small).mpr fits⟩

/-- An array of a number and an extension, spelled in more bytes than are needed at each place. -/
theorem toBytes_shortest_wasteful :
    let bytes : Bytes := [0xdd, 0, 0, 0, 3, 0xd3, 0, 0, 0, 0, 0, 0, 1, 0, 0xc8, 0, 2, 5, 1, 2,
      0xdb, 0, 0, 0, 2, 0xc3, 0xa9]
    let v : Packed := .array [.ofInt 256, .ext 5 [1, 2], .str "é"]
    ofBytes ⟨3, 1⟩ bytes = .ok v ∧ (∀ data ∈ textPayloads 0 bytes, ∃ text, data.toText? = some text) ∧
      ∃ shortest, v.toBytes = .ok shortest ∧ shortest.length ≤ bytes.length ∧
        ofBytes ⟨3, 1⟩ shortest = .ok v := by
  intro bytes v
  have accepted : ofBytes ⟨3, 1⟩ bytes = .ok v := by cbv
  have texts : ∀ data ∈ textPayloads 0 bytes, ∃ text, data.toText? = some text := by
    intro data member
    have only : textPayloads 0 bytes = [[0xc3, 0xa9]] := by rfl
    rw [only, List.mem_singleton] at member
    subst member
    exact ⟨"é", rfl⟩
  exact ⟨accepted, texts, toBytes_shortest ⟨3, 1⟩ bytes v accepted texts⟩

end PackRpc.Packed
