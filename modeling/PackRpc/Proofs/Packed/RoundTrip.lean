import PackRpc.Proofs.Packed.Buffer

namespace PackRpc.Packed
open Reader (Series Pair map_eq_ok andThen_eq_ok)

section
variable {n : Nat}

theorem shape_positive (h : n < 0x80) : shape (.ofNat n) = .value (ofNat n) := by
  simp only [shape, Bytes.toNat_byte (show n < 256 by omega)]
  rw [if_pos h]

theorem shape_negative (low : 0xe0 ≤ n) (h : n < 0x100) :
    shape (.ofNat n) = .value (ofInt ((n : Int) - 0x100)) := by
  simp only [shape, Bytes.toNat_byte h]
  rw [if_neg (by omega), if_neg (by omega), if_neg (by omega), if_neg (by omega), if_pos low]

theorem shape_map (h : n < 16) : shape (.ofNat (0x80 + n)) = .fixed .map n := by
  simp only [shape, Bytes.toNat_byte (show 0x80 + n < 256 by omega)]
  rw [if_neg (by omega), if_pos (by omega), Nat.add_sub_cancel_left]

theorem shape_array (h : n < 16) : shape (.ofNat (0x90 + n)) = .fixed .array n := by
  simp only [shape, Bytes.toNat_byte (show 0x90 + n < 256 by omega)]
  rw [if_neg (by omega), if_neg (by omega), if_pos (by omega), Nat.add_sub_cancel_left]

theorem shape_str (h : n < 32) : shape (.ofNat (0xa0 + n)) = .fixed .str n := by
  simp only [shape, Bytes.toNat_byte (show 0xa0 + n < 256 by omega)]
  rw [if_neg (by omega), if_neg (by omega), if_neg (by omega), if_pos (by omega),
    Nat.add_sub_cancel_left]

theorem marked_announces {family : Family} {marker : UInt8} {count : Nat}
    (announced : shape marker = .sized family count) (h : n < 256 ^ count) :
    Announces family (marked marker count n) n := by
  have front : Announces family (marker :: Bytes.ofNat count n) (Bytes.toNat (Bytes.ofNat count n)) :=
    .sized (by rw [Bytes.length_ofNat]; exact announced)
  rwa [Bytes.toNat_ofNat h] at front

theorem strHeader_announces (h : n < 2 ^ 32) : Announces .str (strHeader n) n := by
  unfold strHeader
  split_ifs with h5 h8 h16
  · exact .fixed (shape_str h5)
  · exact marked_announces rfl h8
  · exact marked_announces rfl h16
  · exact marked_announces rfl h

theorem binHeader_announces (h : n < 2 ^ 32) : Announces .bin (binHeader n) n := by
  unfold binHeader
  split_ifs with h8 h16
  · exact marked_announces rfl h8
  · exact marked_announces rfl h16
  · exact marked_announces rfl h

theorem arrayHeader_announces (h : n < 2 ^ 32) : Announces .array (arrayHeader n) n := by
  unfold arrayHeader
  split_ifs with h4 h16
  · exact .fixed (shape_array h4)
  · exact marked_announces rfl h16
  · exact marked_announces rfl h

theorem mapHeader_announces (h : n < 2 ^ 32) : Announces .map (mapHeader n) n := by
  unfold mapHeader
  split_ifs with h4 h16
  · exact .fixed (shape_map h4)
  · exact marked_announces rfl h16
  · exact marked_announces rfl h

theorem extHeader_announces (h : n < 2 ^ 32) : Announces .ext (extHeader n) n := by
  unfold extHeader
  split
  · exact .fixed rfl
  · exact .fixed rfl
  · exact .fixed rfl
  · exact .fixed rfl
  · exact .fixed rfl
  · split_ifs with h8 h16
    · exact marked_announces rfl h8
    · exact marked_announces rfl h16
    · exact marked_announces rfl h

end

theorem ofNat_toNat {n : PackedInt} (h : 0 ≤ n.val) : ofNat n.val.toNat = .int n := by
  obtain ⟨val, ge, lt⟩ := n
  have word : (UInt64.ofNat val.toNat).toNat = val.toNat :=
    UInt64.toNat_ofNat_of_lt' (show val.toNat < 2 ^ 64 by omega)
  simp only [ofNat, PackedInt.ofUInt64, word, Int.toNat_of_nonneg h]

theorem ofInt_val {n : PackedInt} (h : n.val < 2 ^ 63) : ofInt n.val = .int n := by
  obtain ⟨val, ge, lt⟩ := n
  simp only [ofInt, PackedInt.ofInt64, Int64.toInt_ofInt_of_le ge h]

section
variable {limits : Limits} {inner : Option (Packed → Bytes → Prop)} {marker : UInt8} (count : Nat)
  {n : PackedInt}

theorem unsigned_layer (announced : shape marker = .number count fun data => .ofNat data.toNat)
    (nonneg : 0 ≤ n.val) (h : n.val.toNat < 256 ^ count) :
    Layer limits inner (.int n) (marked marker count n.val.toNat) := by
  have layer : Layer limits inner _ _ := .number announced (Bytes.length_ofNat count n.val.toNat)
  rwa [Bytes.toNat_ofNat h, ofNat_toNat nonneg] at layer

theorem signed_layer (announced : shape marker = .number count fun data => .ofInt data.toInt)
    (low : -(256 ^ count : Nat) ≤ 2 * n.val) (neg : n.val < 0) :
    Layer limits inner (.int n) (marked marker count (n.val + (256 ^ count : Nat)).toNat) := by
  have layer : Layer limits inner _ _ :=
    .number announced (Bytes.length_ofNat count (n.val + (256 ^ count : Nat)).toNat)
  rwa [Bytes.toInt_ofNat_of_neg low neg, ofInt_val (by omega)] at layer

theorem encodeInt_layer (n : PackedInt) : Layer limits inner (.int n) (encodeInt n.val) := by
  have ge := n.ge
  have lt := n.lt
  unfold encodeInt
  by_cases sign : 0 ≤ n.val
  · rw [if_pos sign]
    dsimp only
    split_ifs with h7 h8 h16 h32
    · have announced := shape_positive h7
      rw [ofNat_toNat sign] at announced
      exact .value announced
    · exact unsigned_layer _ rfl sign h8
    · exact unsigned_layer _ rfl sign h16
    · exact unsigned_layer _ rfl sign h32
    · exact unsigned_layer _ rfl sign (by omega)
  · rw [if_neg sign]
    split_ifs
    · have announced := shape_negative (n := (n.val + 2 ^ 8).toNat) (by omega) (by omega)
      have val : ((n.val + 2 ^ 8).toNat : Int) - 0x100 = n.val := by omega
      rw [val, ofInt_val (by omega)] at announced
      exact .value announced
    · exact signed_layer 1 rfl (by omega) (by omega)
    · exact signed_layer 2 rfl (by omega) (by omega)
    · exact signed_layer 4 rfl (by omega) (by omega)
    · exact signed_layer 8 rfl (by omega) (by omega)

theorem float32_layer (x : Binary32) : Layer limits inner (.float32 x) (marked 0xca 4 x.bits.toNat) := by
  have layer : Layer limits inner _ (0xca :: _) := .number rfl (Bytes.length_ofNat 4 x.bits.toNat)
  rwa [Bytes.toNat_ofNat x.bits.toNat_lt, UInt32.ofNat_toNat] at layer

theorem float64_layer (x : Binary64) : Layer limits inner (.float64 x) (marked 0xcb 8 x.bits.toNat) := by
  have layer : Layer limits inner _ (0xcb :: _) := .number rfl (Bytes.length_ofNat 8 x.bits.toNat)
  rwa [Bytes.toNat_ofNat x.bits.toNat_lt, UInt64.ofNat_toNat] at layer

end

/-- The error of a reader that met a part too long for its limits, or nested too deep. -/
def IsLimit (limits : Limits) (e : FormatError) : Prop :=
  (∃ length, limits.maxSize < length ∧ e = .tooLarge length limits.maxSize) ∨
    e = .tooDeep limits.maxDepth

/-- The reader takes `a` from `form` under the condition `fits`, and refuses it for a limit otherwise. -/
structure Judges {α : Type} (limits : Limits) (read : Reader α) (fits : Prop) (form : Bytes) (a : α) :
    Prop where
  accepts : fits → ∀ rest, read (form ++ rest) = .ok (a, rest)
  refuses : ¬fits → ∀ rest, ∃ e, read (form ++ rest) = .error (.refused e) ∧ IsLimit limits e

section
variable {α β : Type} {limits : Limits} {read : Reader α} {fits : Prop} {form : Bytes} {a : α}

theorem Judges.congr {fits' : Prop} (h : Judges limits read fits form a) (same : fits' ↔ fits) :
    Judges limits read fits' form a :=
  ⟨fun ok => h.accepts (same.mp ok), fun bad => h.refuses fun ok => bad (same.mpr ok)⟩

theorem take_judges (limits : Limits) (data : Bytes) :
    Judges limits (Reader.take data.length) True data data where
  accepts := fun _ _ => (Reader.take_accepts _ _ _ _).mpr ⟨data, rfl, rfl, rfl⟩
  refuses := fun bad => absurd trivial bad

theorem byte_judges (limits : Limits) (b : UInt8) :
    Judges limits (Reader.number 1) True [b] b.toNat where
  accepts := fun _ _ =>
    (Reader.number_accepts _ _ _ _).mpr ⟨[b], rfl, rfl, Bytes.toNat_singleton b⟩
  refuses := fun bad => absurd trivial bad

theorem map_judges (f : α → β) (h : Judges limits read fits form a) :
    Judges limits (Reader.map f read) fits form (f a) where
  accepts := fun ok rest => map_eq_ok.mpr ⟨a, h.accepts ok rest, rfl⟩
  refuses := by
    intro bad rest
    obtain ⟨e, refused, limit⟩ := h.refuses bad rest
    exact ⟨e, by simp only [Reader.map, refused], limit⟩

theorem andThen_judges {next : α → Reader β} {fits' : Prop} {back : Bytes} {b : β}
    (first : Judges limits read fits form a) (second : Judges limits (next a) fits' back b) :
    Judges limits (Reader.andThen read next) (fits ∧ fits') (form ++ back) b where
  accepts := by
    intro ok rest
    rw [List.append_assoc, andThen_eq_ok]
    exact ⟨a, back ++ rest, first.accepts ok.1 _, second.accepts ok.2 rest⟩
  refuses := by
    intro bad rest
    rw [List.append_assoc]
    by_cases ok : fits
    · obtain ⟨e, refused, limit⟩ := second.refuses (fun ok' => bad ⟨ok, ok'⟩) rest
      exact ⟨e, by simp only [Reader.andThen, first.accepts ok, refused], limit⟩
    · obtain ⟨e, refused, limit⟩ := first.refuses ok (back ++ rest)
      exact ⟨e, by simp only [Reader.andThen, refused], limit⟩

theorem pair_judges {read : Reader α} {fits fits' : Prop} {front back : Bytes} {a b : α}
    (first : Judges limits read fits front a) (second : Judges limits read fits' back b) :
    Judges limits (Reader.pair read read) (fits ∧ fits') (front ++ back) (a, b) :=
  andThen_judges first (map_judges (fun b => (a, b)) second)

theorem many_judges {fits : α → Prop} {form : α → Bytes} {as : List α}
    (h : ∀ a ∈ as, Judges limits read (fits a) (form a) a) :
    Judges limits (Reader.many read as.length) (∀ a ∈ as, fits a) (as.flatMap form) as := by
  induction as with
  | nil => exact ⟨fun _ _ => rfl, fun bad => absurd (List.forall_mem_nil fits) bad⟩
  | cons a as ih =>
      obtain ⟨first, others⟩ := List.forall_mem_cons.mp h
      rw [List.length_cons, Reader.many_succ, List.flatMap_cons]
      exact (andThen_judges first (map_judges (a :: ·) (ih others))).congr List.forall_mem_cons

theorem checked_judges (length : Nat) (h : Judges limits read fits form a) :
    Judges limits (checked limits length read) (length ≤ limits.maxSize ∧ fits) form a where
  accepts := fun ok rest => checked_eq_ok.mpr ⟨ok.1, h.accepts ok.2 rest⟩
  refuses := by
    intro bad rest
    unfold checked
    split
    · next large => exact ⟨_, rfl, .inl ⟨length, large, rfl⟩⟩
    · next small => exact h.refuses (fun ok => bad ⟨Nat.not_lt.mp small, ok⟩) rest

/-- The reader of the parts of a container. -/
def layerBelow (limits : Limits) : (levels : Nat) → Option (Reader Packed)
  | 0 => none
  | levels + 1 => some (parse limits levels)

theorem parse_eq_item (limits : Limits) (levels : Nat) :
    parse limits levels = item limits (layerBelow limits levels) := by
  cases levels <;> rfl

theorem nested_judges {body : Reader Packed → Reader α} {fits : Nat → Prop}
    (h : ∀ levels, Judges limits (body (parse limits levels)) (fits levels) form a) (levels : Nat) :
    Judges limits (nested limits (layerBelow limits levels) body)
      (∃ inside, levels = inside + 1 ∧ fits inside) form a := by
  cases levels with
  | zero =>
      refine ⟨fun ok => ?_, fun _ rest => ⟨_, rfl, .inr rfl⟩⟩
      obtain ⟨inside, impossible, -⟩ := ok
      cases impossible
  | succ levels => exact (h levels).congr (by simp)

theorem parse_judges_content {family : Family} {levels : Nat} {v : Packed} {front back : Bytes} {length : Nat}
    (announces : Announces family front length)
    (h : Judges limits (family.body limits (layerBelow limits levels) length) fits back v) :
    Judges limits (parse limits levels) fits (front ++ back) v := by
  refine ⟨fun ok rest => ?_, fun bad rest => ?_⟩
  · rw [parse_eq_item, List.append_assoc, item_announces announces]
    exact h.accepts ok rest
  · rw [parse_eq_item, List.append_assoc, item_announces announces]
    exact h.refuses bad rest

theorem parse_judges_scalar {v : Packed} (scalar : v.IsScalar)
    (h : ∀ inner, Layer limits inner v form) (levels : Nat) :
    Judges limits (parse limits levels) (Fits limits levels v) form v where
  accepts := fun _ rest =>
    (parse_accepts limits levels _ v rest).mpr ⟨form, rfl, Layer.spells h levels⟩
  refuses := fun bad => absurd (scalar.fits limits levels) bad

end

theorem encodeItems_eq (items : List Packed) : encodeItems items = items.flatMap encode := by
  induction items with
  | nil => rfl
  | cons item items ih => rw [encodeItems, ih, List.flatMap_cons]

theorem encodeEntries_eq (entries : List (Packed × Packed)) :
    encodeEntries entries = entries.flatMap fun e => encode e.1 ++ encode e.2 := by
  induction entries with
  | nil => rfl
  | cons e entries ih => rw [encodeEntries, ih, List.flatMap_cons, List.append_assoc]

theorem fits_array {limits : Limits} {levels : Nat} {items : List Packed} :
    Fits limits levels (.array items) ↔ items.length ≤ limits.maxSize ∧
      ∃ inside, levels = inside + 1 ∧ ∀ v ∈ items, Fits limits inside v := by
  rw [Fits, longest, depth, Nat.max_le, longestItems_le, and_assoc]
  refine and_congr_right fun _ => ?_
  cases levels with
  | zero => simp
  | succ inside =>
      rw [Nat.succ_le_succ_iff, depthItems_le]
      simp [Fits, forall_and]

theorem fits_map {limits : Limits} {levels : Nat} {entries : List (Packed × Packed)} :
    Fits limits levels (.map entries) ↔ entries.length ≤ limits.maxSize ∧
      ∃ inside, levels = inside + 1 ∧ ∀ e ∈ entries, Fits limits inside e.1 ∧ Fits limits inside e.2 := by
  rw [Fits, longest, depth, Nat.max_le, longestEntries_le, and_assoc]
  refine and_congr_right fun _ => ?_
  cases levels with
  | zero => simp
  | succ inside =>
      rw [Nat.succ_le_succ_iff, depthEntries_le]
      simp only [Fits, forall_and, Nat.add_right_cancel_iff, exists_eq_left']
      tauto

/-- The reader judges the encoding of a value by the measures of the value. -/
theorem parse_judges (limits : Limits) (v : Packed) (short : v.longest < 2 ^ 32) (levels : Nat) :
    Judges limits (parse limits levels) (Fits limits levels v) (encode v) v := by
  induction v using Packed.induction generalizing levels with
  | nil => exact parse_judges_scalar ⟨rfl, rfl⟩ (fun inner => .value rfl) levels
  | bool b =>
      refine parse_judges_scalar ⟨rfl, rfl⟩ (fun inner => .value ?_) levels
      cases b <;> rfl
  | int n => exact parse_judges_scalar ⟨rfl, rfl⟩ (fun inner => encodeInt_layer n) levels
  | float32 x => exact parse_judges_scalar ⟨rfl, rfl⟩ (fun inner => float32_layer x) levels
  | float64 x => exact parse_judges_scalar ⟨rfl, rfl⟩ (fun inner => float64_layer x) levels
  | str text =>
      have content := checked_judges (Bytes.ofText text).length
        (map_judges (fun data => (data.toText?.map Packed.str).getD (.bin data))
          (take_judges limits (Bytes.ofText text)))
      rw [Bytes.toText?_ofText] at content
      exact (parse_judges_content (strHeader_announces short) content).congr (by simp [Fits, longest, depth])
  | bin data =>
      have content := checked_judges data.length
        (map_judges Packed.bin (take_judges limits data))
      exact (parse_judges_content (binHeader_announces short) content).congr (by simp [Fits, longest, depth])
  | ext type data =>
      have content : Judges limits (extBody limits data.length) _ _ _ := checked_judges _
        (andThen_judges (byte_judges limits type.toUInt8) (map_judges _ (take_judges limits data)))
      rw [UInt8.ofNat_toNat, Int8.toInt8_toUInt8] at content
      exact (parse_judges_content (extHeader_announces short) content).congr
        (by simp [Fits, longest, depth])
  | array items ih =>
      rw [longest, Nat.max_lt, longestItems_lt (by decide)] at short
      have parts := fun levels => map_judges Packed.array
        (many_judges fun v hv => ih v hv (short.2 v hv) levels)
      rw [encode, encodeItems_eq]
      exact (parse_judges_content (arrayHeader_announces short.1)
        (checked_judges _ (nested_judges parts levels))).congr fits_array
  | map entries ih =>
      rw [longest, Nat.max_lt, longestEntries_lt (by decide)] at short
      have parts := fun levels => map_judges Packed.map
        (many_judges fun e he => pair_judges ((ih e he).1 (short.2 e he).1 levels)
          ((ih e he).2 (short.2 e he).2 levels))
      rw [encode, encodeEntries_eq]
      exact (parse_judges_content (mapHeader_announces short.1)
        (checked_judges _ (nested_judges parts levels))).congr fits_map

/-- The encoding of a value is a spelling of it under the limits that it keeps. -/
theorem encode_spells {limits : Limits} {v : Packed} {levels : Nat} (short : v.longest < 2 ^ 32)
    (fits : Fits limits levels v) : Spells limits levels v (encode v) := by
  have read := (parse_judges limits v short levels).accepts fits []
  obtain ⟨front, same, spells⟩ := (parse_accepts limits levels _ v []).mp read
  rw [List.append_cancel_right same]
  exact spells

theorem ofBytes_encode {limits : Limits} {v : Packed} (short : v.longest < 2 ^ 32) :
    ofBytes limits (encode v) = .ok v ↔ Fits limits limits.maxDepth v := by
  rw [ofBytes_eq_ok]
  exact ⟨fun spells => spells.fits.1, encode_spells short⟩

/-- Within the limits a value comes back from the bytes that it was written as. -/
theorem ofBytes_toBytes {limits : Limits} {v : Packed} {bytes : Bytes} (encoded : v.toBytes = .ok bytes)
    (small : bytes.length ≤ limits.maxSize) (shallow : v.depth ≤ limits.maxDepth) :
    ofBytes limits bytes = .ok v := by
  obtain ⟨short, rfl⟩ := toBytes_eq_ok.mp encoded
  have longest := Nat.le_trans (longest_le_encode_length v) small
  exact (ofBytes_encode short).mpr ⟨longest, shallow⟩

theorem ofBytes_encode_refused {limits : Limits} {v : Packed} (short : v.longest < 2 ^ 32)
    (h : ¬Fits limits limits.maxDepth v) :
    ∃ e, ofBytes limits (encode v) = .error e ∧ IsLimit limits e := by
  obtain ⟨e, refused, limit⟩ := (parse_judges limits v short limits.maxDepth).refuses h []
  rw [List.append_nil] at refused
  exact ⟨e, by rw [ofBytes, refused], limit⟩

/-- Writing and reading are inverse up to the limits. The bytes of a value are accepted exactly when its
longest part and its nesting are within the limits, and are refused for one of these otherwise; in front of
any other bytes they are taken off as a whole. What is accepted from any bytes is within the limits, and is
accepted again when it is written anew. -/
theorem toBytes_ofBytes (limits : Limits) :
    (∀ v : Packed, v.longest < 2 ^ 32 → ∃ bytes, v.toBytes = .ok bytes ∧
      (ofBytes limits bytes = .ok v ↔ v.longest ≤ limits.maxSize ∧ v.depth ≤ limits.maxDepth) ∧
      (¬(v.longest ≤ limits.maxSize ∧ v.depth ≤ limits.maxDepth) →
        (∃ length, limits.maxSize < length ∧
          ofBytes limits bytes = .error (.tooLarge length limits.maxSize)) ∨
        ofBytes limits bytes = .error (.tooDeep limits.maxDepth)) ∧
      (ofBytes limits bytes = .ok v →
        ∀ rest, decodeFirst limits (bytes ++ rest) = (.ok (some v), rest))) ∧
    ∀ input w, ofBytes limits input = .ok w →
      (w.longest ≤ limits.maxSize ∧ w.depth ≤ limits.maxDepth) ∧
        ∃ again, w.toBytes = .ok again ∧ ofBytes limits again = .ok w := by
  constructor
  · intro v short
    refine ⟨encode v, toBytes_eq_ok.mpr ⟨short, rfl⟩, ofBytes_encode short, fun large => ?_, fun read rest => ?_⟩
    · obtain ⟨e, refused, ⟨length, long, rfl⟩ | rfl⟩ := ofBytes_encode_refused short large
      · exact .inl ⟨length, long, refused⟩
      · exact .inr refused
    · have fresh := Buffer.ofBytes_resumable limits (encode v ++ rest)
      rw [decodeFirst, fresh.next_accepted read rfl]
      rfl
  · intro input w read
    obtain ⟨fits, short⟩ := (ofBytes_eq_ok.mp read).fits
    exact ⟨fits, encode w, toBytes_eq_ok.mpr ⟨short, rfl⟩, (ofBytes_encode short).mpr fits⟩

/-- A map in an array, under limits that it just meets and under a smaller size. -/
theorem toBytes_ofBytes_nested :
    let v : Packed := .array [.int (.ofInt64 (-33)), .map [(.str "é", .nil)]]
    let bytes : Bytes := [0x92, 0xd0, 0xdf, 0x81, 0xa2, 0xc3, 0xa9, 0xc0]
    v.toBytes = .ok bytes ∧ ofBytes ⟨2, 2⟩ bytes = .ok v ∧
      (∀ rest, decodeFirst ⟨2, 2⟩ (bytes ++ rest) = (.ok (some v), rest)) ∧
      ∀ w, ofBytes ⟨1, 2⟩ bytes ≠ .ok w := by
  intro v bytes
  obtain ⟨written, encoded, iff, -, front⟩ := (toBytes_ofBytes ⟨2, 2⟩).1 v (by decide)
  have same : v.toBytes = .ok bytes := by rfl
  rw [same] at encoded
  cases encoded
  have read := iff.mpr (by decide)
  obtain ⟨again, encoded, -, refused, -⟩ := (toBytes_ofBytes ⟨1, 2⟩).1 v (by decide)
  rw [same] at encoded
  cases encoded
  refine ⟨same, read, front read, fun w accepted => ?_⟩
  rcases refused (by decide) with ⟨length, -, large⟩ | deep
  · rw [large] at accepted
    cases accepted
  · rw [deep] at accepted
    cases accepted

end PackRpc.Packed
