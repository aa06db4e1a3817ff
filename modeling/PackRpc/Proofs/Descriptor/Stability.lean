import PackRpc.Proofs.Descriptor.RoundTrip

namespace PackRpc

section
variable {α β γ δ C D : Type} {f f' : β → Except (Located C) γ} {g g' : γ → Except (Located D) δ}
  {p : α → β} {q : α → δ}

/-- If each item goes through two functions one after the other, so does the list. -/
theorem mapItems_through {as : List α} (h : ∀ a ∈ as, ∃ c, f (p a) = .ok c ∧ g c = .ok (q a)) (i j : Nat) :
    ∃ cs, mapItems f i (as.map p) = .ok cs ∧ mapItems g j cs = .ok (as.map q) := by
  simp only [mapItems_eq_ok, List.forall₂_map_left_iff, List.forall₂_map_right_iff]
  induction as with
  | nil => exact ⟨[], .nil, .nil⟩
  | cons a as ih =>
      obtain ⟨⟨c, first, back⟩, others⟩ := List.forall_mem_cons.mp h
      obtain ⟨cs, firsts, backs⟩ := ih others
      exact ⟨c :: cs, .cons first firsts, .cons back backs⟩

theorem mapEntries_through {entries : List (α × α)}
    (h : ∀ e ∈ entries, (∃ c, f (p e.1) = .ok c ∧ g c = .ok (q e.1)) ∧
      ∃ c, f' (p e.2) = .ok c ∧ g' c = .ok (q e.2)) (i j : Nat) :
    ∃ packed, mapEntries f f' i (entries.map fun e => (p e.1, p e.2)) = .ok packed ∧
      mapEntries g g' j packed = .ok (entries.map fun e => (q e.1, q e.2)) := by
  simp only [mapEntries_eq_ok, List.forall₂_map_left_iff, List.forall₂_map_right_iff]
  induction entries with
  | nil => exact ⟨[], .nil, .nil⟩
  | cons e entries ih =>
      obtain ⟨⟨⟨key, hkey, kback⟩, value, hvalue, vback⟩, others⟩ := List.forall_mem_cons.mp h
      obtain ⟨packed, firsts, backs⟩ := ih others
      exact ⟨(key, value) :: packed, .cons ⟨hkey, hvalue⟩ firsts, .cons ⟨kback, vback⟩ backs⟩

end

/-- What a packed value stands for has a packed form that stands for the same. -/
theorem Value.ofPacked_toPacked_ofPacked (w : Packed) : ofPacked (ofPacked w).toPacked = ofPacked w := by
  induction w using Packed.induction with
  | nil | bool | float32 | float64 | str | bin | ext => rfl
  | int n =>
      obtain ⟨m, form, number⟩ := toPacked_of_integer (ofInteger_integer n)
      obtain rfl : m = n := PackedInt.ext number
      rw [ofPacked, form, ofPacked]
  | array items ih =>
      rw [ofPacked, toPacked, ofPacked, toPackedItems_eq, ofPackedItems_eq, ofPackedItems_eq, List.map_map,
        List.map_map]
      exact congrArg Value.seq (List.map_congr_left ih)
  | map entries ih =>
      rw [ofPacked, toPacked, ofPacked, toPackedEntries_eq, ofPackedEntries_eq, ofPackedEntries_eq,
        List.map_map, List.map_map]
      exact congrArg Value.map (List.map_congr_left fun e he => Prod.ext (ih e he).1 (ih e he).2)

namespace Descriptor

section
variable {i : Nat} {name : String} {fields : List (String × Descriptor)} {v : Value} {w : Packed}

theorem decode_tuple {items : List Descriptor} : (Descriptor.tuple items).decode w = .ok v ↔
    ∃ ws vs, w = .array ws ∧ items.length = ws.length ∧ decodeItems 0 items ws = .ok vs ∧ Value.seq vs = v := by
  constructor
  · intro h
    cases w with
    | array ws =>
        obtain ⟨size, mapped⟩ := ofArity_eq_ok.mp h
        obtain ⟨vs, inside, rfl⟩ := Except.map_eq_ok.mp mapped
        exact ⟨ws, vs, rfl, size, inside, rfl⟩
    | _ => cases h
  · rintro ⟨ws, vs, rfl, size, inside, rfl⟩
    exact ofArity_eq_ok.mpr ⟨size, Except.map_eq_ok.mpr ⟨vs, inside, rfl⟩⟩

theorem decode_fields : (Descriptor.record name fields).decode w = .ok v ↔
    ∃ ws vs, w = .array ws ∧ fields.length = ws.length ∧ decodeFields fields ws = .ok vs ∧
      Value.record ⟨name, fields⟩ vs = v := by
  constructor
  · intro h
    cases w with
    | array ws =>
        obtain ⟨size, mapped⟩ := ofArity_eq_ok.mp h
        obtain ⟨vs, inside, rfl⟩ := Except.map_eq_ok.mp mapped
        exact ⟨ws, vs, rfl, size, inside, rfl⟩
    | _ => cases h
  · rintro ⟨ws, vs, rfl, size, inside, rfl⟩
    exact ofArity_eq_ok.mpr ⟨size, Except.map_eq_ok.mpr ⟨vs, inside, rfl⟩⟩

theorem decode_list {element : Descriptor} : (Descriptor.list element).decode w = .ok v ↔
    ∃ ws vs, w = .array ws ∧ mapItems element.decode 0 ws = .ok vs ∧ Value.seq vs = v := by
  constructor
  · intro h
    cases w with
    | array ws =>
        obtain ⟨vs, inside, rfl⟩ := Except.map_eq_ok.mp h
        exact ⟨ws, vs, rfl, inside, rfl⟩
    | _ => cases h
  · rintro ⟨ws, vs, rfl, inside, rfl⟩
    exact Except.map_eq_ok.mpr ⟨vs, inside, rfl⟩

theorem decode_map {key value : Descriptor} : (Descriptor.map key value).decode w = .ok v ↔
    ∃ packed entries, w = .map packed ∧
      mapEntries key.decode value.decode 0 packed = .ok entries ∧ Value.map entries = v := by
  constructor
  · intro h
    cases w with
    | map packed =>
        obtain ⟨entries, inside, rfl⟩ := Except.map_eq_ok.mp h
        exact ⟨packed, entries, rfl, inside, rfl⟩
    | _ => cases h
  · rintro ⟨packed, entries, rfl, inside, rfl⟩
    exact Except.map_eq_ok.mpr ⟨entries, inside, rfl⟩

theorem decode_int {signed : Bool} {width : IntWidth} : (Descriptor.int signed width).decode w = .ok v ↔
    ∃ n : PackedInt, w = .int n ∧ width.holds signed n.val = true ∧
      (if signed then Value.int (.ofInt n.val) else .uint (.ofNat n.val.toNat)) = v := by
  cases w with
  | int n =>
      have unfolded : (Descriptor.int signed width).decode (.int n) =
          if width.holds signed n.val then
            .ok (if signed then .int (.ofInt n.val) else .uint (.ofNat n.val.toNat))
          else .error (.here (.outOfRange n.val signed width)) := rfl
      rw [unfolded]
      cases held : width.holds signed n.val <;> simp [held]
  | _ =>
      constructor
      · intro h
        cases h
      · rintro ⟨n, form, -⟩
        cases form

theorem decode_nullable {inner : Descriptor} : (Descriptor.nullable inner).decode w =
    if w.isNil then .ok .nil else inner.decode w := rfl

theorem decode_string_bin {data : Bytes} : Descriptor.string.decode (.bin data) = .ok v ↔
    ∃ text, data.toText? = some text ∧ Value.string text = v := by
  rw [decode]
  cases data.toText? <;> simp

end

/-- What the descriptor decodes it encodes to something that it decodes to the same value. -/
def Settles (d : Descriptor) : Prop :=
  ∀ w v, d.decode w = .ok v → ∃ again, d.encode v = .ok again ∧ d.decode again = .ok v

theorem decodeItems_settle {ds : List Descriptor} {ws : List Packed} {vs : List Value}
    (h : ∀ d ∈ ds, d.Settles) (size : ds.length = ws.length) {i : Nat} (j k : Nat)
    (decoded : decodeItems i ds ws = .ok vs) :
    ds.length = vs.length ∧ ∃ again, encodeItems j ds vs = .ok again ∧ ds.length = again.length ∧
      decodeItems k ds again = .ok vs := by
  induction ds generalizing ws vs i j k with
  | nil =>
      cases ws with
      | nil =>
          cases decoded
          exact ⟨rfl, [], rfl, rfl, rfl⟩
      | cons w ws => cases size
  | cons d ds ih =>
      cases ws with
      | nil => cases size
      | cons w ws =>
          obtain ⟨v, vs, first, others, rfl⟩ := decodeItems_cons.mp decoded
          obtain ⟨hd, hds⟩ := List.forall_mem_cons.mp h
          obtain ⟨w', packed, back⟩ := hd w v first
          obtain ⟨length, ws', packs, again, backs⟩ := ih hds (Nat.succ.inj size) (j + 1) (k + 1) others
          exact ⟨congrArg Nat.succ length, w' :: ws', encodeItems_cons.mpr ⟨w', ws', packed, packs, rfl⟩,
            congrArg Nat.succ again, decodeItems_cons.mpr ⟨v, vs, back, backs, rfl⟩⟩

theorem tuple_settles {items : List Descriptor} (ih : ∀ d ∈ items, d.Settles) : (tuple items).Settles := by
  intro w v decoded
  obtain ⟨ws, vs, rfl, size, inside, rfl⟩ := decode_tuple.mp decoded
  obtain ⟨length, again, packed, size, back⟩ := decodeItems_settle ih size 0 0 inside
  exact ⟨.array again, encode_tuple.mpr ⟨vs, again, rfl, length, packed, rfl⟩,
    decode_tuple.mpr ⟨again, vs, rfl, size, back, rfl⟩⟩

theorem record_settles {name : String} {fields : List (String × Descriptor)}
    (ih : ∀ d ∈ fields.map Prod.snd, d.Settles) : (record name fields).Settles := by
  intro w v decoded
  obtain ⟨ws, vs, rfl, size, inside, rfl⟩ := decode_fields.mp decoded
  rw [decodeFields_eq_ok 0] at inside
  rw [← List.length_map (f := Prod.snd)] at size
  obtain ⟨length, again, packed, size, back⟩ := decodeItems_settle ih size 0 0 inside
  rw [← encodeFields_eq_ok] at packed
  rw [← decodeFields_eq_ok] at back
  rw [List.length_map] at length size
  exact ⟨.array again, encode_record.mpr ⟨vs, again, .inr rfl, length, packed, rfl⟩,
    decode_fields.mpr ⟨again, vs, rfl, size, back, rfl⟩⟩

theorem int_settles (signed : Bool) (width : IntWidth) : (int signed width).Settles := by
  intro w v decoded
  obtain ⟨n, rfl, held, rfl⟩ := decode_int.mp decoded
  have number : (if signed then Value.int (.ofInt n.val) else .uint (.ofNat n.val.toNat)).integer? =
      some n.val := by
    cases signed with
    | true => exact Value.ofInt_integer n.ge (lt_of_holds held)
    | false => exact Value.ofNat_integer (nonneg_of_holds held) n.lt
  obtain ⟨m, form, same⟩ := Value.toPacked_of_integer number
  rw [← same] at held
  refine ⟨.int m, encode_int.mpr ⟨n.val, number, same ▸ held, form⟩, decode_int.mpr ⟨m, rfl, held, ?_⟩⟩
  rw [same]

theorem nullable_settles {inner : Descriptor} (ih : inner.Settles) : (nullable inner).Settles := by
  intro w v decoded
  rw [decode_nullable] at decoded
  rw [encode_nullable]
  split at decoded
  · cases decoded
    exact ⟨.nil, rfl, rfl⟩
  · obtain ⟨again, packed, back⟩ := ih w v decoded
    by_cases absent : v.isNil = true
    · -- The inner descriptor has given nil for something else.
      cases v with
      | nil => exact ⟨.nil, rfl, rfl⟩
      | _ => cases absent
    · rw [if_neg absent]
      refine ⟨again, packed, ?_⟩
      rw [decode_nullable]
      cases again with
      | nil => exact absurd (isNil_of_encode packed) absent
      | _ => exact back

theorem list_settles {element : Descriptor} (ih : element.Settles) : (list element).Settles := by
  intro w v decoded
  obtain ⟨ws, vs, rfl, inside, rfl⟩ := decode_list.mp decoded
  have each : ∀ v ∈ vs, ∃ again, element.encode v = .ok again ∧ element.decode again = .ok v := by
    intro v hv
    obtain ⟨w, -, decoded⟩ := exists_of_forall₂ (List.Forall₂.flip (mapItems_eq_ok.mp inside)) v hv
    exact ih w v decoded
  obtain ⟨again, packed, back⟩ := mapItems_through (p := id) (q := id) each 0 0
  rw [List.map_id] at packed back
  exact ⟨.array again, encode_list.mpr ⟨vs, again, rfl, packed, rfl⟩,
    decode_list.mpr ⟨again, vs, rfl, back, rfl⟩⟩

theorem map_settles {key value : Descriptor} (hkey : key.Settles) (hvalue : value.Settles) :
    (map key value).Settles := by
  intro w v decoded
  obtain ⟨packed, entries, rfl, inside, rfl⟩ := decode_map.mp decoded
  have each : ∀ e ∈ entries, (∃ again, key.encode e.1 = .ok again ∧ key.decode again = .ok e.1) ∧
      ∃ again, value.encode e.2 = .ok again ∧ value.decode again = .ok e.2 := by
    intro e he
    obtain ⟨p, -, first, second⟩ :=
      exists_of_forall₂ (List.Forall₂.flip (mapEntries_eq_ok.mp inside)) e he
    exact ⟨hkey p.1 e.1 first, hvalue p.2 e.2 second⟩
  obtain ⟨again, packs, back⟩ := mapEntries_through (p := id) (q := id) each 0 0
  have all : (entries.map fun e => (id e.1, id e.2)) = entries := List.map_id entries
  rw [all] at packs back
  exact ⟨.map again, encode_map.mpr ⟨entries, again, rfl, packs, rfl⟩,
    decode_map.mpr ⟨again, entries, rfl, back, rfl⟩⟩

theorem settles (d : Descriptor) : d.Settles := by
  induction d using Descriptor.induction with
  | bool =>
      intro w v decoded
      cases w with
      | bool b =>
          cases decoded
          exact ⟨.bool b, rfl, rfl⟩
      | _ => cases decoded
  | int signed width => exact int_settles signed width
  | float =>
      intro w v decoded
      cases w with
      | float32 x =>
          cases decoded
          exact ⟨.float64 (.ofBinary32 x), rfl, rfl⟩
      | float64 x =>
          cases decoded
          exact ⟨.float64 x, rfl, rfl⟩
      | _ => cases decoded
  | string =>
      intro w v decoded
      cases w with
      | str text =>
          cases decoded
          exact ⟨.str text, rfl, rfl⟩
      | bin data =>
          obtain ⟨text, -, rfl⟩ := decode_string_bin.mp decoded
          exact ⟨.str text, rfl, rfl⟩
      | _ => cases decoded
  | raw =>
      intro w v decoded
      cases w with
      | str text =>
          cases decoded
          exact ⟨.bin (.ofText text), rfl, rfl⟩
      | bin data =>
          cases decoded
          exact ⟨.bin data, rfl, rfl⟩
      | _ => cases decoded
  | tuple items ih => exact tuple_settles ih
  | record name fields ih => exact record_settles ih
  | nullable inner ih => exact nullable_settles ih
  | list element ih => exact list_settles ih
  | map key value hkey hvalue => exact map_settles hkey hvalue
  | object =>
      intro w v decoded
      cases decoded
      exact ⟨_, rfl, congrArg Except.ok (Value.ofPacked_toPacked_ofPacked w)⟩
  | unit =>
      intro w v decoded
      cases decoded
      exact ⟨.nil, rfl, rfl⟩

/-- Whatever a descriptor decodes it encodes again, and decodes that to exactly the same value. -/
theorem decode_stable (d : Descriptor) (w : Packed) (v : Value) (decoded : d.decode w = .ok v) :
    ∃ again, d.encode v = .ok again ∧ d.decode again = .ok v :=
  settles d w v decoded

/-- An extension as an object, an array as a unit that may be absent, half a float that is a NaN, bytes as
text and text as bytes. -/
theorem decode_stable_lenient :
    let lenient : RecordType := ⟨"lenient", [("any", .nullable .object), ("none", .nullable .unit),
      ("number", .nullable (.nullable .float)), ("texts", .tuple [.string, .raw]),
      ("counts", .map (.int true .w8) (.list .unit))]⟩
    let w : Packed := .array [.ext 5 [1, 2], .array [.nil], .float32 ⟨0x7fa00001⟩,
      .array [.bin [0xc3, 0xa9], .str "x"], .map [(.ofInt (-1), .array [.bool true, .nil])]]
    let v : Value := .record lenient [.binary [1, 2], .nil, .float (.ofBinary32 ⟨0x7fa00001⟩),
      .seq [.string "é", .binary [0x78]], .map [(.int (-1), .seq [.nil, .nil])]]
    lenient.descriptor.decode w = .ok v ∧
      ∃ again, lenient.descriptor.encode v = .ok again ∧ lenient.descriptor.decode again = .ok v := by
  intro lenient w v
  have decoded : lenient.descriptor.decode w = .ok v := by rfl
  exact ⟨decoded, decode_stable lenient.descriptor w v decoded⟩

end Descriptor

end PackRpc
