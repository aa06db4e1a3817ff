import PackRpc.Proofs.Descriptor.Stability
import PackRpc.Proofs.Static.Typing

namespace PackRpc

namespace StaticValue

/-- What comes back is nil if it was nil. -/
theorem isNil_normal (x : StaticValue) : x.normal.toValue.isNil = x.toValue.isNil := by
  induction x using StaticValue.induction with
  | value v => exact (Value.isNil_ofPacked v.toPacked).trans (Value.isNil_toPacked v)
  | present x ih => exact ih
  | _ => rfl

end StaticValue

namespace StaticType

section
variable {i : Nat} {name : String} {t : StaticType} {ts : List StaticType}
  {fields : List (String × StaticType)} {v : Value} {vs : List Value} {xs : List StaticValue}

theorem descriptors_eq : descriptors ts = ts.map descriptor := by
  induction ts with
  | nil => rfl
  | cons t ts ih => rw [descriptors, ih, List.map_cons]

theorem fieldDescriptors_types :
    (fieldDescriptors fields).map Prod.snd = (fields.map Prod.snd).map descriptor := by
  induction fields with
  | nil => rfl
  | cons field fields ih => simp [fieldDescriptors, ih]

theorem fieldDescriptors_length : (fieldDescriptors fields).length = fields.length := by
  have same := congrArg List.length (@fieldDescriptors_types fields)
  simpa using same

theorem ofValue_float32 (x : Binary64) : float32.ofValue (.float x) = .ok (.float32 x.toBinary32) := rfl

theorem ofValue_option : (option t).ofValue v =
    if v.isNil then .ok .absent else (t.ofValue v).map StaticValue.present := by
  rw [ofValue]

theorem ofValues_cons {r : List StaticValue} : ofValues i (t :: ts) (v :: vs) = .ok r ↔
    ∃ x xs, t.ofValue v = .ok x ∧ ofValues (i + 1) ts vs = .ok xs ∧ x :: xs = r := by
  rw [ofValues]
  cases t.ofValue v <;> cases ofValues (i + 1) ts vs <;> simp

theorem ofFields_cons {r : List StaticValue} : ofFields ((name, t) :: fields) (v :: vs) = .ok r ↔
    ∃ x xs, t.ofValue v = .ok x ∧ ofFields fields vs = .ok xs ∧ x :: xs = r := by
  rw [ofFields]
  cases t.ofValue v <;> cases ofFields fields vs <;> simp

theorem ofFields_eq_ok (i : Nat) : ofFields fields vs = .ok xs ↔
    ofValues i (fields.map Prod.snd) vs = .ok xs := by
  induction fields generalizing i vs xs with
  | nil => rfl
  | cons field fields ih =>
      cases vs with
      | nil => rfl
      | cons v vs =>
          rw [ofFields_cons, List.map_cons, ofValues_cons]
          simp only [ih (i + 1)]

end

/-- The values of the type can be encoded, and the descriptor reads them in their normal form. -/
def Carries (t : StaticType) : Prop :=
  ∀ x, t.has x = true → ∃ w, t.descriptor.encode x.toValue = .ok w ∧
    t.descriptor.decode w = .ok x.normal.toValue

theorem items_carried {ts : List StaticType} {xs : List StaticValue} (h : ∀ t ∈ ts, t.Carries)
    (typed : List.Forall₂ (fun t x => t.has x = true) ts xs) (i j : Nat) :
    ∃ ws, Descriptor.encodeItems i (ts.map descriptor) (xs.map StaticValue.toValue) = .ok ws ∧
      ws.length = ts.length ∧ Descriptor.decodeItems j (ts.map descriptor) ws =
        .ok (xs.map fun x => x.normal.toValue) := by
  induction typed generalizing i j with
  | nil => exact ⟨[], rfl, rfl, rfl⟩
  | cons first _ ih =>
      obtain ⟨ht, hts⟩ := List.forall_mem_cons.mp h
      obtain ⟨w, packed, back⟩ := ht _ first
      obtain ⟨ws, packs, size, backs⟩ := ih hts (i + 1) (j + 1)
      exact ⟨w :: ws, Descriptor.encodeItems_cons.mpr ⟨w, ws, packed, packs, rfl⟩, congrArg Nat.succ size,
        Descriptor.decodeItems_cons.mpr ⟨_, _, back, backs, rfl⟩⟩

theorem option_carries {inner : StaticType} (ih : inner.Carries) : (option inner).Carries := by
  intro x typed
  rcases has_option.mp typed with rfl | ⟨y, rfl, inside⟩
  · exact ⟨.nil, rfl, rfl⟩
  · obtain ⟨w, packed, back⟩ := ih y inside
    rw [descriptor, StaticValue.toValue, Descriptor.encode_nullable, StaticValue.normal, StaticValue.toValue]
    by_cases absent : y.toValue.isNil = true
    · -- What is present and nil is encoded and decoded by the option, not by the inner type.
      rw [if_pos absent]
      have nil : y.normal.toValue.isNil = true := by rw [StaticValue.isNil_normal, absent]
      refine ⟨.nil, rfl, ?_⟩
      cases same : y.normal.toValue with
      | nil => rfl
      | _ =>
          rw [same] at nil
          cases nil
    · rw [if_neg absent]
      refine ⟨w, packed, ?_⟩
      rw [Descriptor.decode_nullable]
      cases w with
      | nil => exact absurd (Descriptor.isNil_of_encode packed) absent
      | _ => exact back

theorem list_carries {element : StaticType} (ih : element.Carries) : (list element).Carries := by
  intro x typed
  obtain ⟨xs, rfl, inside⟩ := has_list.mp typed
  obtain ⟨ws, packed, back⟩ := mapItems_through (fun y hy => ih y (inside y hy)) 0 0
  rw [descriptor, StaticValue.toValue, StaticValue.toValues_eq, StaticValue.normal, StaticValue.toValue,
    StaticValue.toValues_eq, StaticValue.normalItems_eq, List.map_map]
  exact ⟨.array ws, Descriptor.encode_list.mpr ⟨_, ws, rfl, packed, rfl⟩,
    Descriptor.decode_list.mpr ⟨ws, _, rfl, back, rfl⟩⟩

theorem entries_carried {k v : StaticType} (hk : k.Carries) (hv : v.Carries)
    {entries : List (StaticValue × StaticValue)}
    (typed : ∀ e ∈ entries, k.has e.1 = true ∧ v.has e.2 = true) :
    ∃ w, (Descriptor.map k.descriptor v.descriptor).encode (.map (StaticValue.toValueEntries entries)) =
        .ok w ∧ (Descriptor.map k.descriptor v.descriptor).decode w =
        .ok (.map (StaticValue.toValueEntries (StaticValue.normalEntries entries))) := by
  obtain ⟨packed, packs, backs⟩ :=
    mapEntries_through (p := StaticValue.toValue) (q := fun x => x.normal.toValue)
      (fun e he => ⟨hk e.1 (typed e he).1, hv e.2 (typed e he).2⟩) 0 0
  rw [StaticValue.toValueEntries_eq, StaticValue.toValueEntries_eq, StaticValue.normalEntries_eq,
    List.map_map]
  exact ⟨.map packed, Descriptor.encode_map.mpr ⟨_, packed, rfl, packs, rfl⟩,
    Descriptor.decode_map.mpr ⟨packed, _, rfl, backs, rfl⟩⟩

theorem tuple_carries {items : List StaticType} (ih : ∀ t ∈ items, t.Carries) : (tuple items).Carries := by
  intro x typed
  obtain ⟨xs, rfl, inside⟩ := has_tuple.mp typed
  obtain ⟨ws, packed, size, back⟩ := items_carried ih inside 0 0
  rw [descriptor, descriptors_eq, StaticValue.toValue, StaticValue.toValues_eq, StaticValue.normal,
    StaticValue.toValue, StaticValue.toValues_eq, StaticValue.normalItems_eq, List.map_map]
  have length : (items.map descriptor).length = (xs.map StaticValue.toValue).length := by
    rw [List.length_map, List.length_map, inside.length_eq]
  exact ⟨.array ws, Descriptor.encode_tuple.mpr ⟨_, ws, rfl, length, packed, rfl⟩,
    Descriptor.decode_tuple.mpr ⟨ws, _, rfl, by rw [List.length_map, size], back, rfl⟩⟩

theorem record_carries {name : String} {fields : List (String × StaticType)}
    (ih : ∀ t ∈ fields.map Prod.snd, t.Carries) : (record name fields).Carries := by
  intro x typed
  obtain ⟨xs, rfl, inside⟩ := has_record.mp typed
  obtain ⟨ws, packed, size, back⟩ := items_carried ih inside 0 0
  rw [← fieldDescriptors_types, ← Descriptor.encodeFields_eq_ok] at packed
  rw [← fieldDescriptors_types, ← Descriptor.decodeFields_eq_ok] at back
  rw [List.length_map] at size
  rw [descriptor, StaticValue.toValue, StaticValue.toValues_eq, StaticValue.normal, StaticValue.toValue,
    StaticValue.toValues_eq, StaticValue.normalItems_eq, List.map_map]
  have length : (fieldDescriptors fields).length = (xs.map StaticValue.toValue).length := by
    rw [fieldDescriptors_length, List.length_map, ← inside.length_eq, List.length_map]
  exact ⟨.array ws, Descriptor.encode_record.mpr ⟨_, ws, .inr rfl, length, packed, rfl⟩,
    Descriptor.decode_fields.mpr ⟨ws, _, rfl, by rw [fieldDescriptors_length, size], back, rfl⟩⟩

theorem int_carries (signed : Bool) (width : IntWidth) : (int signed width).Carries := by
  intro x typed
  rcases has_int.mp typed with ⟨rfl, n, rfl, held⟩ | ⟨rfl, n, rfl, held⟩
  · refine ⟨.int (.ofInt64 n), Descriptor.encode_int.mpr ⟨n.toInt, rfl, held, rfl⟩,
      Descriptor.decode_int.mpr ⟨.ofInt64 n, rfl, held, ?_⟩⟩
    rw [if_pos rfl]
    exact congrArg Value.int (Int64.ofInt_toInt n)
  · refine ⟨.int (.ofUInt64 n), Descriptor.encode_int.mpr ⟨n.toNat, rfl, held, rfl⟩,
      Descriptor.decode_int.mpr ⟨.ofUInt64 n, rfl, held, ?_⟩⟩
    rw [if_neg Bool.false_ne_true]
    exact congrArg Value.uint (UInt64.ofNat_toNat)

theorem carries (t : StaticType) : t.Carries := by
  induction t using StaticType.induction with
  | bool | float32 | float64 | text | bytes | unit | value =>
      intro x typed
      cases x <;> cases typed
      exact ⟨_, rfl, rfl⟩
  | int signed width => exact int_carries signed width
  | option inner ih => exact option_carries ih
  | list element ih => exact list_carries ih
  | orderedMap k v hk hv =>
      intro x typed
      obtain ⟨entries, rfl, inside⟩ := has_orderedMap.mp typed
      exact entries_carried hk hv inside
  | hashMap k v hk hv =>
      intro x typed
      obtain ⟨entries, rfl, inside⟩ := has_hashMap.mp typed
      exact entries_carried hk hv inside
  | tuple items ih => exact tuple_carries ih
  | record name fields ih => exact record_carries ih

end StaticType

end PackRpc
