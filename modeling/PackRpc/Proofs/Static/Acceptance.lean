import PackRpc.Proofs.Static.Carriage
import PackRpc.Proofs.Static.Maps

namespace PackRpc

namespace StaticType

/-- What a value becomes in the type: a value of the type with nothing in it that could be taken for
absent, and nil itself only for nil. -/
structure Takes (t : StaticType) (v : Value) (x : StaticValue) : Prop where
  typed : t.has x = true
  full : x.isFull = true
  nil : x.toValue.isNil = v.isNil

/-- What the descriptor decodes becomes a value of the type. -/
def Accepts (t : StaticType) : Prop :=
  ∀ w v, t.descriptor.decode w = .ok v → ∃ x, t.ofValue v = .ok x ∧ t.Takes v x

theorem int_accepts (signed : Bool) (width : IntWidth) : (int signed width).Accepts := by
  intro w v decoded
  obtain ⟨n, rfl, held, rfl⟩ := Descriptor.decode_int.mp decoded
  cases signed with
  | true =>
      have number := Value.ofInt_integer n.ge (Descriptor.lt_of_holds held)
      have same : (Int64.ofInt n.val).toInt = n.val := Option.some.inj number
      have typed : width.holds true (Int64.ofInt n.val).toInt = true := by rwa [same]
      refine ⟨.int (.ofInt n.val), ?_, has_int.mpr (.inl ⟨rfl, _, rfl, typed⟩), rfl, rfl⟩
      rw [if_pos rfl, ofValue, number]
      exact if_pos held
  | false =>
      have number := Value.ofNat_integer (Descriptor.nonneg_of_holds held) n.lt
      have same : ((UInt64.ofNat n.val.toNat).toNat : Int) = n.val := Option.some.inj number
      have typed : width.holds false (UInt64.ofNat n.val.toNat).toNat = true := by rwa [same]
      refine ⟨.uint (.ofNat n.val.toNat), ?_, has_int.mpr (.inr ⟨rfl, _, rfl, typed⟩), rfl, rfl⟩
      rw [if_neg Bool.false_ne_true, ofValue, number]
      exact if_pos held

theorem option_accepts {inner : StaticType} (ih : inner.Accepts) : (option inner).Accepts := by
  intro w v decoded
  rw [descriptor, Descriptor.decode_nullable] at decoded
  rw [ofValue_option]
  by_cases absent : v.isNil = true
  · -- Nil is absent, whatever the inner type would take it for.
    rw [if_pos absent]
    exact ⟨.absent, rfl, has_option.mpr (.inl rfl), rfl, absent.symm⟩
  · split at decoded
    · cases decoded
      exact absurd rfl absent
    · obtain ⟨x, taken, takes⟩ := ih w v decoded
      have present : x.toValue.isNil = false := takes.nil.trans (Bool.not_eq_true _ ▸ absent)
      rw [if_neg absent, taken]
      exact ⟨.present x, rfl, has_option.mpr (.inr ⟨x, rfl, takes.typed⟩),
        StaticValue.isFull_present.mpr ⟨present, takes.full⟩, takes.nil⟩

theorem list_accepts {element : StaticType} (ih : element.Accepts) : (list element).Accepts := by
  intro w v decoded
  obtain ⟨ws, vs, rfl, inside, rfl⟩ := Descriptor.decode_list.mp decoded
  have each : ∀ w ∈ ws, ∀ v, element.descriptor.decode w = .ok v →
      ∃ x, element.ofValue v = .ok x ∧ element.has x = true ∧ x.isFull = true := by
    intro w _ v decoded
    obtain ⟨x, taken, takes⟩ := ih w v decoded
    exact ⟨x, taken, takes.typed, takes.full⟩
  obtain ⟨xs, taken, related⟩ := mapItems_survive each 0 inside
  have good : ∀ x ∈ xs, element.has x = true ∧ x.isFull = true := by
    intro x hx
    obtain ⟨w, -, good⟩ := exists_of_forall₂ related x hx
    exact good
  exact ⟨.list xs, Except.map_eq_ok.mpr ⟨xs, taken, rfl⟩,
    has_list.mpr ⟨xs, rfl, fun x hx => (good x hx).1⟩,
    StaticValue.all_list.mpr ⟨rfl, fun x hx => (good x hx).2⟩, rfl⟩

theorem entries_accepted {k v : StaticType} (hk : k.Accepts) (hv : v.Accepts)
    {packed : List (Packed × Packed)} {entries : List (Value × Value)}
    (decoded : mapEntries k.descriptor.decode v.descriptor.decode 0 packed = .ok entries) :
    ∃ es, mapEntries k.ofValue v.ofValue 0 entries = .ok es ∧
      ∀ e ∈ es, (k.has e.1 = true ∧ e.1.isFull = true) ∧ (v.has e.2 = true ∧ e.2.isFull = true) := by
  have each : ∀ {t : StaticType}, t.Accepts → ∀ w u, t.descriptor.decode w = .ok u →
      ∃ x, t.ofValue u = .ok x ∧ t.has x = true ∧ x.isFull = true := by
    intro t accepts w u decoded
    obtain ⟨x, taken, takes⟩ := accepts w u decoded
    exact ⟨x, taken, takes.typed, takes.full⟩
  obtain ⟨es, taken, related⟩ :=
    mapEntries_survive (fun x _ => k.has x = true ∧ x.isFull = true)
      (fun x _ => v.has x = true ∧ x.isFull = true) (fun e _ => ⟨each hk e.1, each hv e.2⟩) 0 decoded
  refine ⟨es, taken, fun e he => ?_⟩
  obtain ⟨w, -, good⟩ := exists_of_forall₂ related e he
  exact good

theorem orderedMap_accepts {k v : StaticType} (hk : k.Accepts) (hv : v.Accepts) :
    (orderedMap k v).Accepts := by
  intro w u decoded
  obtain ⟨packed, entries, rfl, inside, rfl⟩ := Descriptor.decode_map.mp decoded
  obtain ⟨es, taken, good⟩ := entries_accepted hk hv inside
  have kept := fun e (he : e ∈ (OrderedMap.ofList es).entries) => good e (OrderedMap.mem_ofList he)
  exact ⟨_, Except.map_eq_ok.mpr ⟨es, taken, rfl⟩,
    has_orderedMap.mpr ⟨_, rfl, fun e he => ⟨(kept e he).1.1, (kept e he).2.1⟩⟩,
    StaticValue.all_orderedMap.mpr ⟨rfl, fun e he => ⟨(kept e he).1.2, (kept e he).2.2⟩⟩, rfl⟩

theorem hashMap_accepts {k v : StaticType} (hk : k.Accepts) (hv : v.Accepts) : (hashMap k v).Accepts := by
  intro w u decoded
  obtain ⟨packed, entries, rfl, inside, rfl⟩ := Descriptor.decode_map.mp decoded
  obtain ⟨es, taken, good⟩ := entries_accepted hk hv inside
  have kept := StaticValue.collect_forall (P := fun x => k.has x = true ∧ x.isFull = true)
    (Q := fun x => v.has x = true ∧ x.isFull = true) good
  exact ⟨_, Except.map_eq_ok.mpr ⟨es, taken, rfl⟩,
    has_hashMap.mpr ⟨_, rfl, fun e he => ⟨(kept e he).1.1, (kept e he).2.1⟩⟩,
    StaticValue.all_hashMap.mpr ⟨rfl, fun e he => ⟨(kept e he).1.2, (kept e he).2.2⟩⟩, rfl⟩

theorem items_accepted {ts : List StaticType} {ws : List Packed} {vs : List Value}
    (h : ∀ t ∈ ts, t.Accepts) (size : ts.length = ws.length) {i : Nat} (j : Nat)
    (decoded : Descriptor.decodeItems i (ts.map descriptor) ws = .ok vs) :
    ts.length = vs.length ∧ ∃ xs, ofValues j ts vs = .ok xs ∧
      List.Forall₂ (fun t x => t.has x = true) ts xs ∧ ∀ x ∈ xs, x.isFull = true := by
  induction ts generalizing ws vs i j with
  | nil =>
      cases ws with
      | nil =>
          cases decoded
          exact ⟨rfl, [], rfl, .nil, List.forall_mem_nil _⟩
      | cons w ws => cases size
  | cons t ts ih =>
      cases ws with
      | nil => cases size
      | cons w ws =>
          obtain ⟨v, vs, first, others, rfl⟩ := Descriptor.decodeItems_cons.mp decoded
          obtain ⟨ht, hts⟩ := List.forall_mem_cons.mp h
          obtain ⟨x, taken, takes⟩ := ht w v first
          obtain ⟨length, xs, takens, typed, full⟩ := ih hts (Nat.succ.inj size) (j + 1) others
          exact ⟨congrArg Nat.succ length, x :: xs, ofValues_cons.mpr ⟨x, xs, taken, takens, rfl⟩,
            .cons takes.typed typed, List.forall_mem_cons.mpr ⟨takes.full, full⟩⟩

theorem tuple_accepts {items : List StaticType} (ih : ∀ t ∈ items, t.Accepts) : (tuple items).Accepts := by
  intro w v decoded
  rw [descriptor, descriptors_eq] at decoded
  obtain ⟨ws, vs, rfl, size, inside, rfl⟩ := Descriptor.decode_tuple.mp decoded
  rw [List.length_map] at size
  obtain ⟨length, xs, taken, typed, full⟩ := items_accepted ih size 0 inside
  exact ⟨.tuple xs, Descriptor.ofArity_eq_ok.mpr ⟨length, Except.map_eq_ok.mpr ⟨xs, taken, rfl⟩⟩,
    has_tuple.mpr ⟨xs, rfl, typed⟩, StaticValue.all_tuple.mpr ⟨rfl, full⟩, rfl⟩

theorem record_accepts {name : String} {fields : List (String × StaticType)}
    (ih : ∀ t ∈ fields.map Prod.snd, t.Accepts) : (record name fields).Accepts := by
  intro w v decoded
  obtain ⟨ws, vs, rfl, size, inside, rfl⟩ := Descriptor.decode_fields.mp decoded
  rw [Descriptor.decodeFields_eq_ok 0, fieldDescriptors_types] at inside
  rw [fieldDescriptors_length, ← List.length_map (f := Prod.snd)] at size
  obtain ⟨length, xs, taken, typed, full⟩ := items_accepted ih size 0 inside
  rw [← ofFields_eq_ok] at taken
  rw [List.length_map] at length
  exact ⟨_, Descriptor.ofArity_eq_ok.mpr ⟨length, Except.map_eq_ok.mpr ⟨xs, taken, rfl⟩⟩,
    has_record.mpr ⟨xs, rfl, typed⟩, StaticValue.all_record.mpr ⟨rfl, full⟩, rfl⟩

theorem accepts (t : StaticType) : t.Accepts := by
  induction t using StaticType.induction with
  | bool =>
      intro w v decoded
      cases w with
      | bool b =>
          cases decoded
          exact ⟨.bool b, rfl, rfl, rfl, rfl⟩
      | _ => cases decoded
  | float32 =>
      intro w v decoded
      cases w with
      | float32 | float64 =>
          cases decoded
          exact ⟨_, ofValue_float32 _, rfl, rfl, by simp only [StaticValue.toValue, Value.isNil]⟩
      | _ => cases decoded
  | float64 =>
      intro w v decoded
      cases w with
      | float32 | float64 =>
          cases decoded
          exact ⟨.float64 _, rfl, rfl, rfl, rfl⟩
      | _ => cases decoded
  | text =>
      intro w v decoded
      cases w with
      | str text =>
          cases decoded
          exact ⟨.text text, rfl, rfl, rfl, rfl⟩
      | bin data =>
          obtain ⟨text, -, rfl⟩ := Descriptor.decode_string_bin.mp decoded
          exact ⟨.text text, rfl, rfl, rfl, rfl⟩
      | _ => cases decoded
  | bytes =>
      intro w v decoded
      cases w with
      | str | bin =>
          cases decoded
          exact ⟨.bytes _, rfl, rfl, rfl, rfl⟩
      | _ => cases decoded
  | int signed width => exact int_accepts signed width
  | unit =>
      intro w v decoded
      cases decoded
      exact ⟨.unit, rfl, rfl, rfl, rfl⟩
  | value =>
      intro w v decoded
      exact ⟨.value v, rfl, rfl, rfl, rfl⟩
  | option inner ih => exact option_accepts ih
  | list element ih => exact list_accepts ih
  | orderedMap k v hk hv => exact orderedMap_accepts hk hv
  | hashMap k v hk hv => exact hashMap_accepts hk hv
  | tuple items ih => exact tuple_accepts ih
  | record name fields ih => exact record_accepts ih

end StaticType

end PackRpc
