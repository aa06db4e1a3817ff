import PackRpc.Proofs.Static.Acceptance
import PackRpc.Proofs.Static.Recovery

namespace PackRpc

namespace StaticType

section
variable {t k v : StaticType} {types : List StaticType} {x y : StaticValue} {xs ys : List StaticValue}

theorem exists_same_typed (hx : List.Forall₂ (fun t x => t.has x = true) types xs)
    (hy : List.Forall₂ (fun t y => t.has y = true) types ys)
    (same : List.Forall₂ (fun a b => a.same b = true) xs ys) :
    ∀ a ∈ xs, ∃ t ∈ types, ∃ b ∈ ys, t.has a = true ∧ t.has b = true ∧ a.same b = true := by
  induction hx generalizing ys with
  | nil => exact fun a ha => absurd ha List.not_mem_nil
  | cons ha _ ih =>
      cases hy with
      | cons hb hbs =>
          obtain ⟨first, others⟩ := List.forall₂_cons.mp same
          refine List.forall_mem_cons.mpr ⟨⟨_, .head _, _, .head _, ha, hb, first⟩, fun a ha => ?_⟩
          obtain ⟨t, ht, b, hb, found⟩ := ih hbs others a ha
          exact ⟨t, .tail _ ht, b, .tail _ hb, found⟩

theorem isNil_of_same (hx : t.has x = true) (hy : t.has y = true) (same : x.same y = true) :
    x.toValue.isNil = y.toValue.isNil := by
  induction t using StaticType.induction generalizing x y with
  | value =>
      cases x <;> cases hx
      cases y <;> cases hy
      rw [StaticValue.same] at same
      exact Value.isNil_of_same same
  | option inner ih =>
      rcases has_option.mp hx with rfl | ⟨a, rfl, ha⟩ <;> rcases has_option.mp hy with rfl | ⟨b, rfl, hb⟩
      · rfl
      · simp [StaticValue.same] at same
      · simp [StaticValue.same] at same
      · rw [StaticValue.same] at same
        rw [StaticValue.toValue, StaticValue.toValue]
        exact ih ha hb same
  | int signed width =>
      rcases has_int.mp hx with ⟨-, n, rfl, -⟩ | ⟨-, n, rfl, -⟩ <;>
        rcases has_int.mp hy with ⟨-, m, rfl, -⟩ | ⟨-, m, rfl, -⟩ <;> rfl
  | bool | float32 | float64 | text | bytes | unit =>
      cases x <;> cases hx
      cases y <;> cases hy
      simp only [StaticValue.toValue, Value.isNil]
  | list element =>
      obtain ⟨as, rfl, -⟩ := has_list.mp hx
      obtain ⟨bs, rfl, -⟩ := has_list.mp hy
      rfl
  | orderedMap k v =>
      obtain ⟨as, rfl, -⟩ := has_orderedMap.mp hx
      obtain ⟨bs, rfl, -⟩ := has_orderedMap.mp hy
      rfl
  | hashMap k v =>
      obtain ⟨as, rfl, -⟩ := has_hashMap.mp hx
      obtain ⟨bs, rfl, -⟩ := has_hashMap.mp hy
      rfl
  | tuple items =>
      obtain ⟨as, rfl, -⟩ := has_tuple.mp hx
      obtain ⟨bs, rfl, -⟩ := has_tuple.mp hy
      rfl
  | record name fields =>
      obtain ⟨as, rfl, -⟩ := has_record.mp hx
      obtain ⟨bs, rfl, -⟩ := has_record.mp hy
      rfl

end

/-- If a value of the type equals one in which nothing present is written as nil, nor is anything so in
it. -/
def Reflects (t : StaticType) : Prop :=
  ∀ x y, t.has x = true → t.has y = true → x.same y = true → y.isFull = true → x.isFull = true

theorem option_reflects {inner : StaticType} (ih : inner.Reflects) : (option inner).Reflects := by
  intro x y hx hy same full
  rcases has_option.mp hx with rfl | ⟨a, rfl, ha⟩
  · rfl
  · rcases has_option.mp hy with rfl | ⟨b, rfl, hb⟩
    · simp [StaticValue.same] at same
    · rw [StaticValue.same] at same
      obtain ⟨present, inside⟩ := StaticValue.isFull_present.mp full
      exact StaticValue.isFull_present.mpr
        ⟨(isNil_of_same ha hb same).trans present, ih a b ha hb same inside⟩

theorem list_reflects {element : StaticType} (ih : element.Reflects) : (list element).Reflects := by
  intro x y hx hy same full
  obtain ⟨as, rfl, has⟩ := has_list.mp hx
  obtain ⟨bs, rfl, hbs⟩ := has_list.mp hy
  rw [StaticValue.same, StaticValue.sameItems_iff] at same
  have inside := (StaticValue.all_list.mp full).2
  refine StaticValue.all_list.mpr ⟨rfl, fun a ha => ?_⟩
  obtain ⟨b, hb, same⟩ := exists_of_forall₂ same a ha
  exact ih a b (has a ha) (hbs b hb) same (inside b hb)

theorem orderedMap_reflects {k v : StaticType} (hk : k.Reflects) (hv : v.Reflects) :
    (orderedMap k v).Reflects := by
  intro x y hx hy same full
  obtain ⟨as, rfl, has⟩ := has_orderedMap.mp hx
  obtain ⟨bs, rfl, hbs⟩ := has_orderedMap.mp hy
  rw [StaticValue.same, StaticValue.sameEntries_iff] at same
  have inside := (StaticValue.all_orderedMap.mp full).2
  refine StaticValue.all_orderedMap.mpr ⟨rfl, fun a ha => ?_⟩
  obtain ⟨b, hb, key, value⟩ := exists_of_forall₂ same a ha
  exact ⟨hk a.1 b.1 (has a ha).1 (hbs b hb).1 key (inside b hb).1,
    hv a.2 b.2 (has a ha).2 (hbs b hb).2 value (inside b hb).2⟩

theorem hashMap_reflects {k v : StaticType} (keys : k.isKey = true) (hv : v.Reflects) :
    (hashMap k v).Reflects := by
  intro x y hx hy same full
  obtain ⟨as, rfl, has⟩ := has_hashMap.mp hx
  obtain ⟨bs, rfl, hbs⟩ := has_hashMap.mp hy
  rw [StaticValue.same, Bool.and_eq_true] at same
  have inside := (StaticValue.all_hashMap.mp full).2
  refine StaticValue.all_hashMap.mpr ⟨rfl, fun a ha => ?_⟩
  obtain ⟨b, found, value⟩ := StaticValue.agree_iff.mp same.2 a ha
  have hb := List.mem_of_find?_eq_some found
  have key : StaticValue.order a.1 b.1 = .eq := by
    have matched := List.find?_some found
    exact beq_iff_eq.mp matched
  -- Keys are looked up by their order, which tells all keys of the type apart.
  have equal : a.1 = b.1 := StaticValue.separates_of_isKey keys a.1 b.1 (has a ha).1 (hbs b hb).1 key
  exact ⟨equal ▸ (inside b hb).1, hv a.2 b.2 (has a ha).2 (hbs b hb).2 value (inside b hb).2⟩

theorem tuple_reflects {items : List StaticType} (ih : ∀ t ∈ items, t.Reflects) :
    (tuple items).Reflects := by
  intro x y hx hy same full
  obtain ⟨as, rfl, has⟩ := has_tuple.mp hx
  obtain ⟨bs, rfl, hbs⟩ := has_tuple.mp hy
  rw [StaticValue.same, StaticValue.sameItems_iff] at same
  have inside := (StaticValue.all_tuple.mp full).2
  refine StaticValue.all_tuple.mpr ⟨rfl, fun a ha => ?_⟩
  obtain ⟨t, ht, b, hb, ha, typed, same⟩ := exists_same_typed has hbs same a ha
  exact ih t ht a b ha typed same (inside b hb)

theorem record_reflects {name : String} {fields : List (String × StaticType)}
    (ih : ∀ t ∈ fields.map Prod.snd, t.Reflects) : (record name fields).Reflects := by
  intro x y hx hy same full
  obtain ⟨as, rfl, has⟩ := has_record.mp hx
  obtain ⟨bs, rfl, hbs⟩ := has_record.mp hy
  rw [StaticValue.same, Bool.and_eq_true, StaticValue.sameItems_iff] at same
  have inside := (StaticValue.all_record.mp full).2
  refine StaticValue.all_record.mpr ⟨rfl, fun a ha => ?_⟩
  obtain ⟨t, ht, b, hb, ha, typed, same⟩ := exists_same_typed has hbs same.2 a ha
  exact ih t ht a b ha typed same (inside b hb)

theorem reflects {t : StaticType} (valid : t.isValid = true) : t.Reflects := by
  induction t using StaticType.induction with
  | bool | int | float32 | float64 | text | bytes | unit | value =>
      intro x _ hx _ _ _
      cases x <;> first | rfl | simp [has] at hx
  | option inner ih => exact option_reflects (ih (all_inner (.inl valid)))
  | list element ih => exact list_reflects (ih (all_inner (.inr valid)))
  | orderedMap k v hk hv =>
      obtain ⟨keys, values⟩ := all_map (.inl valid)
      exact orderedMap_reflects (hk keys) (hv values)
  | hashMap k v _ hv =>
      obtain ⟨-, values⟩ := all_map (.inr valid)
      exact hashMap_reflects (isKey_of_isValid (.inr valid)) (hv values)
  | tuple items ih => exact tuple_reflects fun t ht => ih t ht (all_items valid t ht)
  | record name fields ih => exact record_reflects fun t ht => ih t ht (all_fields valid t ht)

/-- A value of a static type is always encoded and decoded again, and it comes back equal exactly if
nothing in it is present and written as nil. -/
theorem encode_returns_iff (t : StaticType) (x : StaticValue) (valid : t.isValid = true)
    (typed : t.has x = true) (ordered : x.isOrdered = true) (numbers : x.nanFree = true) :
    ∃ w y, t.encode x = .ok w ∧ t.decode w = .ok y ∧ (x.same y = true ↔ x.isFull = true) := by
  obtain ⟨w, packed, back⟩ := carries t x typed
  obtain ⟨y, taken, takes⟩ := accepts t w x.normal.toValue back
  refine ⟨w, y, packed, ?_, fun same => ?_, fun full => ?_⟩
  · rw [decode, back]
    exact taken
  · -- What comes back is full, and so is what it equals.
    exact reflects valid x y typed takes.typed same takes.full
  · have intact : x.Intact := ⟨numbers, ordered, full⟩
    have same : y = x.normal := Except.ok.inj (taken.symm.trans (recovers valid x typed intact))
    rw [same]
    exact same_normal valid typed intact

/-- A record with maps of both kinds, keys that may be absent, half a float and a value of any shape. -/
theorem encode_returns_iff_record :
    let t : StaticType := .record "reading" [("ratio", .float32), ("any", .option .value),
      ("levels", .orderedMap .text (.list (.int true .w8))),
      ("counts", .hashMap (.option (.int false .w64)) (.tuple [.bool, .unit]))]
    let x : StaticValue := .record ⟨"reading", fieldDescriptors [("ratio", .float32),
        ("any", .option .value), ("levels", .orderedMap .text (.list (.int true .w8))),
        ("counts", .hashMap (.option (.int false .w64)) (.tuple [.bool, .unit]))]⟩
      [.float32 ⟨0x3e200000⟩, .present (.value (.map [(.int (-1), .nil)])),
        .orderedMap [(.text "a", .list [.int (-128), .int 7]), (.text "b", .list [])],
        .hashMap [(.present (.uint 3), .tuple [.bool true, .unit]), (.absent, .tuple [.bool false, .unit])]]
    t.isValid = true ∧ t.has x = true ∧ x.isOrdered = true ∧ x.nanFree = true ∧ x.isFull = true ∧
      ∃ w y, t.encode x = .ok w ∧ t.decode w = .ok y ∧ x.same y = true := by
  intro t x
  have valid : t.isValid = true := by rfl
  have typed : t.has x = true := by rfl
  have ordered : x.isOrdered = true := by rfl
  have numbers : x.nanFree = true := by rfl
  have full : x.isFull = true := by rfl
  obtain ⟨w, y, packed, back, same⟩ := encode_returns_iff t x valid typed ordered numbers
  exact ⟨valid, typed, ordered, numbers, full, w, y, packed, back, same.mpr full⟩

/-- A unit that is present comes back absent. -/
theorem present_unit_lost : ¬ ∀ (t : StaticType) (x : StaticValue), t.isValid = true → t.has x = true →
    x.isOrdered = true → x.nanFree = true →
    ∃ w y, t.encode x = .ok w ∧ t.decode w = .ok y ∧ x.same y = true := by
  intro returns
  obtain ⟨w, y, packed, back, same⟩ := returns (.option .unit) (.present .unit) rfl rfl rfl rfl
  cases packed
  cases back
  simp [StaticValue.same] at same

end StaticType

end PackRpc
