import PackRpc.Proofs.Binary.Exact
import PackRpc.Proofs.Static.Carriage
import PackRpc.Proofs.Static.Maps

namespace PackRpc

theorem mapItems_eq_map {α β γ C : Type} {f : β → Except (Located C) γ} {p : α → β} {q : α → γ}
    {as : List α} (h : ∀ a ∈ as, f (p a) = .ok (q a)) (i : Nat) :
    mapItems f i (as.map p) = .ok (as.map q) := by
  rw [mapItems_eq_ok, List.forall₂_map_left_iff, List.forall₂_map_right_iff, List.forall₂_same]
  exact h

theorem mapEntries_eq_map {α β γ C : Type} {f f' : β → Except (Located C) γ} {p : α → β} {q : α → γ}
    {entries : List (α × α)} (h : ∀ e ∈ entries, f (p e.1) = .ok (q e.1) ∧ f' (p e.2) = .ok (q e.2))
    (i : Nat) :
    mapEntries f f' i (entries.map fun e => (p e.1, p e.2)) = .ok (entries.map fun e => (q e.1, q e.2)) := by
  rw [mapEntries_eq_ok, List.forall₂_map_left_iff, List.forall₂_map_right_iff, List.forall₂_same]
  exact h

namespace StaticValue

/-- A value that comes back as it was. -/
structure Intact (x : StaticValue) : Prop where
  numbers : x.nanFree = true
  ordered : x.isOrdered = true
  full : x.isFull = true

namespace Intact

variable {x : StaticValue} {items : List StaticValue} {entries : List (StaticValue × StaticValue)}

theorem part {y : StaticValue} (h : x.Intact) (part : ∀ p, x.all p = true → y.all p = true) : y.Intact :=
  ⟨part _ h.numbers, part _ h.ordered, part _ h.full⟩

theorem ofPresent (h : (StaticValue.present x).Intact) : x.Intact :=
  h.part fun _ h => (all_present.mp h).2

theorem ofList (h : (StaticValue.list items).Intact) : ∀ x ∈ items, x.Intact := fun x hx =>
  h.part fun _ h => (all_list.mp h).2 x hx

theorem ofTuple (h : (StaticValue.tuple items).Intact) : ∀ x ∈ items, x.Intact := fun x hx =>
  h.part fun _ h => (all_tuple.mp h).2 x hx

theorem ofRecord {type : RecordType} (h : (StaticValue.record type items).Intact) :
    ∀ x ∈ items, x.Intact := fun x hx =>
  h.part fun _ h => (all_record.mp h).2 x hx

theorem ofOrderedMap (h : (StaticValue.orderedMap entries).Intact) :
    ∀ e ∈ entries, e.1.Intact ∧ e.2.Intact := fun e he =>
  ⟨h.part fun _ h => ((all_orderedMap.mp h).2 e he).1, h.part fun _ h => ((all_orderedMap.mp h).2 e he).2⟩

theorem ofHashMap (h : (StaticValue.hashMap entries).Intact) :
    ∀ e ∈ entries, e.1.Intact ∧ e.2.Intact := fun e he =>
  ⟨h.part fun _ h => ((all_hashMap.mp h).2 e he).1, h.part fun _ h => ((all_hashMap.mp h).2 e he).2⟩

end Intact

theorem normal_of_isKey {t : StaticType} {x : StaticValue} (key : t.isKey = true) (typed : t.has x = true) :
    x.normal = x := by
  induction t using StaticType.induction generalizing x with
  | float32 | float64 | value | hashMap => cases StaticType.all_self key
  | bool | text | bytes | unit =>
      cases x <;> cases typed
      rfl
  | int signed width =>
      rcases StaticType.has_int.mp typed with ⟨-, n, rfl, -⟩ | ⟨-, n, rfl, -⟩ <;> rfl
  | option inner ih =>
      rcases StaticType.has_option.mp typed with rfl | ⟨y, rfl, inside⟩
      · rfl
      · rw [normal, ih (StaticType.all_inner (.inl key)) inside]
  | list element ih =>
      obtain ⟨xs, rfl, inside⟩ := StaticType.has_list.mp typed
      have same : ∀ y ∈ xs, y.normal = y := fun y hy => ih (StaticType.all_inner (.inr key)) (inside y hy)
      rw [normal, normalItems_eq, List.map_congr_left same, List.map_id']
  | orderedMap k v hk hv =>
      obtain ⟨keys, values⟩ := StaticType.all_map (.inl key)
      obtain ⟨entries, rfl, inside⟩ := StaticType.has_orderedMap.mp typed
      have same : ∀ e ∈ entries, (e.1.normal, e.2.normal) = e := fun e he =>
        Prod.ext (hk keys (inside e he).1) (hv values (inside e he).2)
      rw [normal, normalEntries_eq, List.map_congr_left same, List.map_id']
  | tuple items ih =>
      obtain ⟨xs, rfl, inside⟩ := StaticType.has_tuple.mp typed
      have same : ∀ y ∈ xs, y.normal = y := by
        intro y hy
        obtain ⟨t, ht, typed⟩ := StaticType.exists_type inside y hy
        exact ih t ht (StaticType.all_items key t ht) typed
      rw [normal, normalItems_eq, List.map_congr_left same, List.map_id']
  | record name fields ih =>
      obtain ⟨xs, rfl, inside⟩ := StaticType.has_record.mp typed
      have same : ∀ y ∈ xs, y.normal = y := by
        intro y hy
        obtain ⟨t, ht, typed⟩ := StaticType.exists_type inside y hy
        exact ih t ht (StaticType.all_fields key t ht) typed
      rw [normal, normalItems_eq, List.map_congr_left same, List.map_id']

theorem normalEntries_keys {k v : StaticType} {entries : List (StaticValue × StaticValue)}
    (keys : k.isKey = true) (typed : ∀ e ∈ entries, k.has e.1 = true ∧ v.has e.2 = true) :
    normalEntries entries = entries.map fun e => (e.1, e.2.normal) := by
  rw [normalEntries_eq]
  refine List.map_congr_left fun e he => ?_
  rw [normal_of_isKey keys (typed e he).1]

end StaticValue

namespace StaticValue

theorem same_value {v : Value} (h : v.nanFree = true) : v.same (.ofPacked v.toPacked) = true := by
  rw [Value.same_comm]
  exact Value.ofPacked_toPacked v h

theorem sameItems_normal {items : List StaticValue} (h : ∀ x ∈ items, x.same x.normal = true) :
    sameItems items (normalItems items) = true := by
  rw [sameItems_iff, normalItems_eq, List.forall₂_map_right_iff, List.forall₂_same]
  exact h

theorem sameEntries_normal {entries : List (StaticValue × StaticValue)}
    (h : ∀ e ∈ entries, e.1.same e.1.normal = true ∧ e.2.same e.2.normal = true) :
    sameEntries entries (normalEntries entries) = true := by
  rw [sameEntries_iff, normalEntries_eq, List.forall₂_map_right_iff, List.forall₂_same]
  exact h

theorem hashMap_same_normal {k v : StaticType} {entries : List (StaticValue × StaticValue)}
    (keys : k.isKey = true) (typed : ∀ e ∈ entries, k.has e.1 = true ∧ v.has e.2 = true)
    (distinct : entries.Pairwise fun a b => order b.1 a.1 ≠ .eq)
    (h : ∀ e ∈ entries, e.2.same e.2.normal = true) :
    (hashMap entries).same (hashMap entries).normal = true := by
  rw [normal, normalEntries_keys keys typed, same, List.length_map, beq_self_eq_true, Bool.true_and]
  exact agree_iff.mpr fun e he => ⟨_, find?_distinct distinct he, h e he⟩

end StaticValue

namespace StaticType
open StaticValue (Intact)

/-- Values of the type are taken back from their normal form. -/
def Recovers (t : StaticType) : Prop :=
  ∀ x, t.has x = true → x.Intact → t.ofValue x.normal.toValue = .ok x.normal

theorem int_recovers (signed : Bool) (width : IntWidth) : (int signed width).Recovers := by
  intro x typed _
  rcases has_int.mp typed with ⟨rfl, n, rfl, held⟩ | ⟨rfl, n, rfl, held⟩
  · have back : (int true width).ofValue (.int n) = .ok (.int (.ofInt n.toInt)) := by
      rw [ofValue, Value.integer?]
      exact if_pos held
    rw [Int64.ofInt_toInt] at back
    exact back
  · have back : (int false width).ofValue (.uint n) = .ok (.uint (.ofNat (n.toNat : Int).toNat)) := by
      rw [ofValue, Value.integer?]
      exact if_pos held
    rw [Int.toNat_natCast, UInt64.ofNat_toNat] at back
    exact back

theorem float32_recovers : float32.Recovers := by
  intro x typed intact
  cases x <;> cases typed
  next y =>
    -- A NaN may come back with other bits; every number is taken back exactly.
    have number : y.isNaN = false := (Bool.not_eq_true' _).mp intact.numbers
    have back := ofValue_float32 (.ofBinary32 y)
    rw [Binary64.toBinary32_ofBinary32 number] at back
    exact back

theorem option_recovers {inner : StaticType} (ih : inner.Recovers) : (option inner).Recovers := by
  intro x typed intact
  rcases has_option.mp typed with rfl | ⟨y, rfl, inside⟩
  · rfl
  · have full : y.normal.toValue.isNil = false := by
      rw [StaticValue.isNil_normal]
      exact (StaticValue.isFull_present.mp intact.full).1
    have back := ih y inside intact.ofPresent
    rw [StaticValue.normal, StaticValue.toValue, ofValue_option, full, back]
    rfl

theorem list_recovers {element : StaticType} (ih : element.Recovers) : (list element).Recovers := by
  intro x typed intact
  obtain ⟨xs, rfl, inside⟩ := has_list.mp typed
  have each : ∀ y ∈ xs, element.ofValue y.normal.toValue = .ok y.normal := fun y hy =>
    ih y (inside y hy) (intact.ofList y hy)
  have back := mapItems_eq_map each 0
  rw [StaticValue.normal, StaticValue.toValue, StaticValue.toValues_eq, StaticValue.normalItems_eq,
    List.map_map]
  exact Except.map_eq_ok.mpr ⟨_, back, rfl⟩

theorem entries_recovered {k v : StaticType} (hk : k.Recovers) (hv : v.Recovers)
    {entries : List (StaticValue × StaticValue)}
    (typed : ∀ e ∈ entries, k.has e.1 = true ∧ v.has e.2 = true)
    (intact : ∀ e ∈ entries, e.1.Intact ∧ e.2.Intact) :
    mapEntries k.ofValue v.ofValue 0 (StaticValue.toValueEntries (StaticValue.normalEntries entries)) =
      .ok (StaticValue.normalEntries entries) := by
  have each : ∀ e ∈ entries, k.ofValue e.1.normal.toValue = .ok e.1.normal ∧
      v.ofValue e.2.normal.toValue = .ok e.2.normal := fun e he =>
    ⟨hk e.1 (typed e he).1 (intact e he).1, hv e.2 (typed e he).2 (intact e he).2⟩
  rw [StaticValue.toValueEntries_eq, StaticValue.normalEntries_eq, List.map_map]
  exact mapEntries_eq_map (p := fun x : StaticValue => x.normal.toValue) (q := StaticValue.normal) each 0

theorem orderedMap_recovers {k v : StaticType} (key : k.isKey = true) (hk : k.Recovers)
    (hv : v.Recovers) : (orderedMap k v).Recovers := by
  intro x typed intact
  obtain ⟨entries, rfl, inside⟩ := has_orderedMap.mp typed
  have sorted := of_decide_eq_true (StaticValue.all_orderedMap.mp intact.ordered).1
  have back := entries_recovered hk hv inside intact.ofOrderedMap
  refine Except.map_eq_ok.mpr ⟨_, back, ?_⟩
  rw [StaticValue.normal, StaticValue.normalEntries_keys key inside]
  exact congrArg StaticValue.orderedMap (OrderedMap.ofList_sorted (List.pairwise_map.mpr sorted))

theorem hashMap_recovers {k v : StaticType} (key : k.isKey = true) (hk : k.Recovers)
    (hv : v.Recovers) : (hashMap k v).Recovers := by
  intro x typed intact
  obtain ⟨entries, rfl, inside⟩ := has_hashMap.mp typed
  have distinct := of_decide_eq_true (StaticValue.all_hashMap.mp intact.ordered).1
  have back := entries_recovered hk hv inside intact.ofHashMap
  refine Except.map_eq_ok.mpr ⟨_, back, ?_⟩
  rw [StaticValue.normal, StaticValue.normalEntries_keys key inside]
  exact congrArg StaticValue.hashMap (StaticValue.collect_distinct (List.pairwise_map.mpr distinct))

theorem items_recovered {ts : List StaticType} {xs : List StaticValue} (h : ∀ t ∈ ts, t.Recovers)
    (typed : List.Forall₂ (fun t x => t.has x = true) ts xs) (intact : ∀ x ∈ xs, x.Intact) (i : Nat) :
    ofValues i ts (xs.map fun x => x.normal.toValue) = .ok (xs.map StaticValue.normal) := by
  induction typed generalizing i with
  | nil => rfl
  | cons first _ ih =>
      obtain ⟨ht, hts⟩ := List.forall_mem_cons.mp h
      obtain ⟨hx, hxs⟩ := List.forall_mem_cons.mp intact
      exact ofValues_cons.mpr ⟨_, _, ht _ first hx, ih hts hxs (i + 1), rfl⟩

theorem tuple_recovers {items : List StaticType} (ih : ∀ t ∈ items, t.Recovers) :
    (tuple items).Recovers := by
  intro x typed intact
  obtain ⟨xs, rfl, inside⟩ := has_tuple.mp typed
  have back := items_recovered ih inside intact.ofTuple 0
  rw [StaticValue.normal, StaticValue.toValue, StaticValue.toValues_eq, StaticValue.normalItems_eq,
    List.map_map]
  refine Descriptor.ofArity_eq_ok.mpr ⟨?_, Except.map_eq_ok.mpr ⟨_, back, rfl⟩⟩
  rw [List.length_map, inside.length_eq]

theorem record_recovers {name : String} {fields : List (String × StaticType)}
    (ih : ∀ t ∈ fields.map Prod.snd, t.Recovers) : (record name fields).Recovers := by
  intro x typed intact
  obtain ⟨xs, rfl, inside⟩ := has_record.mp typed
  have back := items_recovered ih inside intact.ofRecord 0
  rw [← ofFields_eq_ok] at back
  rw [StaticValue.normal, StaticValue.toValue, StaticValue.toValues_eq, StaticValue.normalItems_eq,
    List.map_map]
  refine Descriptor.ofArity_eq_ok.mpr ⟨?_, Except.map_eq_ok.mpr ⟨_, back, rfl⟩⟩
  rw [List.length_map, ← inside.length_eq, List.length_map]

theorem recovers {t : StaticType} (valid : t.isValid = true) : t.Recovers := by
  induction t using StaticType.induction with
  | bool | float64 | text | bytes | unit | value =>
      intro x typed _
      cases x <;> cases typed
      rfl
  | int signed width => exact int_recovers signed width
  | float32 => exact float32_recovers
  | option inner ih => exact option_recovers (ih (all_inner (.inl valid)))
  | list element ih => exact list_recovers (ih (all_inner (.inr valid)))
  | orderedMap k v hk hv =>
      obtain ⟨keys, values⟩ := all_map (.inl valid)
      exact orderedMap_recovers (isKey_of_isValid (.inl valid)) (hk keys) (hv values)
  | hashMap k v hk hv =>
      obtain ⟨keys, values⟩ := all_map (.inr valid)
      exact hashMap_recovers (isKey_of_isValid (.inr valid)) (hk keys) (hv values)
  | tuple items ih => exact tuple_recovers fun t ht => ih t ht (all_items valid t ht)
  | record name fields ih => exact record_recovers fun t ht => ih t ht (all_fields valid t ht)

theorem same_normal {t : StaticType} {x : StaticValue} (valid : t.isValid = true) (typed : t.has x = true)
    (intact : x.Intact) : x.same x.normal = true := by
  induction t using StaticType.induction generalizing x with
  | bool | text | bytes =>
      cases x <;> cases typed
      simp only [StaticValue.normal, StaticValue.same, beq_self_eq_true]
  | int signed width =>
      rcases has_int.mp typed with ⟨-, n, rfl, -⟩ | ⟨-, n, rfl, -⟩ <;>
        simp only [StaticValue.normal, StaticValue.same, beq_self_eq_true]
  | float32 =>
      cases x <;> cases typed
      simp only [StaticValue.normal, StaticValue.same]
      exact Binary32.same_self ((Bool.not_eq_true' _).mp intact.numbers)
  | float64 =>
      cases x <;> cases typed
      simp only [StaticValue.normal, StaticValue.same]
      exact Binary64.same_self ((Bool.not_eq_true' _).mp intact.numbers)
  | unit =>
      cases x <;> cases typed
      simp only [StaticValue.normal, StaticValue.same]
  | value =>
      cases x <;> cases typed
      simp only [StaticValue.normal, StaticValue.same]
      exact StaticValue.same_value intact.numbers
  | option inner ih =>
      rcases has_option.mp typed with rfl | ⟨y, rfl, inside⟩
      · simp only [StaticValue.normal, StaticValue.same]
      · rw [StaticValue.normal, StaticValue.same]
        exact ih (all_inner (.inl valid)) inside intact.ofPresent
  | list element ih =>
      obtain ⟨xs, rfl, inside⟩ := has_list.mp typed
      rw [StaticValue.normal, StaticValue.same]
      exact StaticValue.sameItems_normal fun y hy => ih (all_inner (.inr valid)) (inside y hy)
        (intact.ofList y hy)
  | orderedMap k v hk hv =>
      obtain ⟨keys, values⟩ := all_map (.inl valid)
      obtain ⟨entries, rfl, inside⟩ := has_orderedMap.mp typed
      rw [StaticValue.normal, StaticValue.same]
      exact StaticValue.sameEntries_normal fun e he =>
        ⟨hk keys (inside e he).1 (intact.ofOrderedMap e he).1,
          hv values (inside e he).2 (intact.ofOrderedMap e he).2⟩
  | hashMap k v hk hv =>
      obtain ⟨keys, values⟩ := all_map (.inr valid)
      obtain ⟨entries, rfl, inside⟩ := has_hashMap.mp typed
      have distinct := of_decide_eq_true (StaticValue.all_hashMap.mp intact.ordered).1
      exact StaticValue.hashMap_same_normal (isKey_of_isValid (.inr valid)) inside distinct fun e he =>
        hv values (inside e he).2 (intact.ofHashMap e he).2
  | tuple items ih =>
      obtain ⟨xs, rfl, inside⟩ := has_tuple.mp typed
      rw [StaticValue.normal, StaticValue.same]
      refine StaticValue.sameItems_normal fun y hy => ?_
      obtain ⟨t, ht, typed⟩ := exists_type inside y hy
      exact ih t ht (all_items valid t ht) typed (intact.ofTuple y hy)
  | record name fields ih =>
      obtain ⟨xs, rfl, inside⟩ := has_record.mp typed
      rw [StaticValue.normal, StaticValue.same, beq_self_eq_true, Bool.true_and]
      refine StaticValue.sameItems_normal fun y hy => ?_
      obtain ⟨t, ht, typed⟩ := exists_type inside y hy
      exact ih t ht (all_fields valid t ht) typed (intact.ofRecord y hy)

end StaticType

end PackRpc
