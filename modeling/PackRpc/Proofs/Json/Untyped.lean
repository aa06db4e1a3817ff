import PackRpc.Json.Argument
import PackRpc.Descriptor.Decoding
import PackRpc.Proofs.Json.Parsing
import PackRpc.Proofs.Json.Rendering

namespace PackRpc.Json

def isFinite (j : Json) : Bool :=
  j.all fun
    | .float x => x.isFinite
    | _ => true

/-- Whether the members of every object have different names. -/
def isDistinct (j : Json) : Bool :=
  j.all fun
    | .object members => decide (members.map Prod.fst).Nodup
    | _ => true

/-- Equality up to the order of the members of objects, at every level. -/
inductive Reordered : Json → Json → Prop where
  | refl (j : Json) : Reordered j j
  | array {items others : List Json} (each : List.Forall₂ Reordered items others) :
    Reordered (.array items) (.array others)
  | object {members others given : List (String × Json)}
    (names : members.map Prod.fst = others.map Prod.fst)
    (each : List.Forall₂ Reordered (members.map Prod.snd) (others.map Prod.snd))
    (order : others.Perm given) : Reordered (.object members) (.object given)

/-- Induction over a JSON value, containers after what they contain. -/
@[elab_as_elim]
theorem induction {motive : Json → Prop} (null : motive .null) (bool : ∀ b, motive (.bool b))
    (int : ∀ n, motive (.int n)) (float : ∀ x, motive (.float x)) (string : ∀ text, motive (.string text))
    (array : ∀ items, (∀ j ∈ items, motive j) → motive (.array items))
    (object : ∀ members, (∀ m ∈ members, motive m.2) → motive (.object members)) (j : Json) :
    motive j := by
  refine @Json.rec motive (fun items => ∀ j ∈ items, motive j) (fun members => ∀ m ∈ members, motive m.2)
    (fun m => motive m.2) null bool int float string array object ?_ ?_ ?_ ?_ ?_ j
  · exact List.forall_mem_nil motive
  · exact fun item items hitem hitems => List.forall_mem_cons.mpr ⟨hitem, hitems⟩
  · exact fun m hm => absurd hm List.not_mem_nil
  · exact fun m members hm hmembers => List.forall_mem_cons.mpr ⟨hm, hmembers⟩
  · exact fun name j hj => hj

/-- What a value is rendered as when it has been sent and received without a declared shape. -/
def echo (j : Json) : Json := (Value.ofPacked j.toValue.toPacked).toJson

theorem toValues_eq (items : List Json) : toValues items = items.map toValue := by
  induction items with
  | nil => rfl
  | cons item items ih => rw [toValues, ih, List.map_cons]

theorem toMembers_eq (members : List (String × Json)) :
    toMembers members = members.map fun m => (.string m.1, m.2.toValue) := by
  induction members with
  | nil => rfl
  | cons m members ih => rw [toMembers, ih, List.map_cons]

theorem toValue_integer (n : PackedInt) : (toValue (.int n)).integer? = some n.val := by
  rw [toValue, PackedInt.toInt64?]
  split_ifs with small
  · exact Value.ofInt_integer n.ge small
  · exact Value.ofNat_integer (by omega) n.lt

theorem echo_int (n : PackedInt) : echo (.int n) = .int n := by
  obtain ⟨m, form, number⟩ := Value.toPacked_of_integer (toValue_integer n)
  rw [echo, form, Value.ofPacked]
  exact Value.toJson_integer (number ▸ Value.ofInteger_integer m)

theorem echo_array (items : List Json) : echo (.array items) = .array (items.map echo) := by
  rw [echo, toValue, Value.toPacked, Value.ofPacked, Value.toJson, toValues_eq, Value.toPackedItems_eq,
    Value.ofPackedItems_eq, Value.itemsToJson_eq, List.map_map, List.map_map, List.map_map]
  rfl

theorem echo_object (members : List (String × Json)) :
    echo (.object members) = Value.toObject (members.map fun m => (m.1, m.2.echo)) := by
  rw [echo, toValue, Value.toPacked, Value.ofPacked, Value.toJson, toMembers_eq, Value.toPackedEntries_eq,
    Value.ofPackedEntries_eq, Value.entriesToJson_eq, List.map_map, List.map_map, List.map_map]
  rfl

theorem echo_float {x : Binary64} (finite : (Json.float x).isFinite = true) : echo (.float x) = .float x :=
  Value.ofFloat_finite finite

theorem echo_listed {j : Json} (finite : j.isFinite = true) (listed : j.isListed = true) : echo j = j := by
  induction j using Json.induction with
  | null | bool | string => rfl
  | int n => exact echo_int n
  | float x => exact echo_float finite
  | array items ih =>
      have each : ∀ j ∈ items, echo j = j := fun j hj =>
        ih j hj ((all_array.mp finite).2 j hj) ((all_array.mp listed).2 j hj)
      rw [echo_array, List.map_congr_left each, List.map_id']
  | object members ih =>
      obtain ⟨sorted, inside⟩ := all_object.mp listed
      have each : ∀ m ∈ members, (m.1, m.2.echo) = m := fun m hm =>
        Prod.ext rfl (ih m hm ((all_object.mp finite).2 m hm) (inside m hm))
      rw [echo_object, List.map_congr_left each, List.map_id', Value.toObject,
        OrderedMap.ofList_ascending (of_decide_eq_true sorted)]

theorem echo_reordered {j : Json} (finite : j.isFinite = true) (distinct : j.isDistinct = true) :
    (echo j).Reordered j := by
  induction j using Json.induction with
  | null | bool | string => exact .refl _
  | int n =>
      rw [echo_int]
      exact .refl _
  | float x =>
      rw [echo_float finite]
      exact .refl _
  | array items ih =>
      rw [echo_array]
      refine .array ?_
      rw [List.forall₂_map_left_iff, List.forall₂_same]
      exact fun j hj => ih j hj ((all_array.mp finite).2 j hj) ((all_array.mp distinct).2 j hj)
  | object members ih =>
      obtain ⟨names, inside⟩ := all_object.mp distinct
      have each : List.Forall₂ (fun m n : String × Json => m.1 = n.1 ∧ m.2.Reordered n.2)
          (members.map fun m => (m.1, m.2.echo)) members := by
        rw [List.forall₂_map_left_iff, List.forall₂_same]
        exact fun m hm => ⟨rfl, ih m hm ((all_object.mp finite).2 m hm) (inside m hm)⟩
      have kept : ((members.map fun m => (m.1, m.2.echo)).map Prod.fst).Nodup := by
        rw [List.map_map]
        exact of_decide_eq_true names
      obtain ⟨others, same, order⟩ := List.perm_comp_forall₂ (OrderedMap.ofList_perm kept) each
      rw [echo_object]
      refine .object ?_ ?_ order
      · rw [← List.forall₂_eq_eq_eq, List.forall₂_map_left_iff, List.forall₂_map_right_iff]
        exact same.imp fun _ _ => And.left
      · rw [List.forall₂_map_left_iff, List.forall₂_map_right_iff]
        exact same.imp fun _ _ => And.right

/-- JSON that is sent as an object and taken back as an object is rendered as it was given, up to the order of
members. Where they are listed by name, as in all that is read from a text, it is rendered as it stands. -/
theorem object_echoes (j : Json) (finite : j.isFinite = true) (distinct : j.isDistinct = true) :
    ∃ v w back, toArgument .object j = .ok v ∧ Descriptor.object.encode v = .ok w ∧
      Descriptor.object.decode w = .ok back ∧ back.toJson.Reordered j ∧
      (j.isListed = true → back.toJson = j) ∧ ∀ text, parse text = .ok j → back.toJson = j := by
  have taken : toArgument .object j = .ok j.toValue := by cases j <;> rfl
  exact ⟨j.toValue, j.toValue.toPacked, _, taken, rfl, rfl, echo_reordered finite distinct,
    echo_listed finite, fun text read => echo_listed finite (parse_listed read)⟩

/-- Integers of either type, a whole float and containers within containers. -/
theorem object_echoes_nested :
    let j : Json := .object [("a", .array [.int ⟨-5, by decide, by decide⟩,
        .int ⟨2 ^ 64 - 1, by decide, by decide⟩, .float ⟨0x4000000000000000⟩, .null]),
      ("b", .object [("", .string "x"), ("z", .bool true)])]
    j.isFinite = true ∧ j.isDistinct = true ∧ j.isListed = true ∧
      ∃ v w back, toArgument .object j = .ok v ∧ Descriptor.object.encode v = .ok w ∧
        Descriptor.object.decode w = .ok back ∧ back.toJson = j := by
  intro j
  have finite : j.isFinite = true := by decide +kernel
  have distinct : j.isDistinct = true := by decide +kernel
  have listed : j.isListed = true := by decide +kernel
  obtain ⟨v, w, back, taken, sent, received, -, same, -⟩ := object_echoes j finite distinct
  exact ⟨finite, distinct, listed, v, w, back, taken, sent, received, same listed⟩

end PackRpc.Json
