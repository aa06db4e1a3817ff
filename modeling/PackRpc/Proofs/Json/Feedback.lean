import PackRpc.Command.Run
import PackRpc.Proofs.Descriptor.Stability
import PackRpc.Proofs.Json.Argument
import PackRpc.Proofs.Json.Reading
import PackRpc.Proofs.Text.Integer

namespace PackRpc

namespace Packed

mutual

/-- The value with other floats of double precision in it. -/
def refloat (f : Binary64 → Binary64) : Packed → Packed
  | .float64 x => .float64 (f x)
  | .array items => .array (refloatItems f items)
  | .map entries => .map (refloatEntries f entries)
  | w => w

def refloatItems (f : Binary64 → Binary64) : List Packed → List Packed
  | [] => []
  | item :: items => refloat f item :: refloatItems f items

def refloatEntries (f : Binary64 → Binary64) : List (Packed × Packed) → List (Packed × Packed)
  | [] => []
  | (key, value) :: entries => (refloat f key, refloat f value) :: refloatEntries f entries

end

theorem refloat_array (f : Binary64 → Binary64) (items : List Packed) :
    (array items).refloat f = .array (items.map (refloat f)) := by
  have each : refloatItems f items = items.map (refloat f) := by
    induction items with
    | nil => rfl
    | cons item items ih => rw [refloatItems, ih, List.map_cons]
  rw [refloat, each]

theorem refloat_map (f : Binary64 → Binary64) (entries : List (Packed × Packed)) :
    (map entries).refloat f = .map (entries.map (Prod.map (refloat f) (refloat f))) := by
  have each : refloatEntries f entries = entries.map (Prod.map (refloat f) (refloat f)) := by
    induction entries with
    | nil => rfl
    | cons e entries ih =>
        rw [refloatEntries, ih]
        rfl
  rw [refloat, each]

theorem refloat_eq_nil {f : Binary64 → Binary64} {w : Packed} (h : w.refloat f = .nil) : w = .nil := by
  cases w with
  | nil => rfl
  | _ => cases h

theorem refloat_id (w : Packed) : w.refloat id = w := by
  induction w using Packed.induction with
  | array items ih => rw [refloat_array, (List.map_inj_left (g := id)).mpr ih, List.map_id]
  | map entries ih =>
      have same := (List.map_inj_left (f := Prod.map (refloat id) (refloat id)) (g := id) (l := entries)).mpr
        fun e he => Prod.ext (ih e he).1 (ih e he).2
      rw [refloat_map, same, List.map_id]
  | _ => rfl

end Packed

/-- Equality up to the order of the entries of maps, at every level. -/
inductive Packed.Reordered : Packed → Packed → Prop where
  | refl (w : Packed) : Reordered w w
  | array {items others : List Packed} (each : List.Forall₂ Reordered items others) :
    Reordered (.array items) (.array others)
  | map {entries others given : List (Packed × Packed)}
    (keys : List.Forall₂ Reordered (entries.map Prod.fst) (others.map Prod.fst))
    (values : List.Forall₂ Reordered (entries.map Prod.snd) (others.map Prod.snd))
    (order : others.Perm given) : Reordered (.map entries) (.map given)

theorem exists_between {α β γ : Type} {R : α → β → Prop} {S : β → γ → Prop} {as : List α} {cs : List γ}
    (h : List.Forall₂ (fun a c => ∃ b, R a b ∧ S b c) as cs) :
    ∃ bs, List.Forall₂ R as bs ∧ List.Forall₂ S bs cs := by
  induction h with
  | nil => exact ⟨[], .nil, .nil⟩
  | cons first _ ih =>
      obtain ⟨b, left, right⟩ := first
      obtain ⟨bs, lefts, rights⟩ := ih
      exact ⟨b :: bs, .cons left lefts, .cons right rights⟩

theorem Command.readArguments_error {i : Nat} {types : List Descriptor} {text : String} {texts : List String}
    {e : JsonError} (failed : Json.parse text = .error e) : readArguments i types (text :: texts) =
      .error ⟨.usage, "argument " ++ toString i ++ " is not valid JSON: " ++ e.message⟩ := by
  simp only [readArguments, failed, orFail]
  rfl

theorem Command.readArguments_cons {i : Nat} {d : Descriptor} {types : List Descriptor} {text : String}
    {texts : List String} {j : Json} {v : Value} {vs : List Value} (read : Json.parse text = .ok j)
    (taken : j.toArgument d = .ok v) (others : readArguments (i + 1) types texts = .ok vs) :
    readArguments i (d :: types) (text :: texts) = .ok (v :: vs) := by
  simp only [readArguments, read, orFail, bind, Except.bind, List.headD_cons, taken, List.drop_one,
    List.tail_cons, others]
  rfl

namespace Value

/-- Rendered values have finite floats in them, and objects that list their members by name. -/
theorem toJson_all {p : Json → Bool} (null : p .null = true) (bool : ∀ b, p (.bool b) = true)
    (int : ∀ n, p (.int n) = true) (float : ∀ x, x.isFinite = true → p (.float x) = true)
    (string : ∀ text, p (.string text) = true) (array : ∀ items, p (.array items) = true)
    (object : ∀ members, OrderedMap.Ascending members → p (.object members) = true) (v : Value) :
    v.toJson.all p = true := by
  have members (given : List (String × Json)) (inside : ∀ m ∈ given, m.2.all p = true) :
      (toObject given).all p = true :=
    Json.all_object.mpr ⟨object _ (OrderedMap.ascending_ofList given), fun m hm => inside m (OrderedMap.mem_ofList hm)⟩
  induction v using Value.induction with
  | nil => exact null
  | bool b => exact bool b
  | int n => exact int _
  | uint n => exact int _
  | float x =>
      rw [toJson, ofFloat]
      split
      · next negative m e class_eq => exact float x (by rw [Binary64.isFinite, class_eq])
      · exact null
  | string text => exact string text
  | binary data =>
      refine Json.all_array.mpr ⟨array _, fun j hj => ?_⟩
      obtain ⟨b, -, rfl⟩ := List.mem_map.mp hj
      exact int _
  | seq items ih =>
      rw [toJson, itemsToJson_eq]
      exact Json.all_array.mpr ⟨array _, List.forall_mem_map.mpr ih⟩
  | map entries ih =>
      rw [toJson, entriesToJson_eq]
      exact members _ (List.forall_mem_map.mpr fun e he => (ih e he).2)
  | record type items ih =>
      rw [toJson, fieldsToJson_eq]
      refine members _ fun m hm => ?_
      obtain ⟨v, hv, same⟩ := List.mem_map.mp (List.of_mem_zip hm).2
      rw [← same]
      exact ih v hv

theorem toJson_finite (v : Value) : v.toJson.isFinite = true :=
  toJson_all rfl (fun _ => rfl) (fun _ => rfl) (fun _ finite => finite) (fun _ => rfl) (fun _ => rfl)
    (fun _ _ => rfl) v

theorem toJson_listed (v : Value) : v.toJson.isListed = true :=
  toJson_all rfl (fun _ => rfl) (fun _ => rfl) (fun _ _ => rfl) (fun _ => rfl) (fun _ => rfl)
    (fun _ listed => decide_eq_true listed) v

end Value

namespace Descriptor

/-- Whether values of a type can be told by their text. -/
def isKey : Descriptor → Bool
  | .string | .int .. => true
  | _ => false

/-- Whether a type has no objects in it, the keys of its maps are strings or integers and the fields of its
records have different names. -/
def isPlain (d : Descriptor) : Bool :=
  d.all fun
    | .object => false
    | .map key _ => key.isKey
    | .record _ fields => decide (fields.map Prod.fst).Nodup
    | _ => true

/-- A value that was taken in place of another is encoded as that one with other floats, up to the order of
entries. -/
def StandsFor (d : Descriptor) (f : Binary64 → Binary64) (back v : Value) : Prop :=
  ∃ again packed, d.encode back = .ok again ∧ d.encode v = .ok packed ∧ again.Reordered (packed.refloat f)

/-- What values of the type are rendered as is taken back, whatever its floats have become. -/
def FeedsBack (d : Descriptor) : Prop :=
  ∀ f w v, d.decode w = .ok v → v.Shown →
    ∃ back, Json.toArgument d (v.toJson.refloat f) = .ok back ∧ d.StandsFor f back v

section
variable {d element key value : Descriptor} {ds : List Descriptor} {f : Binary64 → Binary64} {w : Packed}
  {ws : List Packed} {v : Value} {vs backs : List Value} {entries others : List (Value × Value)}

/-- Without floats in it, a value stands for itself. -/
theorem StandsFor.self (encoded : d.encode v = .ok w) (kept : w.refloat f = w) : d.StandsFor f v v :=
  ⟨w, w, encoded, encoded, by rw [kept]; exact .refl w⟩

theorem mapItems_standFor (each : List.Forall₂ (element.StandsFor f) backs vs) (i j : Nat) :
    ∃ agains packs, mapItems element.encode i backs = .ok agains ∧ mapItems element.encode j vs = .ok packs ∧
      List.Forall₂ Packed.Reordered agains (packs.map (Packed.refloat f)) := by
  simp only [mapItems_eq_ok]
  induction each with
  | nil => exact ⟨[], [], .nil, .nil, .nil⟩
  | cons first _ ih =>
      obtain ⟨again, packed, encoded, given, same⟩ := first
      obtain ⟨agains, packs, encodes, givens, sames⟩ := ih
      exact ⟨again :: agains, packed :: packs, .cons encoded encodes, .cons given givens, .cons same sames⟩

theorem mapEntries_standFor
    (each : List.Forall₂ (fun b e => key.StandsFor f b.1 e.1 ∧ value.StandsFor f b.2 e.2) others entries)
    (i j : Nat) :
    ∃ agains packs, mapEntries key.encode value.encode i others = .ok agains ∧
      mapEntries key.encode value.encode j entries = .ok packs ∧
      List.Forall₂ Packed.Reordered (agains.map Prod.fst) (packs.map fun e => e.1.refloat f) ∧
      List.Forall₂ Packed.Reordered (agains.map Prod.snd) (packs.map fun e => e.2.refloat f) := by
  simp only [mapEntries_eq_ok]
  induction each with
  | nil => exact ⟨[], [], .nil, .nil, .nil, .nil⟩
  | cons first _ ih =>
      obtain ⟨⟨k, k', kencoded, kgiven, ksame⟩, u, u', uencoded, ugiven, usame⟩ := first
      obtain ⟨agains, packs, encodes, givens, keys, values⟩ := ih
      exact ⟨(k, u) :: agains, (k', u') :: packs, .cons ⟨kencoded, uencoded⟩ encodes,
        .cons ⟨kgiven, ugiven⟩ givens, .cons ksame keys, .cons usame values⟩

theorem mapEntries_perm {α β C : Type} {f g : α → Except (Located C) β} {as bs : List (α × α)}
    {cs : List (β × β)} (order : as.Perm bs) {i : Nat} (j : Nat) (mapped : mapEntries f g i bs = .ok cs) :
    ∃ ds, mapEntries f g j as = .ok ds ∧ ds.Perm cs := by
  simp only [mapEntries_eq_ok] at mapped ⊢
  exact List.perm_comp_forall₂ order mapped

theorem encode_nil (h : d.encode .nil = .ok w) : w = .nil := by
  induction d using Descriptor.induction with
  | nullable inner =>
      cases h
      rfl
  | object | unit =>
      cases h
      rfl
  | _ => cases h

theorem decodeItems_feedBack (h : ∀ d ∈ ds, d.FeedsBack) (size : ds.length = ws.length) {i : Nat} (j k : Nat)
    (decoded : decodeItems i ds ws = .ok vs) (shown : ∀ v ∈ vs, v.Shown) :
    ds.length = vs.length ∧
      ∃ backs agains packs, Json.toArguments ds (vs.map fun v => v.toJson.refloat f) = .ok backs ∧
        ds.length = backs.length ∧ encodeItems j ds backs = .ok agains ∧ encodeItems k ds vs = .ok packs ∧
        List.Forall₂ Packed.Reordered agains (packs.map (Packed.refloat f)) := by
  induction ds generalizing ws vs i j k with
  | nil =>
      cases ws with
      | nil =>
          cases decoded
          exact ⟨rfl, [], [], [], rfl, rfl, rfl, rfl, .nil⟩
      | cons w ws => cases size
  | cons d ds ih =>
      cases ws with
      | nil => cases size
      | cons w ws =>
          obtain ⟨v, vs, first, rest, rfl⟩ := decodeItems_cons.mp decoded
          obtain ⟨hd, hds⟩ := List.forall_mem_cons.mp h
          obtain ⟨hv, hvs⟩ := List.forall_mem_cons.mp shown
          obtain ⟨back, taken, again, packed, encoded, given, same⟩ := hd f w v first hv
          obtain ⟨length, backs, agains, packs, takens, size, encodes, givens, sames⟩ :=
            ih hds (Nat.succ.inj size) (j + 1) (k + 1) rest hvs
          exact ⟨congrArg Nat.succ length, back :: backs, again :: agains, packed :: packs,
            Json.toArguments_cons.mpr ⟨back, backs, taken, takens, rfl⟩, congrArg Nat.succ size,
            encodeItems_cons.mpr ⟨again, agains, encoded, encodes, rfl⟩,
            encodeItems_cons.mpr ⟨packed, packs, given, givens, rfl⟩, .cons same sames⟩

end

section
variable {element key value inner : Descriptor} {name : String} {items : List Descriptor}
  {fields : List (String × Descriptor)} {w x : Packed} {k l : Value}

theorem refloat_seq (f : Binary64 → Binary64) (vs : List Value) :
    (Value.seq vs).toJson.refloat f = .array (vs.map fun v => v.toJson.refloat f) := by
  rw [Value.toJson, Value.itemsToJson_eq, Json.refloat, Json.refloatItems_eq, List.map_map]
  rfl

theorem refloat_fields (f : Binary64 → Binary64) (names : List String) (vs : List Value) :
    (names.zip (vs.map Value.toJson)).map (fun m => (m.1, m.2.refloat f)) =
      names.zip (vs.map fun v => v.toJson.refloat f) := by
  have each : vs.map (fun v => v.toJson.refloat f) = (vs.map Value.toJson).map (Json.refloat f) := by
    rw [List.map_map]
    rfl
  rw [each]
  exact (List.zip_map_right ..).symm

theorem int_feedsBack (signed : Bool) (width : IntWidth) : (int signed width).FeedsBack := by
  intro f w v decoded _
  obtain ⟨packed, given, -⟩ := settles _ w v decoded
  obtain ⟨n, number, held, form⟩ := encode_int.mp given
  obtain ⟨m, integer, rfl⟩ := Value.toPacked_of_integer number
  -- The integer may come back with the other type.
  obtain ⟨m', integer', same⟩ := Value.toPacked_of_integer (Json.toValue_integer m)
  obtain rfl : m' = m := PackedInt.ext same
  have encoded : (int signed width).encode (Json.toValue (.int m')) = .ok packed :=
    encode_int.mpr ⟨m'.val, Json.toValue_integer m', held, integer'.trans (integer.symm.trans form)⟩
  have kept : packed.refloat f = packed := by
    rw [← form, integer]
    rfl
  refine ⟨_, ?_, packed, packed, encoded, given, by rw [kept]; exact .refl packed⟩
  rw [Value.toJson_integer number]
  rfl

theorem raw_feedsBack : raw.FeedsBack := by
  intro f w v decoded _
  obtain ⟨data, rfl⟩ : ∃ data, v = .binary data := by
    cases w <;> cases decoded <;> exact ⟨_, rfl⟩
  have numbers : (data.map fun b => Json.ofNat b.toNat).map (Json.refloat f) = data.map fun b => .ofNat b.toNat := by
    rw [List.map_map]
    rfl
  refine ⟨.binary data, ?_, .self (w := .bin data) rfl rfl⟩
  rw [Value.toJson, Json.refloat, Json.refloatItems_eq, numbers, Json.toArgument, Json.toBytes_rendered]
  rfl

theorem tuple_feedsBack (ih : ∀ d ∈ items, d.FeedsBack) : (tuple items).FeedsBack := by
  intro f w v decoded shown
  obtain ⟨ws, vs, rfl, size, inside, rfl⟩ := decode_tuple.mp decoded
  obtain ⟨length, backs, agains, packs, taken, size, encoded, given, same⟩ :=
    decodeItems_feedBack ih size 0 0 inside shown.ofSeq
  refine ⟨.seq backs, ?_, .array agains, .array packs,
    encode_tuple.mpr ⟨backs, agains, rfl, size, encoded, rfl⟩,
    encode_tuple.mpr ⟨vs, packs, rfl, length, given, rfl⟩, by rw [Packed.refloat_array]; exact .array same⟩
  rw [refloat_seq, Json.toArgument, if_pos (by rw [List.length_map, length]), taken]
  rfl

theorem record_feedsBack (distinct : (fields.map Prod.fst).Nodup)
    (ih : ∀ d ∈ fields.map Prod.snd, d.FeedsBack) : (record name fields).FeedsBack := by
  intro f w v decoded shown
  obtain ⟨ws, vs, rfl, size, inside, rfl⟩ := decode_fields.mp decoded
  rw [decodeFields_eq_ok 0] at inside
  rw [← List.length_map (f := Prod.snd)] at size
  obtain ⟨length, backs, agains, packs, taken, size, encoded, given, same⟩ :=
    decodeItems_feedBack (f := f) ih size 0 0 inside shown.ofRecord
  rw [← encodeFields_eq_ok] at encoded given
  rw [List.length_map] at length size
  have names : ((fields.map Prod.fst).zip (vs.map Value.toJson)).map Prod.fst = fields.map Prod.fst :=
    List.map_fst_zip (by simpa using length.le)
  have order := (OrderedMap.ofList_perm (by rwa [names])).map fun m : String × Json => (m.1, m.2.refloat f)
  rw [refloat_fields] at order
  have members := (Json.ofMembers_perm name distinct (by rwa [List.length_map]) order).trans taken
  refine ⟨Json.recordValue ⟨name, fields⟩ backs, ?_, .array agains, .array packs,
    encode_record.mpr ⟨backs, agains, (Json.recordValue_eq _ backs).symm, size, encoded, rfl⟩,
    encode_record.mpr ⟨vs, packs, .inr rfl, length, given, rfl⟩, by rw [Packed.refloat_array]; exact .array same⟩
  rw [Value.toJson, Value.fieldsToJson_eq, Value.toObject, Json.refloat, Json.refloatMembers_eq, Json.toArgument,
    members]
  rfl

theorem nullable_feedsBack (ih : inner.FeedsBack) : (nullable inner).FeedsBack := by
  intro f w v decoded shown
  cases absent : v.isNil with
  | true =>
      cases v with
      | nil => exact ⟨.nil, rfl, .self (w := .nil) rfl rfl⟩
      | _ => cases absent
  | false =>
      rw [decode_nullable] at decoded
      split at decoded
      · cases decoded
        cases absent
      · obtain ⟨back, taken, again, packed, encoded, given, same⟩ := ih f w v decoded shown
        have full : back.isNil = false := by
          cases back with
          | nil =>
              -- Nothing but nil is encoded as nil is.
              obtain rfl := encode_nil encoded
              generalize reread : packed.refloat f = other at same
              cases same
              rw [Packed.refloat_eq_nil reread] at given
              rw [isNil_of_encode given] at absent
              cases absent
          | _ => rfl
        refine ⟨back, ?_, again, packed, ?_, ?_, same⟩
        · rw [Json.toArgument_nullable (Json.refloat_ne_null (Value.toJson_ne_null shown.finite absent))]
          exact taken
        · rw [encode_nullable, full]
          exact encoded
        · rw [encode_nullable, absent]
          exact given

theorem list_feedsBack (ih : element.FeedsBack) : (list element).FeedsBack := by
  intro f w v decoded shown
  obtain ⟨ws, vs, rfl, inside, rfl⟩ := decode_list.mp decoded
  have each : List.Forall₂ (fun j v => ∃ back, Json.toArgument element j = .ok back ∧ element.StandsFor f back v)
      (vs.map fun v => v.toJson.refloat f) vs := by
    rw [List.forall₂_map_left_iff, List.forall₂_same]
    intro v hv
    obtain ⟨w, -, first⟩ := exists_of_forall₂ (List.Forall₂.flip (mapItems_eq_ok.mp inside)) v hv
    exact ih f w v first (shown.ofSeq v hv)
  obtain ⟨backs, taken, stand⟩ := exists_between each
  obtain ⟨agains, packs, encoded, given, same⟩ := mapItems_standFor stand 0 0
  refine ⟨.seq backs, ?_, .array agains, .array packs, encode_list.mpr ⟨backs, agains, rfl, encoded, rfl⟩,
    encode_list.mpr ⟨vs, packs, rfl, given, rfl⟩, by rw [Packed.refloat_array]; exact .array same⟩
  rw [refloat_seq, Json.toArgument, Json.eachItem_eq_ok.mpr taken]
  rfl

theorem decode_string (decoded : Descriptor.string.decode w = .ok k) : ∃ text, k = .string text := by
  cases w with
  | str text =>
      cases decoded
      exact ⟨text, rfl⟩
  | bin data =>
      obtain ⟨text, -, rfl⟩ := decode_string_bin.mp decoded
      exact ⟨text, rfl⟩
  | _ => cases decoded

theorem toKey_text (keys : key.isKey = true) (decoded : key.decode w = .ok k) :
    Json.toKey (Json.toArgument key) key k.text = .ok k := by
  cases key with
  | string =>
      obtain ⟨text, rfl⟩ := decode_string decoded
      rfl
  | int signed width =>
      obtain ⟨n, rfl, held, rfl⟩ := decode_int.mp decoded
      cases signed with
      | true =>
          have number : Text.signed? 64 (toString (Int64.ofInt n.val).toInt).toList = some _ :=
            Text.signed?_toString (Int64.ofInt n.val).le_toInt (Int64.ofInt n.val).toInt_lt
          simp only [if_true, Value.text, Json.toKey, number, Int64.ofInt_toInt]
      | false =>
          have number := Text.unsigned?_toString (UInt64.ofNat n.val.toNat).toNat_lt
          simp only [Bool.false_eq_true, if_false, Value.text, Json.toKey, number, UInt64.ofNat_toNat]
  | _ => cases keys

theorem same_of_text (keys : key.isKey = true) (first : key.decode w = .ok k) (second : key.decode x = .ok l)
    (text : k.text = l.text) : k.same l = true := by
  have read := toKey_text keys first
  rw [text, toKey_text keys second] at read
  cases read
  cases key with
  | string =>
      obtain ⟨text, rfl⟩ := decode_string first
      exact beq_self_eq_true _
  | int signed width =>
      obtain ⟨packed, given, -⟩ := settles _ w k first
      obtain ⟨n, number, -⟩ := encode_int.mp given
      exact Value.same_of_integer number number
  | _ => cases keys

theorem key_standsFor {f : Binary64 → Binary64} (keys : key.isKey = true) (decoded : key.decode w = .ok k) :
    key.StandsFor f k k := by
  obtain ⟨packed, given, -⟩ := settles _ w k decoded
  refine .self given ?_
  cases key with
  | string =>
      obtain ⟨text, rfl⟩ := decode_string decoded
      cases given
      rfl
  | int signed width =>
      obtain ⟨n, number, -, form⟩ := encode_int.mp given
      obtain ⟨m, integer, -⟩ := Value.toPacked_of_integer number
      rw [← form, integer]
      rfl
  | _ => cases keys

theorem map_feedsBack (keys : key.isKey = true) (ih : value.FeedsBack) : (map key value).FeedsBack := by
  intro f w v decoded shown
  obtain ⟨ws, entries, rfl, inside, rfl⟩ := decode_map.mp decoded
  have parts := exists_of_forall₂ (List.Forall₂.flip (mapEntries_eq_ok.mp inside))
  have each : List.Forall₂ (fun m e => ∃ b : Value × Value,
      (Json.toKey (Json.toArgument key) key m.1 = .ok b.1 ∧ Json.toArgument value (m.2.refloat f) = .ok b.2) ∧
        key.StandsFor f b.1 e.1 ∧ value.StandsFor f b.2 e.2)
      (entries.map fun e => (e.1.text, e.2.toJson)) entries := by
    rw [List.forall₂_map_left_iff, List.forall₂_same]
    intro e he
    obtain ⟨p, -, first, second⟩ := parts e he
    obtain ⟨back, taken, stands⟩ := ih f p.2 e.2 second (shown.ofMap e he).2
    exact ⟨(e.1, back), ⟨toKey_text keys first, taken⟩, key_standsFor keys first, stands⟩
  have distinct : ((entries.map fun e => (e.1.text, e.2.toJson)).map Prod.fst).Nodup := by
    rw [List.map_map, List.Nodup, List.pairwise_map]
    refine (of_decide_eq_true (Value.all_map.mp shown.distinct).1).imp_of_mem fun ha hb differ text => ?_
    obtain ⟨p, -, first, -⟩ := parts _ ha
    obtain ⟨q, -, second, -⟩ := parts _ hb
    rw [same_of_text keys first second text] at differ
    cases differ
  -- The members stand by name, and the entries come back as the members stand.
  obtain ⟨others, each, order⟩ := List.perm_comp_forall₂ (OrderedMap.ofList_perm distinct) each
  obtain ⟨backs, taken, stand⟩ := exists_between each
  obtain ⟨agains, packs, encoded, given, sameKeys, sameValues⟩ := mapEntries_standFor stand 0 0
  obtain ⟨sent, settled, moved⟩ := mapEntries_perm order.symm 0 given
  refine ⟨.map backs, ?_, .map agains, .map sent, encode_map.mpr ⟨backs, agains, rfl, encoded, rfl⟩,
    encode_map.mpr ⟨entries, sent, rfl, settled, rfl⟩, ?_⟩
  · rw [Value.toJson, Value.entriesToJson_eq, Value.toObject, Json.refloat, Json.refloatMembers_eq]
    exact Json.toArgument_map.mpr ⟨backs, List.forall₂_map_left_iff.mpr taken, rfl⟩
  · rw [Packed.refloat_map]
    have moved := moved.symm.map (Prod.map (Packed.refloat f) (Packed.refloat f))
    refine .map ?_ ?_ moved
    · rwa [List.map_map]
    · rwa [List.map_map]

theorem feedsBack {d : Descriptor} (plain : d.isPlain = true) : d.FeedsBack := by
  induction d using Descriptor.induction with
  | bool =>
      intro f w v decoded _
      obtain ⟨b, rfl⟩ : ∃ b, v = .bool b := by
        cases w <;> cases decoded
        exact ⟨_, rfl⟩
      exact ⟨.bool b, rfl, .self (w := .bool b) rfl rfl⟩
  | int signed width => exact int_feedsBack signed width
  | float =>
      intro f w v decoded shown
      obtain ⟨x, rfl⟩ : ∃ x, v = .float x := by cases w <;> cases decoded <;> exact ⟨_, rfl⟩
      refine ⟨.float (f x), ?_, .float64 (f x), .float64 x, rfl, rfl, .refl _⟩
      rw [Value.toJson, Value.ofFloat_finite shown.finite]
      rfl
  | string =>
      intro f w v decoded _
      obtain ⟨text, rfl⟩ := decode_string decoded
      exact ⟨.string text, rfl, .self (w := .str text) rfl rfl⟩
  | raw => exact raw_feedsBack
  | tuple items ih => exact tuple_feedsBack fun d hd => ih d hd ((all_tuple.mp plain).2 d hd)
  | record name fields ih =>
      obtain ⟨distinct, inside⟩ := all_record.mp plain
      exact record_feedsBack (of_decide_eq_true distinct) fun d hd => ih d hd (inside d hd)
  | nullable inner ih => exact nullable_feedsBack (ih (all_nullable.mp plain).2)
  | list element ih => exact list_feedsBack (ih (all_list.mp plain).2)
  | map key value _ ih =>
      obtain ⟨keys, -, inside⟩ := all_map.mp plain
      exact map_feedsBack keys (ih inside)
  | object => cases plain
  | unit =>
      intro f w v decoded _
      obtain rfl : v = .nil := by cases decoded; rfl
      exact ⟨.nil, rfl, .self (w := .nil) rfl rfl⟩

end

/-- What is decoded under a descriptor and rendered is taken back as an argument, and then sent as it was, up
to the order of the entries of maps. What is printed of it is taken back where a reader goes as deep: as the same
argument if every float is read from its digits as itself, and else as one that is sent with the floats that the
digits are read as. Printed deeper, it is refused. -/
theorem rendering_feeds_back (d : Descriptor) (w : Packed) (v : Value) (decoded : d.decode w = .ok v)
    (plain : d.isPlain = true) (finite : v.isFinite = true) (distinct : v.isDistinct = true) :
    ∃ back again packed, Json.toArgument d v.toJson = .ok back ∧ d.encode back = .ok again ∧
      d.encode v = .ok packed ∧ again.Reordered packed ∧
      (v.toJson.nesting ≤ Json.maxDepth →
        ∃ other sent, (∀ i, Command.readArguments i [d] [Output.value .json v] = .ok [other]) ∧
          d.encode other = .ok sent ∧ sent.Reordered (packed.refloat Binary64.reread) ∧
          (v.toJson.isReadBack = true → other = back ∧ sent.Reordered packed)) ∧
      (Json.maxDepth < v.toJson.nesting →
        ∀ i, ∃ e, Command.readArguments i [d] [Output.value .json v] = .error e) := by
  have shown : v.Shown := ⟨finite, distinct⟩
  obtain ⟨back, taken, again, packed, encoded, given, same⟩ := feedsBack plain id w v decoded shown
  rw [Json.refloat_id] at taken
  rw [Packed.refloat_id] at same
  refine ⟨back, again, packed, taken, encoded, given, same, fun nested => ?_, fun deep i => ?_⟩
  · obtain ⟨other, stands, sent, packed', settled, given', reread⟩ :=
      feedsBack plain Binary64.reread w v decoded shown
    rw [given] at given'
    cases given'
    have read := Json.parse_own_text v.toJson_finite v.toJson_listed nested
    refine ⟨other, sent, fun i => Command.readArguments_cons read stands rfl, settled, reread, fun exact => ?_⟩
    rw [Json.refloat_readBack exact, taken] at stands
    cases stands
    rw [encoded] at settled
    cases settled
    exact ⟨rfl, same⟩
  · obtain ⟨e, failed⟩ := Json.parse_deep v.toJson_finite v.toJson_listed deep
    exact ⟨_, Command.readArguments_error failed⟩

/-- Keys that are listed in another order as texts, bytes, an absent value, a whole float and a unit. -/
theorem rendering_feeds_back_scores :
    let point : RecordType := ⟨"point", [("x", .float), ("tag", .raw)]⟩
    let d : Descriptor := .tuple [.map (.int true .w16) (.list (.nullable point.descriptor)), .unit,
      .map .string (.int false .w64)]
    let w : Packed := .array [.map [(.ofInt 10, .array [.nil]), (.ofInt (-1), .array []),
        (.ofInt 9, .array [.array [.float32 ⟨0x40000000⟩, .bin [0, 255]]])], .bool true,
      .map [(.str "z", .int ⟨18446744073709551615, by decide, by decide⟩), (.bin [0x61], .ofInt 0)]]
    let v : Value := .seq [.map [(.int 10, .seq [.nil]), (.int (-1), .seq []),
        (.int 9, .seq [.record point [.float ⟨0x4000000000000000⟩, .binary [0, 255]]])], .nil,
      .map [(.string "z", .uint 18446744073709551615), (.string "a", .uint 0)]]
    d.decode w = .ok v ∧ d.isPlain = true ∧ v.isFinite = true ∧ v.isDistinct = true ∧
      ∃ back again packed, Json.toArgument d v.toJson = .ok back ∧ d.encode back = .ok again ∧
        d.encode v = .ok packed ∧ again.Reordered packed ∧
        ∀ i, Command.readArguments i [d] [Output.value .json v] = .ok [back] := by
  intro point d w v
  have decoded : d.decode w = .ok v := by rfl
  have plain : d.isPlain = true := by decide +kernel
  have finite : v.isFinite = true := by decide +kernel
  have distinct : v.isDistinct = true := by decide +kernel
  have nested : v.toJson.nesting ≤ Json.maxDepth := by decide +kernel
  have exact : v.toJson.isReadBack = true := by decide +kernel
  obtain ⟨back, again, packed, taken, encoded, given, same, printed, -⟩ :=
    rendering_feeds_back d w v decoded plain finite distinct
  obtain ⟨other, sent, read, -, -, unchanged⟩ := printed nested
  obtain ⟨rfl, -⟩ := unchanged exact
  exact ⟨decoded, plain, finite, distinct, other, again, packed, taken, encoded, given, same, read⟩

/-- What is printed is not always sent as the value is: a float is read from its digits as the one before it, and
what nests 128 deep is not read. -/
theorem printed_not_fed_back :
    (let x : Binary64 := ⟨0x4035a6fbbc334eef⟩
      let y : Binary64 := ⟨0x4035a6fbbc334eee⟩
      Descriptor.float.decode (.float64 x) = .ok (.float x) ∧ Descriptor.float.isPlain = true ∧
        (Value.float x).isFinite = true ∧ (Value.float x).isDistinct = true ∧
        Output.value .json (.float x) = "21.652278673674058\n" ∧
        Command.readArguments 0 [.float] [Output.value .json (.float x)] = .ok [.float y] ∧
        Descriptor.float.encode (.float x) = .ok (.float64 x) ∧
        Descriptor.float.encode (.float y) = .ok (.float64 y) ∧
        ¬ Packed.Reordered (.float64 y) (.float64 x)) ∧
      (let d : Descriptor := Nat.repeat .list 128 .unit
        let w : Packed := Nat.repeat (fun w => .array [w]) 128 .nil
        let v : Value := Nat.repeat (fun v => .seq [v]) 128 .nil
        d.decode w = .ok v ∧ d.isPlain = true ∧ v.isFinite = true ∧ v.isDistinct = true ∧
          ∃ e, Command.readArguments 0 [d] [Output.value .json v] = .error e) := by
  constructor
  · intro x y
    have finite : x.isFinite = true := by decide +kernel
    have shown : (Value.float x).toJson = .float x := Value.ofFloat_finite finite
    have text : (Json.float x).text = "21.652278673674058" := by decide +kernel
    have printed : Output.value .json (.float x) = "21.652278673674058\n" := by
      rw [Output.value, Output.line, shown, text]
      rfl
    have other : x.reread = y := by decide +kernel
    have read : Json.parse (Output.value .json (.float x)) = .ok (.float y) := by
      have nested : (Value.float x).toJson.nesting ≤ Json.maxDepth := by
        rw [shown]
        exact Nat.zero_le _
      have taken := Json.parse_own_text (Value.toJson_finite (.float x)) (Value.toJson_listed (.float x)) nested
      rw [shown, Json.refloat, other] at taken
      rw [Output.value, shown]
      exact taken
    have told (a b : Binary64) (same : Packed.Reordered (.float64 a) (.float64 b)) : a = b := by
      cases same
      rfl
    have differ : y ≠ x := by decide +kernel
    exact ⟨rfl, rfl, finite, rfl, printed, Command.readArguments_cons read rfl rfl, rfl, rfl,
      fun same => differ (told y x same)⟩
  · intro d w v
    have decoded (n : Nat) : (Nat.repeat Descriptor.list n .unit).decode (Nat.repeat (fun w => .array [w]) n .nil) =
        .ok (Nat.repeat (fun v => .seq [v]) n .nil) := by
      induction n with
      | zero => rfl
      | succ n ih => exact decode_list.mpr ⟨[_], [_], rfl, mapItems_eq_ok.mpr (.cons ih .nil), rfl⟩
    have deep : Json.maxDepth < v.toJson.nesting := by decide +kernel
    obtain ⟨e, failed⟩ := Json.parse_deep v.toJson_finite v.toJson_listed deep
    exact ⟨decoded 128, by decide +kernel, by decide +kernel, by decide +kernel, _, Command.readArguments_error failed⟩

end Descriptor

end PackRpc
