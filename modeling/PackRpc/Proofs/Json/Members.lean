import PackRpc.Proofs.Descriptor.Legible
import PackRpc.Proofs.Json.Feedback

namespace PackRpc

namespace Descriptor

/-- Whether different values of a type have different texts. -/
def tellsKeys (key : Descriptor) : Bool := key.isKey || key.isLegible

theorem same_of_told_text {key : Descriptor} {v u : Value} (tells : key.tellsKeys = true) (hv : key.Yields v)
    (hu : key.Yields u) (text : v.text = u.text) : v.same u = true := by
  rcases Bool.or_eq_true_iff.mp tells with keys | legible
  · obtain ⟨w, first⟩ := hv
    obtain ⟨x, second⟩ := hu
    exact same_of_text keys first second text
  · exact same_of_legible_text legible hv hu text

end Descriptor

namespace Value

def keyTexts (entries : List (Value × Value)) : List String := entries.map fun e => e.1.text

/-- The entries as they are rendered one by one. -/
def rendered (entries : List (Value × Value)) : List (String × Json) :=
  entries.map fun e => (e.1.text, e.2.toJson)

section
variable {entries : List (Value × Value)} {name : String} {j : Json}

theorem toJson_map (entries : List (Value × Value)) :
    (map entries).toJson = .object (OrderedMap.ofList (rendered entries)).entries := by
  rw [toJson, toObject, entriesToJson_eq, rendered]

theorem rendered_texts (entries : List (Value × Value)) : (rendered entries).map Prod.fst = keyTexts entries := by
  rw [rendered, List.map_map]
  rfl

/-- Of the entries whose keys have one text the last one is rendered. -/
theorem mem_members_iff : (name, j) ∈ (OrderedMap.ofList (rendered entries)).entries ↔
    ∃ before e after, entries = before ++ e :: after ∧ e.1.text = name ∧ e.2.toJson = j ∧
      ∀ d ∈ after, d.1.text ≠ name := by
  rw [OrderedMap.mem_ofList_iff]
  constructor
  · rintro ⟨earlier, later, split, others⟩
    obtain ⟨before, rest, rfl, -, split⟩ := List.map_eq_append_iff.mp split
    obtain ⟨e, after, rfl, here, rfl⟩ := List.map_eq_cons_iff.mp split
    obtain ⟨text, value⟩ := Prod.mk.inj here
    exact ⟨before, e, after, rfl, text, value, fun d hd => others _ (List.mem_map_of_mem hd)⟩
  · rintro ⟨before, e, after, rfl, rfl, rfl, others⟩
    refine ⟨rendered before, rendered after, ?_, List.forall_mem_map.mpr others⟩
    rw [rendered, List.map_append, List.map_cons]
    rfl

theorem members_length (entries : List (Value × Value)) :
    (OrderedMap.ofList (rendered entries)).entries.length = (keyTexts entries).dedup.length := by
  have keys := (OrderedMap.keys_ofList (rendered entries)).length_eq
  rwa [List.length_map, rendered_texts] at keys

/-- As many members as entries are there when no two keys have one text. -/
theorem members_length_eq_iff :
    (OrderedMap.ofList (rendered entries)).entries.length = entries.length ↔ (keyTexts entries).Nodup := by
  have size : entries.length = (keyTexts entries).length := (List.length_map _).symm
  rw [members_length, size]
  constructor
  · intro length
    rw [← List.dedup_eq_self]
    exact (List.dedup_sublist _).eq_of_length length
  · intro distinct
    rw [List.Nodup.dedup distinct]

end

/-- A map is rendered as an object whose members are listed by name. Each has the rendering of the last entry
among those whose keys have its name for a text, so that there are as many members as there are entries only if
no two keys have one text. This is so, and every entry is rendered, if different keys of the declared type have
different texts. -/
theorem toJson_map_members (entries : List (Value × Value)) :
    ∃ members, (map entries).toJson = .object members ∧ OrderedMap.Ascending members ∧
      (∀ name j, (name, j) ∈ members ↔ ∃ before e after, entries = before ++ e :: after ∧
        e.1.text = name ∧ e.2.toJson = j ∧ ∀ d ∈ after, d.1.text ≠ name) ∧
      members.length = (keyTexts entries).dedup.length ∧
      (members.length = entries.length ↔ (keyTexts entries).Nodup) ∧
      ∀ key value w, (Descriptor.map key value).decode w = .ok (map entries) → key.tellsKeys = true →
        entries.Pairwise (fun a b => a.1.same b.1 = false) → members.Perm (rendered entries) := by
  refine ⟨_, toJson_map entries, OrderedMap.ascending_ofList _, fun _ _ => mem_members_iff, members_length entries,
    members_length_eq_iff, fun key value w decoded tells differ => OrderedMap.ofList_perm ?_⟩
  obtain ⟨_, ⟨⟩, parts⟩ := Descriptor.yields_map ⟨w, decoded⟩
  rw [rendered_texts, keyTexts, List.Nodup, List.pairwise_map]
  refine differ.imp_of_mem fun {a b} ha hb different text => ?_
  rw [Descriptor.same_of_told_text tells (parts a ha).1 (parts b hb).1 text] at different
  cases different

/-- Points and nil as keys. -/
theorem toJson_map_members_points :
    let point : RecordType := ⟨"point", [("x", .int true .w16), ("y", .list .bool)]⟩
    let key : Descriptor := .nullable point.descriptor
    let w : Packed := .map [(.array [.ofInt (-1), .array [.bool true]], .str "a"), (.nil, .str "b"),
      (.array [.ofInt (-1), .array []], .str "c")]
    let entries : List (Value × Value) := [(.record point [.int (-1), .seq [.bool true]], .string "a"),
      (.nil, .string "b"), (.record point [.int (-1), .seq []], .string "c")]
    (Descriptor.map key .string).decode w = .ok (map entries) ∧ key.tellsKeys = true ∧
      entries.Pairwise (fun a b => a.1.same b.1 = false) ∧
      ∃ members, (map entries).toJson = .object members ∧ members.Perm (rendered entries) := by
  intro point key w entries
  have decoded : (Descriptor.map key .string).decode w = .ok (map entries) := by rfl
  have tells : key.tellsKeys = true := by decide +kernel
  have differ : entries.Pairwise (fun a b => a.1.same b.1 = false) := by decide
  obtain ⟨members, shown, -, -, -, -, complete⟩ := toJson_map_members entries
  exact ⟨decoded, tells, differ, members, shown, complete _ _ w decoded tells differ⟩

/-- Bytes of one length have one text, and of the entries under them only the last one is rendered. -/
theorem entry_replaced : ¬ ∀ key value w entries, (Descriptor.map key value).decode w = .ok (map entries) →
    entries.Pairwise (fun a b => a.1.same b.1 = false) →
    ∃ members, (map entries).toJson = .object members ∧ members.length = entries.length ∧
      (members.map Prod.snd).Perm (entries.map fun e => e.2.toJson) := by
  intro complete
  let w : Packed := .map [(.bin [1], .ofInt 1), (.bin [2], .ofInt 2)]
  let entries : List (Value × Value) := [(.binary [1], .int 1), (.binary [2], .int 2)]
  have decoded : (Descriptor.map .raw (.int true .w32)).decode w = .ok (map entries) := by rfl
  have differ : entries.Pairwise (fun a b => a.1.same b.1 = false) := by decide
  have same : (binary [1]).text ∈ keyTexts [(binary [2], int 2)] := List.mem_singleton.mpr rfl
  obtain ⟨members, shown, length, -⟩ := complete _ _ w entries decoded differ
  rw [toJson_map] at shown
  cases shown
  exact (List.nodup_cons.mp (members_length_eq_iff.mp length)).1 same

end Value

end PackRpc
