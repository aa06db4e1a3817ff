import PackRpc.Proofs.Json.Argument
import PackRpc.Proofs.Json.Rendering
import PackRpc.Proofs.Json.Untyped

namespace PackRpc

namespace Value

mutual

/-- The value with the records that `keep` chooses; all others become the sequences of their values. -/
def loosen (keep : RecordType → List Value → Bool) : Value → Value
  | .seq items => .seq (loosenItems keep items)
  | .map entries => .map (loosenEntries keep entries)
  | .record type values =>
    if keep type values then .record type (loosenItems keep values) else .seq (loosenItems keep values)
  | v => v

def loosenItems (keep : RecordType → List Value → Bool) : List Value → List Value
  | [] => []
  | item :: items => loosen keep item :: loosenItems keep items

def loosenEntries (keep : RecordType → List Value → Bool) : List (Value × Value) → List (Value × Value)
  | [] => []
  | (key, value) :: entries => (loosen keep key, loosen keep value) :: loosenEntries keep entries

end

/-- The value with plain sequences in place of all records. -/
def positional : Value → Value := loosen fun _ _ => false

def isPositional (v : Value) : Bool := v.all fun u => u.recordType?.isNone

section
variable {keep : RecordType → List Value → Bool} {v : Value} {items : List Value}
  {entries : List (Value × Value)} {type : RecordType}

theorem loosenItems_eq (items : List Value) : loosenItems keep items = items.map (loosen keep) := by
  induction items with
  | nil => rfl
  | cons item items ih => rw [loosenItems, ih, List.map_cons]

theorem loosenEntries_eq (entries : List (Value × Value)) :
    loosenEntries keep entries = entries.map fun e => (e.1.loosen keep, e.2.loosen keep) := by
  induction entries with
  | nil => rfl
  | cons e entries ih => rw [loosenEntries, ih, List.map_cons]

theorem loosen_seq : (seq items).loosen keep = .seq (items.map (loosen keep)) := by
  rw [loosen, loosenItems_eq]

theorem loosen_map :
    (map entries).loosen keep = .map (entries.map fun e => (e.1.loosen keep, e.2.loosen keep)) := by
  rw [loosen, loosenEntries_eq]

theorem loosen_record : (record type items).loosen keep = .record type (items.map (loosen keep)) ∨
    (record type items).loosen keep = .seq (items.map (loosen keep)) := by
  rw [loosen, loosenItems_eq]
  by_cases kept : keep type items = true
  · exact .inl (if_pos kept)
  · exact .inr (if_neg kept)

theorem loosen_isNil (v : Value) : (v.loosen keep).isNil = v.isNil := by
  cases v with
  | record type items =>
      rw [loosen]
      split <;> rfl
  | _ => rfl

theorem positional_seq (items : List Value) : (seq items).positional = .seq (items.map positional) := by
  rw [positional, loosen_seq]

theorem positional_record (type : RecordType) (items : List Value) :
    (record type items).positional = .seq (items.map positional) := by
  rw [positional, loosen, if_neg Bool.false_ne_true, loosenItems_eq]

theorem positional_isPositional (v : Value) : v.positional.isPositional = true := by
  induction v using Value.induction with
  | seq items ih =>
      rw [positional_seq]
      exact all_seq.mpr ⟨rfl, List.forall_mem_map.mpr ih⟩
  | map entries ih =>
      rw [positional, loosen_map]
      exact all_map.mpr ⟨rfl, List.forall_mem_map.mpr ih⟩
  | record type items ih =>
      rw [positional_record]
      exact all_seq.mpr ⟨rfl, List.forall_mem_map.mpr ih⟩
  | _ => rfl

/-- There are no records in what is taken without a declared shape. -/
theorem loosen_toValue (j : Json) : j.toValue.loosen keep = j.toValue := by
  induction j using Json.induction with
  | int n =>
      rw [Json.toValue]
      cases n.toInt64? <;> rfl
  | array items ih =>
      rw [Json.toValue, loosen_seq, Json.toValues_eq, List.map_map]
      exact congrArg seq (List.map_congr_left ih)
  | object members ih =>
      rw [Json.toValue, loosen_map, Json.toMembers_eq, List.map_map]
      refine congrArg map (List.map_congr_left fun m hm => ?_)
      exact Prod.ext rfl (ih m hm)
  | _ => rfl

end

end Value

/-- A change that no item shows changes nothing in the list, and no error is found elsewhere. -/
theorem mapItems_map {α β C : Type} {f : α → Except (Located C) β} {g : α → α} {as : List α}
    (h : ∀ a ∈ as, f (g a) = f a) (i : Nat) : mapItems f i (as.map g) = mapItems f i as := by
  induction as generalizing i with
  | nil => rfl
  | cons a as ih =>
      obtain ⟨first, others⟩ := List.forall_mem_cons.mp h
      rw [List.map_cons, mapItems, mapItems, first, ih others]

theorem mapEntries_map {α β C : Type} {f f' : α → Except (Located C) β} {g : α → α} {entries : List (α × α)}
    (h : ∀ e ∈ entries, f (g e.1) = f e.1 ∧ f' (g e.2) = f' e.2) (i : Nat) :
    mapEntries f f' i (entries.map fun e => (g e.1, g e.2)) = mapEntries f f' i entries := by
  induction entries generalizing i with
  | nil => rfl
  | cons e entries ih =>
      obtain ⟨⟨key, value⟩, others⟩ := List.forall_mem_cons.mp h
      rw [List.map_cons, mapEntries, mapEntries, key, value, ih others]

namespace Descriptor

/-- Whatever is taken as an argument of the type is encoded as it would be with other records in it being
plain sequences. -/
def FormFree (keep : RecordType → List Value → Bool) (d : Descriptor) : Prop :=
  ∀ j v, Json.toArgument d j = .ok v → d.encode (v.loosen keep) = d.encode v

section
variable {keep : RecordType → List Value → Bool} {g : Value → Value} {d inner element key value : Descriptor}
  {name : String} {ds items : List Descriptor} {fields : List (String × Descriptor)} {j : Json} {js : List Json}
  {members : List (String × Json)} {v k : Value} {vs : List Value}

theorem encodeItems_map (h : List.Forall₂ (fun d v => d.encode (g v) = d.encode v) ds vs) (i : Nat) :
    encodeItems i ds (vs.map g) = encodeItems i ds vs := by
  induction h generalizing i with
  | nil => rfl
  | cons first _ ih => rw [List.map_cons, encodeItems, encodeItems, first, ih]

theorem encodeFields_map (h : List.Forall₂ (fun d v => d.encode (g v) = d.encode v) (fields.map Prod.snd) vs) :
    encodeFields fields (vs.map g) = encodeFields fields vs := by
  induction fields generalizing vs with
  | nil =>
      cases h
      rfl
  | cons field fields ih =>
      cases h with
      | cons first others => rw [List.map_cons, encodeFields, encodeFields, first, ih others]

/-- Both forms of a record are encoded through the list of its values. -/
theorem encode_recordForm (h : v = .record ⟨name, fields⟩ vs ∨ v = .seq vs) : (record name fields).encode v =
    ofArity .arityMismatch fields.length vs.length ((encodeFields fields vs).map Packed.array) := by
  rw [encode, recordItems_eq_ok.mpr h.symm]

theorem toArguments_formFree (ih : ∀ d ∈ ds, d.FormFree keep) (size : ds.length = js.length)
    (taken : Json.toArguments ds js = .ok vs) :
    List.Forall₂ (fun d v => d.encode (v.loosen keep) = d.encode v) ds vs := by
  induction ds generalizing js vs with
  | nil =>
      cases js with
      | nil =>
          cases taken
          exact .nil
      | cons j js => cases size
  | cons d ds ihs =>
      cases js with
      | nil => cases size
      | cons j js =>
          obtain ⟨hd, hds⟩ := List.forall_mem_cons.mp ih
          obtain ⟨v, vs, first, others, rfl⟩ := Json.toArguments_cons.mp taken
          exact .cons (hd j v first) (ihs hds (Nat.succ.inj size) others)

theorem ofMembers_formFree (ih : ∀ d ∈ fields.map Prod.snd, d.FormFree keep)
    (taken : Json.ofMembers name fields members = .ok vs) :
    List.Forall₂ (fun d v => d.encode (v.loosen keep) = d.encode v) (fields.map Prod.snd) vs := by
  induction fields generalizing members vs with
  | nil =>
      cases members with
      | nil =>
          cases taken
          exact .nil
      | cons m members => cases taken
  | cons field fields ihs =>
      obtain ⟨hd, hds⟩ := List.forall_mem_cons.mp ih
      obtain ⟨j, v, vs, -, first, others, rfl⟩ := Json.ofMembers_cons.mp taken
      exact .cons (hd j v first) (ihs hds others)

theorem toValue_formFree (d : Descriptor) (j : Json) : d.encode (j.toValue.loosen keep) = d.encode j.toValue := by
  rw [Value.loosen_toValue]

theorem tuple_formFree (ih : ∀ d ∈ items, d.FormFree keep) : (tuple items).FormFree keep := by
  intro j v taken
  cases j with
  | array js =>
      by_cases size : items.length = js.length
      · rw [Json.toArgument, if_pos size] at taken
        obtain ⟨vs, inside, rfl⟩ := Except.map_eq_ok.mp taken
        have same := encodeItems_map (toArguments_formFree ih size inside) 0
        rw [Value.loosen_seq, encode, encode, List.length_map, same]
      · rw [Json.toArgument, if_neg size] at taken
        cases taken
        exact toValue_formFree _ (.array js)
  | _ =>
      cases taken
      exact toValue_formFree _ _

theorem recordValue_formFree
    (each : List.Forall₂ (fun d v => d.encode (v.loosen keep) = d.encode v) (fields.map Prod.snd) vs) :
    (record name fields).encode ((Json.recordValue ⟨name, fields⟩ vs).loosen keep) =
      (record name fields).encode (Json.recordValue ⟨name, fields⟩ vs) := by
  have form := Json.recordValue_eq ⟨name, fields⟩ vs
  have loose : (Json.recordValue ⟨name, fields⟩ vs).loosen keep = .record ⟨name, fields⟩ (vs.map (.loosen keep)) ∨
      (Json.recordValue ⟨name, fields⟩ vs).loosen keep = .seq (vs.map (.loosen keep)) := by
    rcases form with h | h
    · rw [h]
      exact Value.loosen_record
    · rw [h]
      exact .inr Value.loosen_seq
  rw [encode_recordForm loose, encode_recordForm form, List.length_map, encodeFields_map each]

theorem record_formFree (ih : ∀ d ∈ fields.map Prod.snd, d.FormFree keep) :
    (record name fields).FormFree keep := by
  intro j v taken
  cases j with
  | array js =>
      by_cases size : fields.length = js.length
      · rw [Json.toArgument, if_pos size, Json.toFields_eq] at taken
        obtain ⟨vs, inside, rfl⟩ := Except.map_eq_ok.mp taken
        exact recordValue_formFree (toArguments_formFree ih (by rwa [List.length_map]) inside)
      · rw [Json.toArgument, if_neg size] at taken
        cases taken
        exact toValue_formFree _ (.array js)
  | object members =>
      rw [Json.toArgument] at taken
      obtain ⟨vs, inside, rfl⟩ := Except.map_eq_ok.mp taken
      exact recordValue_formFree (ofMembers_formFree ih inside)
  | _ =>
      cases taken
      exact toValue_formFree _ _

theorem nullable_formFree (ih : inner.FormFree keep) : (nullable inner).FormFree keep := by
  intro j v taken
  by_cases absent : j = .null
  · subst absent
    cases taken
    rfl
  · rw [Json.toArgument_nullable absent] at taken
    rw [encode_nullable, encode_nullable, Value.loosen_isNil, ih j v taken]

theorem list_formFree (ih : element.FormFree keep) : (list element).FormFree keep := by
  intro j v taken
  cases j with
  | array js =>
      rw [Json.toArgument] at taken
      obtain ⟨vs, inside, rfl⟩ := Except.map_eq_ok.mp taken
      have each : ∀ v ∈ vs, element.encode (v.loosen keep) = element.encode v := by
        intro v hv
        obtain ⟨j, -, first⟩ := exists_of_forall₂ (List.Forall₂.flip (Json.eachItem_eq_ok.mp inside)) v hv
        exact ih j v first
      rw [Value.loosen_seq, encode, encode, mapItems_map each]
  | _ =>
      cases taken
      exact toValue_formFree _ _

theorem toKey_formFree (ih : key.FormFree keep) (taken : Json.toKey (Json.toArgument key) key name = .ok k) :
    key.encode (k.loosen keep) = key.encode k := by
  cases key with
  | int signed width =>
      -- An integer has one form only.
      cases signed with
      | true =>
          rw [Json.toKey] at taken
          split at taken <;> cases taken
          rfl
      | false =>
          rw [Json.toKey] at taken
          split at taken <;> cases taken
          rfl
  | _ => exact ih (.string name) k taken

theorem map_formFree (ihk : key.FormFree keep) (ihv : value.FormFree keep) : (map key value).FormFree keep := by
  intro j v taken
  cases j with
  | object members =>
      obtain ⟨entries, inside, rfl⟩ := Json.toArgument_map.mp taken
      have each : ∀ e ∈ entries, key.encode (e.1.loosen keep) = key.encode e.1 ∧
          value.encode (e.2.loosen keep) = value.encode e.2 := by
        intro e he
        obtain ⟨m, -, first, second⟩ := exists_of_forall₂ inside.flip e he
        exact ⟨toKey_formFree ihk first, ihv m.2 e.2 second⟩
      rw [Value.loosen_map, encode, encode, mapEntries_map each]
  | _ =>
      cases taken
      exact toValue_formFree _ _

theorem formFree (keep : RecordType → List Value → Bool) (d : Descriptor) : d.FormFree keep := by
  induction d using Descriptor.induction with
  | raw =>
      intro j v taken
      cases j with
      | array items =>
          obtain ⟨data, -, rfl⟩ := Except.map_eq_ok.mp taken
          rfl
      | string text =>
          cases taken
          rfl
      | _ =>
          cases taken
          exact toValue_formFree _ _
  | tuple items ih => exact tuple_formFree ih
  | record name fields ih => exact record_formFree ih
  | nullable inner ih => exact nullable_formFree ih
  | list element ih => exact list_formFree ih
  | map key value ihk ihv => exact map_formFree ihk ihv
  | _ =>
      intro j v taken
      cases j <;> cases taken <;> exact toValue_formFree _ _

end

/-- Values for the fields of a record are taken alike, or refused alike, from an array of them and from an object
that gives them by the names of the fields. What is taken is a record or the sequence of its values; however
many of the records in it are plain sequences instead, it is encoded to the same or fails at the same place for
the same reason, and so does the sequence with no records in it at all. -/
theorem record_forms_agree (name : String) (fields : List (String × Descriptor)) (js : List Json)
    (members : List (String × Json)) (distinct : (fields.map Prod.fst).Nodup) (size : fields.length = js.length)
    (order : members.Perm ((fields.map Prod.fst).zip js)) :
    Json.toArgument (record name fields) (.object members) = Json.toArgument (record name fields) (.array js) ∧
      ∀ v, Json.toArgument (record name fields) (.array js) = .ok v →
        ∃ vs, Json.toArguments (fields.map Prod.snd) js = .ok vs ∧ (v = .record ⟨name, fields⟩ vs ∨ v = .seq vs) ∧
          (Value.seq (vs.map Value.positional)).isPositional = true ∧
          (record name fields).encode v = (record name fields).encode (.seq (vs.map Value.positional)) ∧
          ∀ keep, (record name fields).encode (v.loosen keep) = (record name fields).encode v := by
  have listed : Json.toArgument (record name fields) (.array js) =
      (Json.toArguments (fields.map Prod.snd) js).map (Json.recordValue ⟨name, fields⟩) := by
    rw [Json.toArgument, if_pos size, Json.toFields_eq]
  constructor
  · rw [listed, Json.toArgument, Json.ofMembers_perm name distinct size order]
  · intro v taken
    have free : ∀ keep, (record name fields).encode (v.loosen keep) = (record name fields).encode v :=
      fun keep => formFree keep _ _ v taken
    obtain ⟨vs, inside, rfl⟩ := Except.map_eq_ok.mp (listed ▸ taken)
    have form := Json.recordValue_eq ⟨name, fields⟩ vs
    have plain : (Json.recordValue ⟨name, fields⟩ vs).positional = .seq (vs.map Value.positional) := by
      rcases form with h | h <;> rw [h]
      · exact Value.positional_record _ vs
      · exact Value.positional_seq vs
    refine ⟨vs, inside, form, ?_, ?_, free⟩
    · rw [← Value.positional_seq]
      exact Value.positional_isPositional _
    · rw [← plain]
      exact (free _).symm

/-- Ends of a line by name and by position, one of which fits while the line does not. -/
theorem record_forms_agree_line :
    let point : RecordType := ⟨"point", [("x", .int true .w8), ("y", .int true .w8)]⟩
    let fields : List (String × Descriptor) :=
      [("from", point.descriptor), ("to", .nullable point.descriptor)]
    let js : List Json := [.object [("x", .ofNat 1), ("y", .ofNat 2)], .array [.ofNat 3, .ofNat 300]]
    let members : List (String × Json) :=
      [("to", .array [.ofNat 3, .ofNat 300]), ("from", .object [("x", .ofNat 1), ("y", .ofNat 2)])]
    let v : Value := .seq [.record point [.int 1, .int 2], .seq [.int 3, .int 300]]
    let failure : EncodeError := ⟨[.field "to", .field "y"], .outOfRange 300 true .w8⟩
    (fields.map Prod.fst).Nodup ∧ fields.length = js.length ∧ members.Perm ((fields.map Prod.fst).zip js) ∧
      Json.toArgument (record "line" fields) (.object members) = .ok v ∧
      (record "line" fields).encode v = .error failure ∧
      (record "line" fields).encode v.positional = .error failure := by
  intro point fields js members v failure
  have distinct : (fields.map Prod.fst).Nodup := by decide
  have order : members.Perm ((fields.map Prod.fst).zip js) := .swap _ _ _
  have taken : Json.toArgument (record "line" fields) (.array js) = .ok v := by rfl
  have refused : (record "line" fields).encode v = .error failure := by rfl
  obtain ⟨same, results⟩ := record_forms_agree "line" fields js members distinct rfl order
  obtain ⟨vs, -, -, -, -, free⟩ := results v taken
  exact ⟨distinct, rfl, order, same.trans taken, refused, (free _).trans refused⟩

end Descriptor

end PackRpc
