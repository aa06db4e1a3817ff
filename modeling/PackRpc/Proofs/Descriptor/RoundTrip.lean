import PackRpc.Descriptor.Decoding
import PackRpc.Proofs.Descriptor.Levels
import PackRpc.Proofs.Value.Equality

namespace PackRpc

theorem Except.map_eq_ok {ε α β : Type} {f : α → β} {r : Except ε α} {b : β} :
    r.map f = .ok b ↔ ∃ a, r = .ok a ∧ f a = b := by
  cases r <;> simp [Except.map]

theorem mapItems_cons {α β C : Type} {f : α → Except (Located C) β} {i : Nat} {a : α} {as : List α}
    {r : List β} :
    mapItems f i (a :: as) = .ok r ↔ ∃ b bs, f a = .ok b ∧ mapItems f (i + 1) as = .ok bs ∧ b :: bs = r := by
  rw [mapItems]
  cases f a <;> cases mapItems f (i + 1) as <;> simp

theorem mapEntries_cons {α β C : Type} {f g : α → Except (Located C) β} {i : Nat} {e : α × α}
    {entries : List (α × α)} {r : List (β × β)} :
    mapEntries f g i (e :: entries) = .ok r ↔
      ∃ key value rest, f e.1 = .ok key ∧ g e.2 = .ok value ∧
        mapEntries f g (i + 1) entries = .ok rest ∧ (key, value) :: rest = r := by
  rw [mapEntries]
  cases f e.1 with
  | error e => simp
  | ok key =>
      cases g e.2 with
      | error e => simp
      | ok value => cases mapEntries f g (i + 1) entries <;> simp

theorem mapItems_eq_ok {α β C : Type} {f : α → Except (Located C) β} {i : Nat} {as : List α} {bs : List β} :
    mapItems f i as = .ok bs ↔ List.Forall₂ (fun a b => f a = .ok b) as bs := by
  induction as generalizing i bs with
  | nil => simp [mapItems, eq_comm]
  | cons a as ih =>
      rw [mapItems_cons, List.forall₂_cons_left_iff]
      simp only [ih, eq_comm]

theorem mapEntries_eq_ok {α β C : Type} {f g : α → Except (Located C) β} {i : Nat} {as : List (α × α)}
    {bs : List (β × β)} :
    mapEntries f g i as = .ok bs ↔
      List.Forall₂ (fun a b => f a.1 = .ok b.1 ∧ g a.2 = .ok b.2) as bs := by
  induction as generalizing i bs with
  | nil => simp [mapEntries, eq_comm]
  | cons a as ih =>
      rw [mapEntries_cons, List.forall₂_cons_left_iff]
      simp only [ih, Prod.exists, and_assoc, eq_comm]

section
variable {α β γ C D : Type} {f f' : α → Except (Located C) β} {g g' : β → Except (Located D) γ}

/-- If a second function undoes the first up to a relation for each item, so it does for the list. -/
theorem mapItems_survive {same : γ → α → Prop} {as : List α} {bs : List β}
    (h : ∀ a ∈ as, ∀ b, f a = .ok b → ∃ c, g b = .ok c ∧ same c a) {i : Nat} (j : Nat)
    (mapped : mapItems f i as = .ok bs) : ∃ cs, mapItems g j bs = .ok cs ∧ List.Forall₂ same cs as := by
  simp only [mapItems_eq_ok] at mapped ⊢
  induction mapped with
  | nil => exact ⟨[], .nil, .nil⟩
  | cons first _ ih =>
      obtain ⟨hfirst, hothers⟩ := List.forall_mem_cons.mp h
      obtain ⟨c, back, hc⟩ := hfirst _ first
      obtain ⟨cs, backs, hcs⟩ := ih hothers
      exact ⟨c :: cs, .cons back backs, .cons hc hcs⟩

theorem mapEntries_survive (same same' : γ → α → Prop) {entries : List (α × α)} {packed : List (β × β)}
    (h : ∀ e ∈ entries, (∀ b, f e.1 = .ok b → ∃ c, g b = .ok c ∧ same c e.1) ∧
      ∀ b, f' e.2 = .ok b → ∃ c, g' b = .ok c ∧ same' c e.2) {i : Nat} (j : Nat)
    (mapped : mapEntries f f' i entries = .ok packed) :
    ∃ back, mapEntries g g' j packed = .ok back ∧
      List.Forall₂ (fun a b => same a.1 b.1 ∧ same' a.2 b.2) back entries := by
  simp only [mapEntries_eq_ok] at mapped ⊢
  induction mapped with
  | nil => exact ⟨[], .nil, .nil⟩
  | cons first _ ih =>
      obtain ⟨⟨keys, values⟩, hothers⟩ := List.forall_mem_cons.mp h
      obtain ⟨k, kback, ksame⟩ := keys _ first.1
      obtain ⟨v, vback, vsame⟩ := values _ first.2
      obtain ⟨back, backs, sames⟩ := ih hothers
      exact ⟨(k, v) :: back, .cons ⟨kback, vback⟩ backs, .cons ⟨ksame, vsame⟩ sames⟩

end

namespace Descriptor

mutual

/-- Whether every integer that stands where a float is declared equals the float that it becomes. -/
def floatsExact : Descriptor → Value → Bool
  | .float, v => v.integer?.all fun n => (Value.float (.ofInt n)).same v
  | .tuple items, .seq values => floatsExactItems items values
  | .record _ fields, .seq values => floatsExactFields fields values
  | .record _ fields, .record _ values => floatsExactFields fields values
  | .nullable inner, v => floatsExact inner v
  | .list element, .seq values => values.all (floatsExact element)
  | .map key value, .map entries => entries.all fun e => floatsExact key e.1 && floatsExact value e.2
  | _, _ => true

def floatsExactItems : List Descriptor → List Value → Bool
  | d :: ds, v :: vs => floatsExact d v && floatsExactItems ds vs
  | _, _ => true

def floatsExactFields : List (String × Descriptor) → List Value → Bool
  | (_, d) :: fields, v :: vs => floatsExact d v && floatsExactFields fields vs
  | _, _ => true

end

theorem floatsExactFields_eq (fields : List (String × Descriptor)) (values : List Value) :
    floatsExactFields fields values = floatsExactItems (fields.map Prod.snd) values := by
  induction fields generalizing values with
  | nil => simp [floatsExactFields, floatsExactItems]
  | cons field fields ih => cases values <;> simp [floatsExactFields, floatsExactItems, ih]

section
variable {i : Nat} {name : String} {d : Descriptor} {ds : List Descriptor}
  {fields : List (String × Descriptor)} {v : Value} {vs : List Value} {w : Packed} {ws : List Packed}

theorem encodeItems_cons {r : List Packed} : encodeItems i (d :: ds) (v :: vs) = .ok r ↔
    ∃ w ws, d.encode v = .ok w ∧ encodeItems (i + 1) ds vs = .ok ws ∧ w :: ws = r := by
  rw [encodeItems]
  cases d.encode v <;> cases encodeItems (i + 1) ds vs <;> simp

theorem encodeFields_cons {r : List Packed} : encodeFields ((name, d) :: fields) (v :: vs) = .ok r ↔
    ∃ w ws, d.encode v = .ok w ∧ encodeFields fields vs = .ok ws ∧ w :: ws = r := by
  rw [encodeFields]
  cases d.encode v <;> cases encodeFields fields vs <;> simp

theorem decodeItems_cons {r : List Value} : decodeItems i (d :: ds) (w :: ws) = .ok r ↔
    ∃ v vs, d.decode w = .ok v ∧ decodeItems (i + 1) ds ws = .ok vs ∧ v :: vs = r := by
  rw [decodeItems]
  cases d.decode w <;> cases decodeItems (i + 1) ds ws <;> simp

theorem decodeFields_cons {r : List Value} : decodeFields ((name, d) :: fields) (w :: ws) = .ok r ↔
    ∃ v vs, d.decode w = .ok v ∧ decodeFields fields ws = .ok vs ∧ v :: vs = r := by
  rw [decodeFields]
  cases d.decode w <;> cases decodeFields fields ws <;> simp

/-- Fields differ from items only in how their errors are located. -/
theorem encodeFields_eq_ok (i : Nat) : encodeFields fields vs = .ok ws ↔
    encodeItems i (fields.map Prod.snd) vs = .ok ws := by
  induction fields generalizing i vs ws with
  | nil => rfl
  | cons field fields ih =>
      cases vs with
      | nil => rfl
      | cons v vs =>
          rw [encodeFields_cons, List.map_cons, encodeItems_cons]
          simp only [ih (i + 1)]

theorem decodeFields_eq_ok (i : Nat) : decodeFields fields ws = .ok vs ↔
    decodeItems i (fields.map Prod.snd) ws = .ok vs := by
  induction fields generalizing i vs ws with
  | nil => rfl
  | cons field fields ih =>
      cases ws with
      | nil => rfl
      | cons w ws =>
          rw [decodeFields_cons, List.map_cons, decodeItems_cons]
          simp only [ih (i + 1)]

theorem ofArity_eq_ok {α C : Type} {mismatch : Nat → Nat → C} {expected found : Nat}
    {next : Except (Located C) α} {a : α} :
    ofArity mismatch expected found next = .ok a ↔ expected = found ∧ next = .ok a := by
  unfold ofArity
  split <;> simp_all

theorem encode_tuple {items : List Descriptor} : (Descriptor.tuple items).encode v = .ok w ↔
    ∃ values ws, v = .seq values ∧ items.length = values.length ∧
      encodeItems 0 items values = .ok ws ∧ Packed.array ws = w := by
  constructor
  · intro h
    cases v with
    | seq values =>
        obtain ⟨size, packed⟩ := ofArity_eq_ok.mp h
        obtain ⟨ws, inside, rfl⟩ := Except.map_eq_ok.mp packed
        exact ⟨values, ws, rfl, size, inside, rfl⟩
    | _ => cases h
  · rintro ⟨values, ws, rfl, size, inside, rfl⟩
    exact ofArity_eq_ok.mpr ⟨size, Except.map_eq_ok.mpr ⟨ws, inside, rfl⟩⟩

theorem recordItems_eq_ok : recordItems name fields v = .ok vs ↔
    v = .seq vs ∨ v = .record ⟨name, fields⟩ vs := by
  cases v with
  | seq items => simp [recordItems]
  | record type values =>
      by_cases same : type = ⟨name, fields⟩
      · simp [recordItems, same]
      · simp [recordItems, same]
  | _ => simp [recordItems]

/-- A record is encoded as the sequence of its values would be. -/
theorem encode_record : (Descriptor.record name fields).encode v = .ok w ↔
    ∃ values ws, (v = .seq values ∨ v = .record ⟨name, fields⟩ values) ∧
      fields.length = values.length ∧ encodeFields fields values = .ok ws ∧ Packed.array ws = w := by
  have unfolded : (Descriptor.record name fields).encode v =
      (recordItems name fields v).bind fun values =>
        ofArity .arityMismatch fields.length values.length
          ((encodeFields fields values).map Packed.array) := by
    rw [encode]
    cases recordItems name fields v <;> rfl
  rw [unfolded]
  constructor
  · intro h
    cases given : recordItems name fields v with
    | error e =>
        rw [given] at h
        cases h
    | ok values =>
        rw [given] at h
        obtain ⟨size, packed⟩ := ofArity_eq_ok.mp h
        obtain ⟨ws, inside, rfl⟩ := Except.map_eq_ok.mp packed
        exact ⟨values, ws, recordItems_eq_ok.mp given, size, inside, rfl⟩
  · rintro ⟨values, ws, given, size, inside, rfl⟩
    rw [recordItems_eq_ok.mpr given]
    exact ofArity_eq_ok.mpr ⟨size, Except.map_eq_ok.mpr ⟨ws, inside, rfl⟩⟩

theorem encode_list {element : Descriptor} : (Descriptor.list element).encode v = .ok w ↔
    ∃ values ws, v = .seq values ∧ mapItems element.encode 0 values = .ok ws ∧ Packed.array ws = w := by
  constructor
  · intro h
    cases v with
    | seq values =>
        obtain ⟨ws, inside, rfl⟩ := Except.map_eq_ok.mp h
        exact ⟨values, ws, rfl, inside, rfl⟩
    | _ => cases h
  · rintro ⟨values, ws, rfl, inside, rfl⟩
    exact Except.map_eq_ok.mpr ⟨ws, inside, rfl⟩

theorem encode_map {key value : Descriptor} : (Descriptor.map key value).encode v = .ok w ↔
    ∃ entries packed, v = .map entries ∧
      mapEntries key.encode value.encode 0 entries = .ok packed ∧ Packed.map packed = w := by
  constructor
  · intro h
    cases v with
    | map entries =>
        obtain ⟨packed, inside, rfl⟩ := Except.map_eq_ok.mp h
        exact ⟨entries, packed, rfl, inside, rfl⟩
    | _ => cases h
  · rintro ⟨entries, packed, rfl, inside, rfl⟩
    exact Except.map_eq_ok.mpr ⟨packed, inside, rfl⟩

theorem encode_int {signed : Bool} {width : IntWidth} : (Descriptor.int signed width).encode v = .ok w ↔
    ∃ n, v.integer? = some n ∧ width.holds signed n = true ∧ v.toPacked = w := by
  rw [encode]
  cases v.integer? with
  | none => simp
  | some n => cases held : width.holds signed n <;> simp [held]

theorem encode_float : Descriptor.float.encode v = .ok w ↔
    ∃ x, v.float? = some x ∧ Packed.float64 x = w := by
  rw [encode]
  cases v.float? <;> simp

theorem encode_nullable {inner : Descriptor} : (Descriptor.nullable inner).encode v =
    if v.isNil then .ok .nil else inner.encode v := rfl

theorem isNil_of_encode (h : d.encode v = .ok .nil) : v.isNil = true := by
  induction d using Descriptor.induction with
  | bool | string | raw => cases v <;> cases h
  | int signed width =>
      obtain ⟨n, number, -, packed⟩ := encode_int.mp h
      obtain ⟨m, form, -⟩ := Value.toPacked_of_integer number
      rw [form] at packed
      cases packed
  | float =>
      obtain ⟨x, -, packed⟩ := encode_float.mp h
      cases packed
  | tuple items =>
      obtain ⟨values, ws, -, -, -, packed⟩ := encode_tuple.mp h
      cases packed
  | record name fields =>
      obtain ⟨values, ws, -, -, -, packed⟩ := encode_record.mp h
      cases packed
  | nullable inner ih =>
      rw [encode_nullable] at h
      split at h
      · next isNil => exact isNil
      · exact ih h
  | list element =>
      obtain ⟨values, ws, -, -, packed⟩ := encode_list.mp h
      cases packed
  | map key value =>
      obtain ⟨entries, packed, -, -, form⟩ := encode_map.mp h
      cases form
  | object =>
      cases v with
      | nil => rfl
      | _ => cases h
  | unit =>
      cases v with
      | nil => rfl
      | _ => cases h

end

/-- What is encoded under the descriptor is decoded to an equal value. -/
def Survives (d : Descriptor) : Prop :=
  ∀ v w, v.nanFree = true → d.floatsExact v = true → d.encode v = .ok w →
    ∃ u, d.decode w = .ok u ∧ u.same v = true

theorem encodeItems_survive {ds : List Descriptor} {vs : List Value} {ws : List Packed}
    (h : ∀ d ∈ ds, d.Survives) (size : ds.length = vs.length)
    (numbers : ∀ v ∈ vs, v.nanFree = true) (exact : floatsExactItems ds vs = true) {i : Nat} (j : Nat)
    (encoded : encodeItems i ds vs = .ok ws) :
    ds.length = ws.length ∧ ∃ us, decodeItems j ds ws = .ok us ∧ Value.sameItems us vs = true := by
  induction ds generalizing vs ws i j with
  | nil =>
      cases vs with
      | nil =>
          cases encoded
          exact ⟨rfl, [], rfl, rfl⟩
      | cons v vs => cases size
  | cons d ds ih =>
      cases vs with
      | nil => cases size
      | cons v vs =>
          obtain ⟨w, ws, first, others, rfl⟩ := encodeItems_cons.mp encoded
          obtain ⟨hd, hds⟩ := List.forall_mem_cons.mp h
          obtain ⟨number, numbers⟩ := List.forall_mem_cons.mp numbers
          rw [floatsExactItems, Bool.and_eq_true] at exact
          obtain ⟨u, back, same⟩ := hd v w number exact.1 first
          obtain ⟨length, us, backs, sames⟩ :=
            ih hds (Nat.succ.inj size) numbers exact.2 (j + 1) others
          refine ⟨congrArg Nat.succ length, u :: us, decodeItems_cons.mpr ⟨u, us, back, backs, rfl⟩, ?_⟩
          rw [Value.sameItems, same, sames, Bool.and_self]

theorem tuple_survives {items : List Descriptor} (ih : ∀ d ∈ items, d.Survives) :
    (tuple items).Survives := by
  intro v w numbers exact encoded
  obtain ⟨values, ws, rfl, size, inside, rfl⟩ := encode_tuple.mp encoded
  obtain ⟨length, us, back, same⟩ :=
    encodeItems_survive ih size (Value.nanFreeItems_iff.mp numbers) exact 0 inside
  exact ⟨.seq us, ofArity_eq_ok.mpr ⟨length, Except.map_eq_ok.mpr ⟨us, back, rfl⟩⟩, same⟩

theorem record_survives {name : String} {fields : List (String × Descriptor)}
    (ih : ∀ d ∈ fields.map Prod.snd, d.Survives) : (record name fields).Survives := by
  intro v w numbers exact encoded
  obtain ⟨values, ws, given, size, inside, rfl⟩ := encode_record.mp encoded
  have number : ∀ v ∈ values, v.nanFree = true := by
    rcases given with rfl | rfl <;> exact Value.nanFreeItems_iff.mp numbers
  have exactItems : floatsExactItems (fields.map Prod.snd) values = true := by
    rw [← floatsExactFields_eq]
    rcases given with rfl | rfl <;> exact exact
  rw [encodeFields_eq_ok 0] at inside
  rw [← List.length_map (f := Prod.snd)] at size
  obtain ⟨length, us, back, same⟩ := encodeItems_survive ih size number exactItems 0 inside
  rw [← decodeFields_eq_ok] at back
  rw [List.length_map] at length
  have decoded : (record name fields).decode (.array ws) = .ok (.record ⟨name, fields⟩ us) :=
    ofArity_eq_ok.mpr ⟨length, Except.map_eq_ok.mpr ⟨us, back, rfl⟩⟩
  refine ⟨.record ⟨name, fields⟩ us, decoded, ?_⟩
  rcases given with rfl | rfl
  · exact same
  · rw [Value.same_record, same]

theorem lt_of_holds {width : IntWidth} {n : Int} (h : width.holds true n = true) : n < 2 ^ 63 := by
  have le : n ≤ width.greatest true := (of_decide_eq_true h).2
  cases width <;> simp [IntWidth.greatest, IntWidth.bits, IntWidth.bytes] at le <;> omega

theorem nonneg_of_holds {width : IntWidth} {n : Int} (h : width.holds false n = true) : 0 ≤ n :=
  (of_decide_eq_true h).1

theorem int_survives (signed : Bool) (width : IntWidth) : (int signed width).Survives := by
  intro v w _ _ encoded
  obtain ⟨n, number, held, rfl⟩ := encode_int.mp encoded
  obtain ⟨m, form, rfl⟩ := Value.toPacked_of_integer number
  rw [form]
  refine ⟨_, if_pos held, Value.same_of_integer ?_ number⟩
  cases signed with
  | true => exact Value.ofInt_integer m.ge (lt_of_holds held)
  | false => exact Value.ofNat_integer (nonneg_of_holds held) m.lt

theorem float_survives : float.Survives := by
  intro v w numbers exact encoded
  obtain ⟨x, number, rfl⟩ := encode_float.mp encoded
  refine ⟨.float x, rfl, ?_⟩
  cases v with
  | float y =>
      cases number
      exact Binary64.same_self (Value.isNaN_of_nanFree numbers)
  | int n | uint n =>
      cases number
      exact exact
  | _ => cases number

theorem nullable_survives {inner : Descriptor} (ih : inner.Survives) : (nullable inner).Survives := by
  intro v w numbers exact encoded
  rw [encode_nullable] at encoded
  split at encoded
  · next isNil =>
      cases encoded
      cases v with
      | nil => exact ⟨.nil, rfl, rfl⟩
      | _ => cases isNil
  · next full =>
      obtain ⟨u, back, same⟩ := ih v w numbers exact encoded
      refine ⟨u, ?_, same⟩
      cases w with
      | nil => exact absurd (isNil_of_encode encoded) full
      | _ => exact back

theorem list_survives {element : Descriptor} (ih : element.Survives) : (list element).Survives := by
  intro v w numbers exact encoded
  obtain ⟨values, ws, rfl, inside, rfl⟩ := encode_list.mp encoded
  have number := Value.nanFreeItems_iff.mp numbers
  have fits : ∀ v ∈ values, element.floatsExact v = true := List.all_eq_true.mp exact
  have each := fun v hv w => ih v w (number v hv) (fits v hv)
  obtain ⟨us, back, same⟩ := mapItems_survive each 0 inside
  exact ⟨.seq us, Except.map_eq_ok.mpr ⟨us, back, rfl⟩, Value.sameItems_iff.mpr same⟩

theorem map_survives {key value : Descriptor} (hkey : key.Survives) (hvalue : value.Survives) :
    (map key value).Survives := by
  intro v w numbers exact encoded
  obtain ⟨entries, packed, rfl, inside, rfl⟩ := encode_map.mp encoded
  have number := Value.nanFreeEntries_iff.mp numbers
  have fits : ∀ e ∈ entries, (key.floatsExact e.1 && value.floatsExact e.2) = true :=
    List.all_eq_true.mp exact
  simp only [Bool.and_eq_true] at fits
  have keys := fun e he w => hkey e.1 w (number e he).1 (fits e he).1
  have values := fun e he w => hvalue e.2 w (number e he).2 (fits e he).2
  obtain ⟨back, backs, same⟩ := mapEntries_survive (fun a b : Value => a.same b = true)
    (fun a b => a.same b = true) (fun e he => ⟨keys e he, values e he⟩) 0 inside
  exact ⟨.map back, Except.map_eq_ok.mpr ⟨back, backs, rfl⟩, Value.sameEntries_iff.mpr same⟩

theorem survives (d : Descriptor) : d.Survives := by
  induction d using Descriptor.induction with
  | bool =>
      intro v w _ _ encoded
      cases v with
      | bool b =>
          cases encoded
          exact ⟨.bool b, rfl, beq_self_eq_true b⟩
      | _ => cases encoded
  | int signed width => exact int_survives signed width
  | float => exact float_survives
  | string =>
      intro v w _ _ encoded
      cases v with
      | string text =>
          cases encoded
          exact ⟨.string text, rfl, beq_self_eq_true text⟩
      | _ => cases encoded
  | raw =>
      intro v w _ _ encoded
      cases v with
      | binary data =>
          cases encoded
          exact ⟨.binary data, rfl, beq_self_eq_true data⟩
      | _ => cases encoded
  | tuple items ih => exact tuple_survives ih
  | record name fields ih => exact record_survives ih
  | nullable inner ih => exact nullable_survives ih
  | list element ih => exact list_survives ih
  | map key value hkey hvalue => exact map_survives hkey hvalue
  | object =>
      intro v w numbers _ encoded
      cases encoded
      exact ⟨_, rfl, Value.ofPacked_toPacked v numbers⟩
  | unit =>
      intro v w _ _ encoded
      cases v with
      | nil => exact ⟨.nil, rfl, rfl⟩
      | _ => cases encoded

/-- A record is decoded as one of its type. -/
theorem decode_record {t : RecordType} {w : Packed} {u : Value} (h : t.descriptor.decode w = .ok u) :
    ∃ us, u = .record t us := by
  cases w with
  | array ws =>
      obtain ⟨us, -, rfl⟩ := Except.map_eq_ok.mp (ofArity_eq_ok.mp h).2
      exact ⟨us, rfl⟩
  | _ => cases h

mutual

/-- Whether a record of the declared type stands wherever a record is declared. -/
def isRecorded : Descriptor → Value → Bool
  | .tuple items, .seq values => isRecordedItems items values
  | .record name fields, .record type values => decide (type = ⟨name, fields⟩) && isRecordedFields fields values
  | .record .., _ => false
  | .nullable inner, v => v.isNil || isRecorded inner v
  | .list element, .seq values => values.all (isRecorded element)
  | .map key value, .map entries => entries.all fun e => isRecorded key e.1 && isRecorded value e.2
  | _, _ => true

def isRecordedItems : List Descriptor → List Value → Bool
  | d :: ds, v :: vs => isRecorded d v && isRecordedItems ds vs
  | _, _ => true

def isRecordedFields : List (String × Descriptor) → List Value → Bool
  | (_, d) :: fields, v :: vs => isRecorded d v && isRecordedFields fields vs
  | _, _ => true

end

theorem isRecordedFields_eq (fields : List (String × Descriptor)) (values : List Value) :
    isRecordedFields fields values = isRecordedItems (fields.map Prod.snd) values := by
  induction fields generalizing values with
  | nil => simp [isRecordedFields, isRecordedItems]
  | cons field fields ih => cases values <;> simp [isRecordedFields, isRecordedItems, ih]

theorem decodeItems_recorded {ds : List Descriptor} {ws : List Packed} {vs : List Value}
    (h : ∀ d ∈ ds, ∀ w v, d.decode w = .ok v → d.isRecorded v = true) {i : Nat}
    (decoded : decodeItems i ds ws = .ok vs) : isRecordedItems ds vs = true := by
  induction ds generalizing ws vs i with
  | nil => rfl
  | cons d ds ih =>
      cases ws with
      | nil =>
          cases decoded
          rfl
      | cons w ws =>
          obtain ⟨v, vs, first, others, rfl⟩ := decodeItems_cons.mp decoded
          obtain ⟨hd, hds⟩ := List.forall_mem_cons.mp h
          rw [isRecordedItems, hd w v first, ih hds others, Bool.and_self]

/-- What is decoded has records at all places where they are declared. -/
theorem decode_recorded (d : Descriptor) (w : Packed) (v : Value) (decoded : d.decode w = .ok v) :
    d.isRecorded v = true := by
  induction d using Descriptor.induction generalizing w v with
  | tuple items ih =>
      cases w with
      | array ws =>
          obtain ⟨vs, inside, rfl⟩ := Except.map_eq_ok.mp (ofArity_eq_ok.mp decoded).2
          exact decodeItems_recorded ih inside
      | _ => cases decoded
  | record name fields ih =>
      cases w with
      | array ws =>
          obtain ⟨vs, inside, rfl⟩ := Except.map_eq_ok.mp (ofArity_eq_ok.mp decoded).2
          rw [decodeFields_eq_ok 0] at inside
          rw [isRecorded, isRecordedFields_eq, decodeItems_recorded ih inside, Bool.and_true]
          exact decide_eq_true rfl
      | _ => cases decoded
  | nullable inner ih =>
      rw [isRecorded, Bool.or_eq_true]
      cases w with
      | nil =>
          cases decoded
          exact .inl rfl
      | _ => exact .inr (ih _ v decoded)
  | list element ih =>
      cases w with
      | array ws =>
          obtain ⟨vs, inside, rfl⟩ := Except.map_eq_ok.mp decoded
          refine List.all_eq_true.mpr fun v hv => ?_
          obtain ⟨w, -, first⟩ := exists_of_forall₂ (List.Forall₂.flip (mapItems_eq_ok.mp inside)) v hv
          exact ih w v first
      | _ => cases decoded
  | map key value hkey hvalue =>
      cases w with
      | map entries =>
          obtain ⟨vs, inside, rfl⟩ := Except.map_eq_ok.mp decoded
          refine List.all_eq_true.mpr fun e he => ?_
          obtain ⟨p, -, first, second⟩ := exists_of_forall₂ (List.Forall₂.flip (mapEntries_eq_ok.mp inside)) e he
          rw [hkey p.1 e.1 first, hvalue p.2 e.2 second, Bool.and_self]
      | _ => cases decoded
  | _ => rfl

/-- What a descriptor encodes it decodes to an equal value, if no float is a NaN and every integer that
stands where a float is declared equals the float that it becomes. A record may be given as a plain
sequence, at any place, and comes back as the record. -/
theorem decode_encode (d : Descriptor) (v : Value) (w : Packed) (encoded : d.encode v = .ok w)
    (numbers : v.nanFree = true) (exact : d.floatsExact v = true) :
    ∃ u, d.decode w = .ok u ∧ u.same v = true ∧ d.isRecorded u = true ∧
      ∀ t items, d = t.descriptor → v = .seq items →
        ∃ us, u = .record t us ∧ u.same (.record t items) = true := by
  obtain ⟨u, back, same⟩ := survives d v w numbers exact encoded
  refine ⟨u, back, same, decode_recorded d w u back, ?_⟩
  rintro t items rfl rfl
  obtain ⟨us, rfl⟩ := decode_record back
  refine ⟨us, rfl, ?_⟩
  rw [Value.same_record]
  exact same

/-- An entry given as a sequence, with an integer for its size and another sequence for the record in it. -/
theorem decode_encode_entry :
    let point : RecordType := ⟨"point", [("x", .int true .w8)]⟩
    let entry : RecordType :=
      ⟨"entry", [("at", point.descriptor), ("size", .nullable .float), ("tags", .list .object)]⟩
    let items : List Value := [.seq [.uint 4], .int (-3), .seq [.uint 7, .nil, .seq [.float ⟨0⟩]]]
    let w : Packed := .array [.array [.int (.ofUInt64 4)], .float64 (.ofInt (-3)),
      .array [.int (.ofUInt64 7), .nil, .array [.float64 ⟨0⟩]]]
    entry.descriptor.encode (.seq items) = .ok w ∧
      ∃ u, entry.descriptor.decode w = .ok u ∧ u.same (.seq items) = true ∧ entry.descriptor.isRecorded u = true ∧
        ∃ us, u = .record entry us ∧ u.same (.record entry items) = true := by
  intro point entry items w
  have encoded : entry.descriptor.encode (.seq items) = .ok w := rfl
  obtain ⟨u, back, same, recorded, record⟩ :=
    decode_encode entry.descriptor (.seq items) w encoded (by decide) (by decide)
  exact ⟨encoded, u, back, same, recorded, record entry items rfl rfl⟩

end Descriptor

end PackRpc
