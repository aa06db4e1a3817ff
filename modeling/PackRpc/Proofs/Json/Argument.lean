import PackRpc.Json.Argument
import PackRpc.Proofs.Descriptor.RoundTrip

namespace PackRpc.Json

variable {record : String} {d : Descriptor} {fields : List (String × Descriptor)} {ds : List Descriptor}
  {members : List (String × Json)} {js : List Json} {vs : List Value}

theorem eachItem_cons {α β ε : Type} {f : α → Except ε β} {a : α} {as : List α} {r : List β} :
    eachItem f (a :: as) = .ok r ↔ ∃ b bs, f a = .ok b ∧ eachItem f as = .ok bs ∧ b :: bs = r := by
  rw [eachItem]
  cases f a <;> cases eachItem f as <;> simp

theorem eachItem_eq_ok {α β ε : Type} {f : α → Except ε β} {as : List α} {bs : List β} :
    eachItem f as = .ok bs ↔ List.Forall₂ (fun a b => f a = .ok b) as bs := by
  induction as generalizing bs with
  | nil => simp [eachItem, eq_comm]
  | cons a as ih =>
      rw [eachItem_cons, List.forall₂_cons_left_iff]
      simp only [ih, eq_comm]

theorem toArguments_cons {j : Json} {r : List Value} : toArguments (d :: ds) (j :: js) = .ok r ↔
    ∃ v vs, toArgument d j = .ok v ∧ toArguments ds js = .ok vs ∧ v :: vs = r := by
  rw [toArguments]
  cases toArgument d j with
  | error e => simp
  | ok v => simp [Except.map_eq_ok]

theorem ofMembers_cons {field : String} {r : List Value} :
    ofMembers record ((field, d) :: fields) members = .ok r ↔
      ∃ j v vs, members.lookup field = some j ∧ toArgument d j = .ok v ∧
        ofMembers record fields (without field members) = .ok vs ∧ v :: vs = r := by
  rw [ofMembers]
  cases members.lookup field with
  | none => simp
  | some j =>
      cases taken : toArgument d j with
      | error e => simp [taken]
      | ok v => simp [taken, Except.map_eq_ok]

/-- Among members with different names, each is found under its name. -/
theorem lookup_of_mem (distinct : (members.map Prod.fst).Nodup) {name : String} {j : Json}
    (listed : (name, j) ∈ members) : members.lookup name = some j := by
  induction members with
  | nil => cases listed
  | cons m members ih =>
      obtain ⟨new, others⟩ := List.nodup_cons.mp distinct
      rcases List.mem_cons.mp listed with rfl | inside
      · exact List.lookup_cons_self
      · have other : (name == m.1) = false := by
          refine beq_eq_false_iff_ne.mpr fun same => new ?_
          exact List.mem_map.mpr ⟨(name, j), inside, same⟩
        rw [List.lookup_cons, other]
        exact ih others inside

theorem without_cons {name : String} (new : name ∉ members.map Prod.fst) (j : Json) :
    without name ((name, j) :: members) = members := by
  rw [without, List.filter_cons_of_neg (by simp)]
  refine List.filter_eq_self.mpr fun m hm => bne_iff_ne.mpr ?_
  rintro rfl
  exact new (List.mem_map_of_mem hm)

theorem toFields_eq (fields : List (String × Descriptor)) (js : List Json) :
    toFields fields js = toArguments (fields.map Prod.snd) js := by
  induction fields generalizing js with
  | nil => cases js <;> rfl
  | cons field fields ih =>
      cases js with
      | nil => rfl
      | cons j js => rw [toFields, ih, List.map_cons, toArguments]

/-- Fields with different names take the same values and fail in the same way wherever their members stand. -/
theorem ofMembers_perm (record : String) (distinct : (fields.map Prod.fst).Nodup)
    (size : fields.length = js.length) (order : members.Perm ((fields.map Prod.fst).zip js)) :
    ofMembers record fields members = toArguments (fields.map Prod.snd) js := by
  induction fields generalizing members js with
  | nil =>
      obtain rfl : members = [] := order.eq_nil
      cases js with
      | nil => rfl
      | cons j js => cases size
  | cons field fields ih =>
      cases js with
      | nil => cases size
      | cons j js =>
          obtain ⟨name, d⟩ := field
          obtain ⟨new, others⟩ := List.nodup_cons.mp distinct
          have names : ((fields.map Prod.fst).zip js).map Prod.fst = fields.map Prod.fst :=
            List.map_fst_zip (by simpa using (Nat.succ.inj size).le)
          have listed : (members.map Prod.fst).Nodup := by
            rw [(order.map Prod.fst).nodup_iff, List.map_cons, List.zip_cons_cons, List.map_cons, names]
            exact distinct
          have found : members.lookup name = some j :=
            lookup_of_mem listed (order.mem_iff.mpr List.mem_cons_self)
          -- What is left of the members is what is left of the fields.
          have left : (without name members).Perm (without name ((name, j) :: (fields.map Prod.fst).zip js)) :=
            order.filter _
          rw [without_cons (names.symm ▸ new)] at left
          simp only [ofMembers, found, List.map_cons, toArguments, ih others (Nat.succ.inj size) left]

theorem byte?_ofNat (b : UInt8) : byte? (.ofNat b.toNat) = some b := by
  have small : b.toNat < 256 := b.toNat_lt
  have number : (PackedInt.ofUInt64 (.ofNat b.toNat)).val = b.toNat :=
    congrArg Nat.cast (UInt64.toNat_ofNat_of_lt' (Nat.lt_trans small (by decide)))
  rw [ofNat, byte?, number, if_pos (by omega), Int.toNat_natCast, UInt8.ofNat_toNat]

theorem toBytes_rendered (data : Bytes) : toBytes (data.map fun b => .ofNat b.toNat) = .ok data := by
  induction data with
  | nil => rfl
  | cons b data ih =>
      rw [List.map_cons, toBytes, byte?_ofNat, ih]
      rfl

theorem recordValue_eq (type : RecordType) (values : List Value) :
    recordValue type values = .record type values ∨ recordValue type values = .seq values := by
  rw [recordValue, RecordType.record]
  cases type.descriptor.encode (.seq values) with
  | ok w => exact .inl rfl
  | error e => exact .inr rfl

theorem toArgument_nullable {inner : Descriptor} {j : Json} (full : j ≠ .null) :
    toArgument (.nullable inner) j = toArgument inner j := by
  cases j with
  | null => exact absurd rfl full
  | _ => rfl

theorem toArgument_map {key value : Descriptor} {v : Value} :
    toArgument (.map key value) (.object members) = .ok v ↔
      ∃ entries : List (Value × Value), List.Forall₂ (fun m e => toKey (toArgument key) key m.1 = .ok e.1 ∧
        toArgument value m.2 = .ok e.2) members entries ∧ Value.map entries = v := by
  rw [toArgument, Except.map_eq_ok]
  simp only [eachItem_eq_ok]
  refine exists_congr fun entries => and_congr_left fun _ => ?_
  refine ⟨List.Forall₂.imp fun m e taken => ?_, List.Forall₂.imp fun m e taken => ?_⟩
  · cases keyed : toKey (toArgument key) key m.1 with
    | error e => simp [keyed] at taken
    | ok k =>
        simp only [keyed] at taken
        obtain ⟨u, inside, rfl⟩ := Except.map_eq_ok.mp taken
        exact ⟨rfl, inside⟩
  · rw [taken.1, taken.2]
    rfl

end PackRpc.Json
