import PackRpc.Proofs.Message.Carriage

namespace PackRpc

theorem Except.bind_eq_ok {ε α β : Type} {x : Except ε α} {f : α → Except ε β} {b : β} :
    (x >>= f) = .ok b ↔ ∃ a, x = .ok a ∧ f a = .ok b := by
  cases x with
  | error e => simp [bind, Except.bind]
  | ok a => simp [bind, Except.bind]

namespace Packed

theorem uint64?_eq_some {v : Packed} {n : UInt64} : v.uint64? = some n ↔ v = .ofNat n.toNat := by
  constructor
  · intro h
    cases v with
    | int p =>
        simp only [uint64?, PackedInt.toUInt64?] at h
        split at h
        · next nonneg =>
          cases h
          have lt := p.lt
          rw [UInt64.toNat_ofNat_of_lt' (show p.val.toNat < 2 ^ 64 by omega), ofNat_toNat nonneg]
        · cases h
    | _ => cases h
  · rintro rfl
    rw [uint64?_ofNat n.toNat_lt, UInt64.ofNat_toNat]

theorem text?_eq_some {v : Packed} {text : String} :
    v.text? = some text ↔ v = .str text ∨ v = .bin (.ofText text) := by
  cases v with
  | str s => simp [text?]
  | bin data => simp [text?, Bytes.toText?_eq_some]
  | _ => simp [text?]

end Packed

namespace Message
open Packed (text?_eq_some uint64?_eq_some)

/-- The packed form of a message whose method name travels as bytes. An answer names no method. -/
def toLegacy : Message → Packed
  | .request id method params => .array [.ofNat 0, .ofNat id.toNat, .bin (.ofText method), .array params]
  | .response id error result => .array [.ofNat 1, .ofNat id.toNat, error, result]
  | .notification method params => .array [.ofNat 2, .bin (.ofText method), .array params]

/-- The arrays that are messages: of the right length for the type that comes first, with an identifier of
32 bits, a method name that is text and an array of parameters. -/
inductive Envelope : Packed → Prop
  | request {id : PackedInt} {method : Packed} {params : List Packed} (nonneg : 0 ≤ id.val)
    (small : id.val < 2 ^ 32) (name : method.text?.isSome) :
    Envelope (.array [.ofNat 0, .int id, method, .array params])
  | response {id : PackedInt} {error result : Packed} (nonneg : 0 ≤ id.val) (small : id.val < 2 ^ 32) :
    Envelope (.array [.ofNat 1, .int id, error, result])
  | notification {method : Packed} {params : List Packed} (name : method.text?.isSome) :
    Envelope (.array [.ofNat 2, method, .array params])

section
variable {v : Packed} {id : UInt32} {name : String} {params : List Packed} {m : Message}

theorem idOf_eq_ok : idOf v = .ok id ↔ v = .ofNat id.toNat := by
  constructor
  · intro h
    unfold idOf at h
    cases given : v.uint64? with
    | none => rw [given] at h; cases h
    | some n =>
        rw [given] at h
        dsimp only at h
        split at h
        · next small =>
          cases h
          rw [uint64?_eq_some.mp given, UInt32.toNat_ofNat_of_lt' small]
        · cases h
  · rintro rfl
    exact idOf_ofNat id

theorem methodOf_eq_ok : methodOf v = .ok name ↔ v = .str name ∨ v = .bin (.ofText name) := by
  rw [← text?_eq_some]
  cases v with
  | str s => simp [methodOf, Packed.text?]
  | bin data => cases h : data.toText? <;> simp [methodOf, Packed.text?, h]
  | _ => simp [methodOf, Packed.text?]

theorem paramsOf_eq_ok : paramsOf v = .ok params ↔ v = .array params := by
  cases v <;> simp [paramsOf]

/-- The second form of a message is read as its first one is. -/
theorem ofPacked_toLegacy (m : Message) : ofPacked m.toLegacy = .ok m := by
  cases m with
  | response id error result => exact ofPacked_toPacked (.response id error result)
  | request id method params =>
      have type : (Packed.ofNat 0).uint64? = some 0 := Packed.uint64?_ofNat (by decide)
      have name : methodOf (.bin (.ofText method)) = .ok method := methodOf_eq_ok.mpr (.inr rfl)
      simp only [toLegacy, ofPacked, List.head?_cons, Option.bind_some, type, ofItems, idOf_ofNat, name]
      rfl
  | notification method params =>
      have type : (Packed.ofNat 2).uint64? = some 2 := Packed.uint64?_ofNat (by decide)
      have name : methodOf (.bin (.ofText method)) = .ok method := methodOf_eq_ok.mpr (.inr rfl)
      simp only [toLegacy, ofPacked, List.head?_cons, Option.bind_some, type, ofItems, name]
      rfl

/-- What is read as a message is one of its two forms. -/
theorem forms_of_ofItems {type : UInt64} {items : List Packed} (first : items.head? = some (.ofNat type.toNat))
    (h : ofItems type items = .ok m) : .array items = m.toPacked ∨ .array items = m.toLegacy := by
  unfold ofItems at h
  split_ifs at h with request response notification
  · subst request
    split at h
    · next tag id method params =>
      cases first
      simp only [Except.bind_eq_ok] at h
      obtain ⟨n, number, name, named, others, listed, h⟩ := h
      cases h
      rw [idOf_eq_ok.mp number, paramsOf_eq_ok.mp listed]
      rcases methodOf_eq_ok.mp named with rfl | rfl
      · exact .inl rfl
      · exact .inr rfl
    · cases h
  · subst response
    split at h
    · next tag id error result =>
      cases first
      simp only [Except.bind_eq_ok] at h
      obtain ⟨n, number, h⟩ := h
      cases h
      rw [idOf_eq_ok.mp number]
      exact .inl rfl
    · cases h
  · subst notification
    split at h
    · next tag method params =>
      cases first
      simp only [Except.bind_eq_ok] at h
      obtain ⟨name, named, others, listed, h⟩ := h
      cases h
      rw [paramsOf_eq_ok.mp listed]
      rcases methodOf_eq_ok.mp named with rfl | rfl
      · exact .inl rfl
      · exact .inr rfl
    · cases h

theorem forms_of_ofPacked (h : ofPacked v = .ok m) : v = m.toPacked ∨ v = m.toLegacy := by
  cases v with
  | array items =>
      rw [ofPacked] at h
      split at h
      · next type given =>
        obtain ⟨first, listed, number⟩ := Option.bind_eq_some_iff.mp given
        rw [uint64?_eq_some.mp number] at listed
        exact forms_of_ofItems listed h
      · cases h
  | _ => cases h

theorem exists_id {n : PackedInt} (nonneg : 0 ≤ n.val) (small : n.val < 2 ^ 32) :
    ∃ id : UInt32, Packed.int n = .ofNat id.toNat := by
  refine ⟨.ofNat n.val.toNat, ?_⟩
  rw [UInt32.toNat_ofNat_of_lt' (show n.val.toNat < 2 ^ 32 by omega), Packed.ofNat_toNat nonneg]

theorem id_in_range (id : UInt32) :
    0 ≤ (PackedInt.ofUInt64 (.ofNat id.toNat)).val ∧ (PackedInt.ofUInt64 (.ofNat id.toNat)).val < 2 ^ 32 := by
  have lt : id.toNat < 2 ^ 32 := id.toNat_lt
  have word : (UInt64.ofNat id.toNat).toNat = id.toNat :=
    UInt64.toNat_ofNat_of_lt' (Nat.lt_trans lt (by decide))
  simp only [PackedInt.ofUInt64, word]
  omega

end

/-- A message is read from its two forms and from nothing else. -/
theorem ofPacked_eq_ok {w : Packed} {m : Message} :
    ofPacked w = .ok m ↔ w = m.toPacked ∨ w = m.toLegacy := by
  constructor
  · exact forms_of_ofPacked
  · rintro (rfl | rfl)
    · exact ofPacked_toPacked m
    · exact ofPacked_toLegacy m

theorem Envelope.of_message (m : Message) : Envelope m.toPacked ∧ Envelope m.toLegacy := by
  cases m with
  | request id method params =>
      obtain ⟨nonneg, small⟩ := id_in_range id
      exact ⟨.request nonneg small rfl, .request nonneg small (by simp [Packed.text?])⟩
  | response id error result =>
      obtain ⟨nonneg, small⟩ := id_in_range id
      exact ⟨.response nonneg small, .response nonneg small⟩
  | notification method params =>
      exact ⟨.notification rfl, .notification (by simp [Packed.text?])⟩

theorem Envelope.message {w : Packed} (h : Envelope w) : ∃ m : Message, w = m.toPacked ∨ w = m.toLegacy := by
  cases h with
  | @request id method params nonneg small name =>
      obtain ⟨n, number⟩ := exists_id nonneg small
      obtain ⟨text, given⟩ := Option.isSome_iff_exists.mp name
      rw [number]
      rcases text?_eq_some.mp given with rfl | rfl
      · exact ⟨.request n text params, .inl rfl⟩
      · exact ⟨.request n text params, .inr rfl⟩
  | @response id error result nonneg small =>
      obtain ⟨n, number⟩ := exists_id nonneg small
      rw [number]
      exact ⟨.response n error result, .inl rfl⟩
  | @notification method params name =>
      obtain ⟨text, given⟩ := Option.isSome_iff_exists.mp name
      rcases text?_eq_some.mp given with rfl | rfl
      · exact ⟨.notification text params, .inl rfl⟩
      · exact ⟨.notification text params, .inr rfl⟩

theorem exists_message_iff {w : Packed} : (∃ m, ofPacked w = .ok m) ↔ Envelope w := by
  constructor
  · rintro ⟨m, read⟩
    rcases forms_of_ofPacked read with rfl | rfl
    · exact (Envelope.of_message m).1
    · exact (Envelope.of_message m).2
  · intro h
    obtain ⟨m, form⟩ := h.message
    exact ⟨m, ofPacked_eq_ok.mpr form⟩

/-- Messages and their packed forms determine each other. A message is read back from its packed form; what
is read as a message is its packed form, but that the method name may stand as bytes where the packed form
has the text; envelopes are what is read as a message, and everything else is refused. -/
theorem ofPacked_iff_envelope :
    (∀ m : Message, ofPacked m.toPacked = .ok m) ∧
      (∀ (w : Packed) (m : Message), ofPacked w = .ok m ↔ w = m.toPacked ∨ w = m.toLegacy) ∧
      (∀ w : Packed, (∃ m, ofPacked w = .ok m) ↔ Envelope w) ∧
      ∀ w : Packed, (∃ e, ofPacked w = .error e) ↔ ¬Envelope w := by
  refine ⟨ofPacked_toPacked, fun w m => ofPacked_eq_ok, fun w => exists_message_iff, fun w => ?_⟩
  rw [← exists_message_iff]
  cases ofPacked w with
  | ok m => simp
  | error e => simp

/-- A name that travels as bytes, an identifier that is too great by one, and an answer without a result. -/
example :
    ofPacked (.array [.ofNat 2, .bin [0x66], .array []]) = .ok (.notification "f" []) ∧
      ofPacked (.array [.ofNat 1, .ofNat (2 ^ 32), .nil, .nil]) = .error (.badId (.ofNat (2 ^ 32))) ∧
      ofPacked (.array [.ofNat 1, .ofNat 7, .nil]) = .error (.wrongLength "response" 4 3) :=
  ⟨by rfl, by rfl, by rfl⟩

end Message

end PackRpc
