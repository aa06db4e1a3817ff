import PackRpc.Message.Basic
import PackRpc.Proofs.Packed.RoundTrip

namespace PackRpc

theorem Packed.uint64?_ofNat {n : Nat} (h : n < 2 ^ 64) : (Packed.ofNat n).uint64? = some (.ofNat n) := by
  have word : (UInt64.ofNat n).toNat = n := UInt64.toNat_ofNat_of_lt' h
  simp only [ofNat, uint64?, PackedInt.toUInt64?, PackedInt.ofUInt64, word]
  rw [if_pos (Int.natCast_nonneg n), Int.toNat_natCast]

namespace Message

theorem idOf_ofNat (id : UInt32) : idOf (.ofNat id.toNat) = .ok id := by
  have lt : id.toNat < 2 ^ 32 := id.toNat_lt
  have word : (UInt64.ofNat id.toNat).toNat = id.toNat :=
    UInt64.toNat_ofNat_of_lt' (Nat.lt_trans lt (by decide))
  rw [idOf, Packed.uint64?_ofNat (Nat.lt_trans lt (by decide))]
  simp only [word, if_pos lt, UInt32.ofNat_toNat]

theorem ofPacked_toPacked (m : Message) : ofPacked m.toPacked = .ok m := by
  cases m with
  | request id method params =>
      have type : (Packed.ofNat 0).uint64? = some 0 := Packed.uint64?_ofNat (by decide)
      simp only [toPacked, ofPacked, List.head?_cons, Option.bind_some, type, ofItems, idOf_ofNat]
      rfl
  | response id error result =>
      have type : (Packed.ofNat 1).uint64? = some 1 := Packed.uint64?_ofNat (by decide)
      simp only [toPacked, ofPacked, List.head?_cons, Option.bind_some, type, ofItems, idOf_ofNat]
      rfl
  | notification method params =>
      have type : (Packed.ofNat 2).uint64? = some 2 := Packed.uint64?_ofNat (by decide)
      simp only [toPacked, ofPacked, List.head?_cons, Option.bind_some, type, ofItems]
      rfl

/-- The message has an encoding, which is within the limit on size, and its arrays and maps nest within the
limit on depth. -/
structure Within (limits : Limits) (m : Message) : Prop where
  encoded : ∃ bytes, m.toPacked.toBytes = .ok bytes ∧ bytes.length ≤ limits.maxSize
  shallow : m.toPacked.depth ≤ limits.maxDepth

/-- What is within the limits is accepted as it was sent. -/
theorem Within.accepted {limits : Limits} {m : Message} {bytes : Bytes} (h : m.Within limits)
    (encoded : m.toPacked.toBytes = .ok bytes) :
    bytes.length ≤ limits.maxSize ∧ Packed.ofBytes limits bytes = .ok m.toPacked := by
  obtain ⟨again, same, small⟩ := h.encoded
  rw [encoded] at same
  cases same
  exact ⟨small, Packed.ofBytes_toBytes encoded small h.shallow⟩

end Message

end PackRpc
