import PackRpc.Packed.Encoding
import PackRpc.Proofs.Bytes

namespace PackRpc.Packed

/-- Induction over a value, containers after what they contain. -/
@[elab_as_elim]
theorem induction {motive : Packed → Prop} (nil : motive .nil) (bool : ∀ b, motive (.bool b))
    (int : ∀ n, motive (.int n)) (float32 : ∀ x, motive (.float32 x))
    (float64 : ∀ x, motive (.float64 x)) (str : ∀ text, motive (.str text))
    (bin : ∀ data, motive (.bin data))
    (array : ∀ items, (∀ v ∈ items, motive v) → motive (.array items))
    (map : ∀ entries, (∀ e ∈ entries, motive e.1 ∧ motive e.2) → motive (.map entries))
    (ext : ∀ type data, motive (.ext type data)) (v : Packed) : motive v := by
  refine @Packed.rec motive (fun items => ∀ v ∈ items, motive v)
    (fun entries => ∀ e ∈ entries, motive e.1 ∧ motive e.2) (fun e => motive e.1 ∧ motive e.2)
    nil bool int float32 float64 str bin array map ext ?_ ?_ ?_ ?_ ?_ v
  · intro v h
    cases h
  · intro item items hitem hitems v h
    rcases List.mem_cons.mp h with rfl | h
    · exact hitem
    · exact hitems v h
  · intro e h
    cases h
  · intro entry entries hentry hentries e h
    rcases List.mem_cons.mp h with rfl | h
    · exact hentry
    · exact hentries e h
  · intro key value hkey hvalue
    exact ⟨hkey, hvalue⟩

mutual

/-- The greatest length of a text, a payload, an array or a map in a value. -/
def longest : Packed → Nat
  | .nil | .bool _ | .int _ | .float32 _ | .float64 _ => 0
  | .str text => (Bytes.ofText text).length
  | .bin data => data.length
  | .array items => max items.length (longestItems items)
  | .map entries => max entries.length (longestEntries entries)
  | .ext _ data => data.length

def longestItems : List Packed → Nat
  | [] => 0
  | item :: items => max (longest item) (longestItems items)

def longestEntries : List (Packed × Packed) → Nat
  | [] => 0
  | (key, value) :: entries => max (max (longest key) (longest value)) (longestEntries entries)

end

mutual

/-- How deep arrays and maps nest in a value. -/
def depth : Packed → Nat
  | .nil | .bool _ | .int _ | .float32 _ | .float64 _ | .str _ | .bin _ | .ext .. => 0
  | .array items => depthItems items + 1
  | .map entries => depthEntries entries + 1

def depthItems : List Packed → Nat
  | [] => 0
  | item :: items => max (depth item) (depthItems items)

def depthEntries : List (Packed × Packed) → Nat
  | [] => 0
  | (key, value) :: entries => max (max (depth key) (depth value)) (depthEntries entries)

end

theorem longestItems_le {items : List Packed} {n : Nat} :
    longestItems items ≤ n ↔ ∀ v ∈ items, v.longest ≤ n := by
  induction items with
  | nil => simp [longestItems]
  | cons item items ih => simp [longestItems, ih]

theorem longestEntries_le {entries : List (Packed × Packed)} {n : Nat} :
    longestEntries entries ≤ n ↔ ∀ e ∈ entries, e.1.longest ≤ n ∧ e.2.longest ≤ n := by
  induction entries with
  | nil => simp [longestEntries]
  | cons e entries ih => simp [longestEntries, ih, and_assoc]

theorem longestItems_lt {items : List Packed} {n : Nat} (h : 0 < n) :
    longestItems items < n ↔ ∀ v ∈ items, v.longest < n := by
  obtain ⟨m, rfl⟩ := Nat.exists_eq_add_one.mpr h
  simpa only [Nat.lt_succ_iff] using longestItems_le

theorem longestEntries_lt {entries : List (Packed × Packed)} {n : Nat} (h : 0 < n) :
    longestEntries entries < n ↔ ∀ e ∈ entries, e.1.longest < n ∧ e.2.longest < n := by
  obtain ⟨m, rfl⟩ := Nat.exists_eq_add_one.mpr h
  simpa only [Nat.lt_succ_iff] using longestEntries_le

theorem depthItems_le {items : List Packed} {n : Nat} :
    depthItems items ≤ n ↔ ∀ v ∈ items, v.depth ≤ n := by
  induction items with
  | nil => simp [depthItems]
  | cons item items ih => simp [depthItems, ih]

theorem depthEntries_le {entries : List (Packed × Packed)} {n : Nat} :
    depthEntries entries ≤ n ↔ ∀ e ∈ entries, e.1.depth ≤ n ∧ e.2.depth ≤ n := by
  induction entries with
  | nil => simp [depthEntries]
  | cons e entries ih => simp [depthEntries, ih, and_assoc]

theorem overlong?_eq_none {length : Nat} : overlong? length = none ↔ length < 2 ^ 32 := by
  simp only [overlong?]
  split <;> simp_all

theorem oversizeItems?_eq_none {items : List Packed} :
    oversizeItems? items = none ↔ ∀ v ∈ items, v.oversize? = none := by
  induction items with
  | nil => simp [oversizeItems?]
  | cons item items ih =>
      cases h : item.oversize? with
      | none => simp [oversizeItems?, h, ih]
      | some length => simp [oversizeItems?, h]

theorem oversizeEntries?_eq_none {entries : List (Packed × Packed)} :
    oversizeEntries? entries = none ↔
      ∀ e ∈ entries, e.1.oversize? = none ∧ e.2.oversize? = none := by
  induction entries with
  | nil => simp [oversizeEntries?]
  | cons e entries ih =>
      cases hkey : e.1.oversize? with
      | none =>
          cases hvalue : e.2.oversize? with
          | none => simp [oversizeEntries?, hkey, hvalue, ih]
          | some length => simp [oversizeEntries?, hkey, hvalue]
      | some length => simp [oversizeEntries?, hkey]

/-- A value is refused by the writer exactly for a length that four bytes cannot hold. -/
theorem oversize?_eq_none (v : Packed) : v.oversize? = none ↔ v.longest < 2 ^ 32 := by
  induction v using Packed.induction with
  | nil | bool b | int n | float32 x | float64 x => simp [oversize?, longest]
  | str text =>
      have size : text.utf8ByteSize = (Bytes.ofText text).length := by simp [Bytes.ofText]
      rw [oversize?, longest, overlong?_eq_none, size]
  | bin data | ext type data => rw [oversize?, longest, overlong?_eq_none]
  | array items ih =>
      rw [oversize?, Option.or_eq_none_iff, overlong?_eq_none, oversizeItems?_eq_none, longest,
        Nat.max_lt, longestItems_lt (by decide)]
      exact and_congr_right fun _ => forall₂_congr ih
  | map entries ih =>
      rw [oversize?, Option.or_eq_none_iff, overlong?_eq_none, oversizeEntries?_eq_none, longest,
        Nat.max_lt, longestEntries_lt (by decide)]
      exact and_congr_right fun _ => forall₂_congr fun e he => and_congr (ih e he).1 (ih e he).2

theorem toBytes_eq_ok {v : Packed} {bytes : Bytes} :
    v.toBytes = .ok bytes ↔ v.longest < 2 ^ 32 ∧ v.encode = bytes := by
  rw [← oversize?_eq_none]
  unfold toBytes
  cases v.oversize? <;> simp

theorem encode_length_pos (v : Packed) : 0 < (encode v).length := by
  cases v with
  | int n => simp only [encode, encodeInt]; split_ifs <;> simp [marked]
  | str text => simp only [encode, strHeader]; split_ifs <;> simp [marked]
  | bin data => simp only [encode, binHeader]; split_ifs <;> simp [marked]
  | array items => simp only [encode, arrayHeader]; split_ifs <;> simp [marked]
  | map entries => simp only [encode, mapHeader]; split_ifs <;> simp [marked]
  | _ => simp [encode, marked]

theorem ne_nil_of_toBytes {v : Packed} {bytes : Bytes} (h : v.toBytes = .ok bytes) : bytes ≠ [] := by
  obtain ⟨-, rfl⟩ := toBytes_eq_ok.mp h
  exact List.length_pos_iff.mp (encode_length_pos v)

theorem encodeItems_length {items : List Packed} (h : ∀ v ∈ items, v.longest ≤ (encode v).length) :
    items.length ≤ (encodeItems items).length ∧ longestItems items ≤ (encodeItems items).length := by
  induction items with
  | nil => exact ⟨Nat.le_refl _, Nat.le_refl _⟩
  | cons item items ih =>
      obtain ⟨first, others⟩ := List.forall_mem_cons.mp h
      have inside := ih others
      have pos := encode_length_pos item
      simp only [encodeItems, longestItems, List.length_cons, List.length_append]
      omega

theorem encodeEntries_length {entries : List (Packed × Packed)}
    (h : ∀ e ∈ entries, e.1.longest ≤ (encode e.1).length ∧ e.2.longest ≤ (encode e.2).length) :
    entries.length ≤ (encodeEntries entries).length ∧
      longestEntries entries ≤ (encodeEntries entries).length := by
  induction entries with
  | nil => exact ⟨Nat.le_refl _, Nat.le_refl _⟩
  | cons e entries ih =>
      obtain ⟨first, others⟩ := List.forall_mem_cons.mp h
      have inside := ih others
      have pos := encode_length_pos e.1
      simp only [encodeEntries, longestEntries, List.length_cons, List.length_append]
      omega

/-- No part of a value is longer than its encoding. -/
theorem longest_le_encode_length (v : Packed) : v.longest ≤ (encode v).length := by
  induction v using Packed.induction with
  | nil | bool b | int n | float32 x | float64 x => exact Nat.zero_le _
  | str text | bin data | ext type data => simp only [longest, encode, List.length_append, List.length_cons]; omega
  | array items ih =>
      have inside := encodeItems_length ih
      simp only [longest, encode, List.length_append]
      omega
  | map entries ih =>
      have inside := encodeEntries_length ih
      simp only [longest, encode, List.length_append]
      omega

end PackRpc.Packed
