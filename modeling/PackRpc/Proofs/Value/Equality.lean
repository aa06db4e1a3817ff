import PackRpc.Value.Untyped
import PackRpc.Proofs.Packed.Measure
import Mathlib.Data.List.Forall2

namespace PackRpc

@[ext] theorem PackedInt.ext {m n : PackedInt} (same : m.val = n.val) : m = n := by
  cases m
  cases n
  cases same
  rfl

theorem Binary.Class.same_self {c : Binary.Class} (h : c ≠ .nan) : c.same c = true := by
  cases c with
  | nan => exact absurd rfl h
  | infinite negative => simp [Binary.Class.same]
  | finite negative m e => simp [Binary.Class.same]

theorem Binary64.same_self {x : Binary64} (h : x.isNaN = false) : x.same x = true := by
  refine Binary.Class.same_self fun nan => ?_
  rw [Binary64.isNaN, nan] at h
  cases h

theorem Binary32.same_self {x : Binary32} (h : x.isNaN = false) : x.same x = true := by
  refine Binary.Class.same_self fun nan => ?_
  rw [Binary32.isNaN, nan] at h
  cases h

theorem Binary.Class.same_comm (c d : Binary.Class) : c.same d = d.same c := by
  cases c <;> cases d
  case finite.finite negative m e negative' n k =>
    rw [Binary.Class.same, Binary.Class.same, Bool.and_comm (m == 0), Bool.beq_comm (a := negative),
      Bool.beq_comm (a := m * _)]
  all_goals simp [Binary.Class.same, eq_comm]

theorem Binary64.same_comm (x y : Binary64) : x.same y = y.same x :=
  Binary.Class.same_comm _ _

theorem exists_of_forall₂ {α β : Type} {R : α → β → Prop} {as : List α} {bs : List β}
    (h : List.Forall₂ R as bs) : ∀ a ∈ as, ∃ b ∈ bs, R a b := by
  induction h with
  | nil => exact fun a ha => absurd ha List.not_mem_nil
  | cons first _ ih =>
      refine List.forall_mem_cons.mpr ⟨⟨_, .head _, first⟩, fun a ha => ?_⟩
      obtain ⟨b, hb, related⟩ := ih a ha
      exact ⟨b, .tail _ hb, related⟩

namespace Value

/-- Induction over a value, containers after what they contain. -/
@[elab_as_elim]
theorem induction {motive : Value → Prop} (nil : motive .nil) (bool : ∀ b, motive (.bool b))
    (int : ∀ n, motive (.int n)) (uint : ∀ n, motive (.uint n)) (float : ∀ x, motive (.float x))
    (string : ∀ text, motive (.string text)) (binary : ∀ data, motive (.binary data))
    (seq : ∀ items, (∀ v ∈ items, motive v) → motive (.seq items))
    (map : ∀ entries, (∀ e ∈ entries, motive e.1 ∧ motive e.2) → motive (.map entries))
    (record : ∀ type items, (∀ v ∈ items, motive v) → motive (.record type items)) (v : Value) :
    motive v := by
  refine @Value.rec motive (fun items => ∀ v ∈ items, motive v)
    (fun entries => ∀ e ∈ entries, motive e.1 ∧ motive e.2) (fun e => motive e.1 ∧ motive e.2)
    nil bool int uint float string binary seq map record ?_ ?_ ?_ ?_ ?_ v
  · exact List.forall_mem_nil motive
  · exact fun item items hitem hitems => List.forall_mem_cons.mpr ⟨hitem, hitems⟩
  · exact fun e he => by cases he
  · exact fun e entries he hentries => List.forall_mem_cons.mpr ⟨he, hentries⟩
  · exact fun key value hkey hvalue => ⟨hkey, hvalue⟩

mutual

def nanFree : Value → Bool
  | .float x => !x.isNaN
  | .seq items => nanFreeItems items
  | .record _ items => nanFreeItems items
  | .map entries => nanFreeEntries entries
  | _ => true

def nanFreeItems : List Value → Bool
  | [] => true
  | item :: items => nanFree item && nanFreeItems items

def nanFreeEntries : List (Value × Value) → Bool
  | [] => true
  | (key, value) :: entries => nanFree key && nanFree value && nanFreeEntries entries

end

theorem isNaN_of_nanFree {x : Binary64} (h : (Value.float x).nanFree = true) : x.isNaN = false :=
  (Bool.not_eq_true' _).mp h

theorem nanFreeItems_iff {items : List Value} :
    nanFreeItems items = true ↔ ∀ v ∈ items, v.nanFree = true := by
  induction items with
  | nil => simp [nanFreeItems]
  | cons item items ih => simp [nanFreeItems, ih]

theorem nanFreeEntries_iff {entries : List (Value × Value)} :
    nanFreeEntries entries = true ↔ ∀ e ∈ entries, e.1.nanFree = true ∧ e.2.nanFree = true := by
  induction entries with
  | nil => simp [nanFreeEntries]
  | cons e entries ih => simp [nanFreeEntries, ih, and_assoc]

theorem sameItems_iff {as bs : List Value} :
    sameItems as bs = true ↔ List.Forall₂ (fun a b => same a b = true) as bs := by
  induction as generalizing bs with
  | nil => cases bs <;> simp [sameItems]
  | cons a as ih => cases bs <;> simp [sameItems, ih]

theorem sameEntries_iff {as bs : List (Value × Value)} :
    sameEntries as bs = true ↔
      List.Forall₂ (fun a b => same a.1 b.1 = true ∧ same a.2 b.2 = true) as bs := by
  induction as generalizing bs with
  | nil => cases bs <;> simp [sameEntries]
  | cons a as ih => cases bs <;> simp [sameEntries, ih]

theorem same_record (type : RecordType) (as bs : List Value) :
    (Value.record type as).same (.record type bs) = sameItems as bs := by
  rw [same, beq_self_eq_true, Bool.true_and]

theorem integer?_eq_some {v : Value} {n : Int} :
    v.integer? = some n ↔ (∃ m, v = .int m ∧ m.toInt = n) ∨ ∃ m, v = .uint m ∧ (m.toNat : Int) = n := by
  cases v <;> simp [integer?]

/-- Integers are the same when their numbers are, whatever their types. -/
theorem same_of_integer {a b : Value} {n : Int} (ha : a.integer? = some n)
    (hb : b.integer? = some n) : a.same b = true := by
  have leaf : (a.integer?.isSome && a.integer? == b.integer?) = true := by simp [ha, hb]
  rcases integer?_eq_some.mp ha with ⟨m, rfl, -⟩ | ⟨m, rfl, -⟩ <;>
    rcases integer?_eq_some.mp hb with ⟨k, rfl, -⟩ | ⟨k, rfl, -⟩ <;>
    exact leaf

theorem toPacked_of_integer {v : Value} {n : Int} (h : v.integer? = some n) :
    ∃ m : PackedInt, v.toPacked = .int m ∧ m.val = n := by
  rcases integer?_eq_some.mp h with ⟨m, rfl, rfl⟩ | ⟨m, rfl, rfl⟩
  · exact ⟨.ofInt64 m, rfl, rfl⟩
  · exact ⟨.ofUInt64 m, rfl, rfl⟩

theorem ofInt_integer {n : Int} (low : -2 ^ 63 ≤ n) (high : n < 2 ^ 63) :
    (Value.int (.ofInt n)).integer? = some n := by
  rw [integer?, Int64.toInt_ofInt_of_le low high]

theorem ofNat_integer {n : Int} (low : 0 ≤ n) (high : n < 2 ^ 64) :
    (Value.uint (.ofNat n.toNat)).integer? = some n := by
  rw [integer?, UInt64.toNat_ofNat_of_lt' (show n.toNat < 2 ^ 64 by omega), Int.toNat_of_nonneg low]

theorem ofInteger_integer (n : PackedInt) : (ofInteger n).integer? = some n.val := by
  unfold ofInteger PackedInt.toUInt64?
  split_ifs with sign
  · exact ofNat_integer sign n.lt
  · exact ofInt_integer n.ge (by omega)

theorem toPackedItems_eq (items : List Value) : toPackedItems items = items.map toPacked := by
  induction items with
  | nil => rfl
  | cons item items ih => rw [toPackedItems, ih, List.map_cons]

theorem toPackedEntries_eq (entries : List (Value × Value)) :
    toPackedEntries entries = entries.map fun e => (e.1.toPacked, e.2.toPacked) := by
  induction entries with
  | nil => rfl
  | cons e entries ih => rw [toPackedEntries, ih, List.map_cons]

theorem ofPackedItems_eq (items : List Packed) : ofPackedItems items = items.map ofPacked := by
  induction items with
  | nil => rfl
  | cons item items ih => rw [ofPackedItems, ih, List.map_cons]

theorem ofPackedEntries_eq (entries : List (Packed × Packed)) :
    ofPackedEntries entries = entries.map fun e => (ofPacked e.1, ofPacked e.2) := by
  induction entries with
  | nil => rfl
  | cons e entries ih => rw [ofPackedEntries, ih, List.map_cons]

theorem sameLeaf_comm (a b : Value) : a.sameLeaf b = b.sameLeaf a := by
  cases a <;> cases b <;> simp [sameLeaf, integer?, Binary64.same_comm, eq_comm]

theorem sameItems_comm {as : List Value} (h : ∀ a ∈ as, ∀ b : Value, a.same b = b.same a)
    (bs : List Value) : sameItems as bs = sameItems bs as := by
  induction as generalizing bs with
  | nil => cases bs <;> rfl
  | cons a as ih =>
      cases bs with
      | nil => rfl
      | cons b bs =>
          obtain ⟨first, others⟩ := List.forall_mem_cons.mp h
          rw [sameItems, sameItems, first b, ih others bs]

theorem sameEntries_comm {as : List (Value × Value)}
    (h : ∀ e ∈ as, (∀ b : Value, e.1.same b = b.same e.1) ∧ ∀ b : Value, e.2.same b = b.same e.2)
    (bs : List (Value × Value)) : sameEntries as bs = sameEntries bs as := by
  induction as generalizing bs with
  | nil => cases bs <;> rfl
  | cons a as ih =>
      cases bs with
      | nil => rfl
      | cons b bs =>
          obtain ⟨first, others⟩ := List.forall_mem_cons.mp h
          rw [sameEntries, sameEntries, first.1 b.1, first.2 b.2, ih others bs]

theorem same_comm (a b : Value) : a.same b = b.same a := by
  induction a using Value.induction generalizing b with
  | seq items ih =>
      cases b with
      | seq others | record type others => exact sameItems_comm ih others
      | _ => rfl
  | record type items ih =>
      cases b with
      | seq others => exact sameItems_comm ih others
      | record type' others => rw [same, same, sameItems_comm ih others, Bool.beq_comm]
      | _ => rfl
  | map entries ih =>
      cases b with
      | map others => exact sameEntries_comm ih others
      | _ => rfl
  | _ => cases b <;> simp only [same] <;> exact sameLeaf_comm _ _

theorem isNil_of_same {a b : Value} (h : a.same b = true) : a.isNil = b.isNil := by
  cases a <;> cases b <;> first | rfl | simp [same, sameLeaf, integer?] at h

theorem isNil_toPacked (v : Value) : v.toPacked.isNil = v.isNil := by
  cases v <;> rfl

theorem isNil_ofPacked (w : Packed) : (ofPacked w).isNil = w.isNil := by
  cases w with
  | int n =>
      rw [ofPacked, ofInteger]
      cases n.toUInt64? <;> rfl
  | _ => rfl

/-- Nothing is lost in the packed form of a value, up to equality. -/
theorem ofPacked_toPacked (v : Value) (h : v.nanFree = true) : (ofPacked v.toPacked).same v = true := by
  induction v using Value.induction with
  | nil | bool b | string text | binary data => simp [toPacked, ofPacked, same, sameLeaf]
  | int n => exact same_of_integer (ofInteger_integer (.ofInt64 n)) rfl
  | uint n => exact same_of_integer (ofInteger_integer (.ofUInt64 n)) rfl
  | float x => exact Binary64.same_self (isNaN_of_nanFree h)
  | seq items ih | record type items ih =>
      have number := nanFreeItems_iff.mp h
      rw [toPacked, ofPacked, same, sameItems_iff, toPackedItems_eq, ofPackedItems_eq, List.map_map,
        List.forall₂_map_left_iff, List.forall₂_same]
      exact fun v hv => ih v hv (number v hv)
  | map entries ih =>
      have number := nanFreeEntries_iff.mp h
      rw [toPacked, ofPacked, same, sameEntries_iff, toPackedEntries_eq, ofPackedEntries_eq,
        List.map_map, List.forall₂_map_left_iff, List.forall₂_same]
      exact fun e he => ⟨(ih e he).1 (number e he).1, (ih e he).2 (number e he).2⟩

end Value

end PackRpc
