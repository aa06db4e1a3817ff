import PackRpc.Json.Rendering
import PackRpc.Proofs.OrderedMap
import PackRpc.Proofs.Value.Equality

namespace PackRpc

def Binary64.isFinite (x : Binary64) : Bool :=
  match x.classify with
  | .finite .. => true
  | _ => false

namespace Value

mutual

/-- Whether something holds of a value and of every value that it contains. -/
def all (p : Value → Bool) : Value → Bool
  | .seq items => p (.seq items) && allItems p items
  | .map entries => p (.map entries) && allEntries p entries
  | .record type items => p (.record type items) && allItems p items
  | v => p v

def allItems (p : Value → Bool) : List Value → Bool
  | [] => true
  | item :: items => all p item && allItems p items

def allEntries (p : Value → Bool) : List (Value × Value) → Bool
  | [] => true
  | (key, value) :: entries => all p key && all p value && allEntries p entries

end

/-- Whether all floats in the value are finite. -/
def isFinite (v : Value) : Bool :=
  v.all fun
    | .float x => x.isFinite
    | _ => true

/-- Whether the keys of every map in the value differ from each other. -/
def isDistinct (v : Value) : Bool :=
  v.all fun
    | .map entries => decide (entries.Pairwise fun a b => a.1.same b.1 = false)
    | _ => true

section
variable {p : Value → Bool} {type : RecordType} {items : List Value} {entries : List (Value × Value)}

theorem allItems_iff : allItems p items = true ↔ ∀ v ∈ items, v.all p = true := by
  induction items with
  | nil => simp [allItems]
  | cons item items ih => simp [allItems, ih]

theorem all_seq : (seq items).all p = true ↔ p (.seq items) = true ∧ ∀ v ∈ items, v.all p = true := by
  rw [all, Bool.and_eq_true, allItems_iff]

theorem all_record : (record type items).all p = true ↔
    p (.record type items) = true ∧ ∀ v ∈ items, v.all p = true := by
  rw [all, Bool.and_eq_true, allItems_iff]

theorem all_map : (map entries).all p = true ↔
    p (.map entries) = true ∧ ∀ e ∈ entries, e.1.all p = true ∧ e.2.all p = true := by
  have inside : allEntries p entries = true ↔ ∀ e ∈ entries, e.1.all p = true ∧ e.2.all p = true := by
    induction entries with
    | nil => simp [allEntries]
    | cons e entries ih => simp [allEntries, ih, and_assoc]
  rw [all, Bool.and_eq_true, inside]

end

/-- A value that is shown in full. -/
structure Shown (v : Value) : Prop where
  finite : v.isFinite = true
  distinct : v.isDistinct = true

namespace Shown

variable {type : RecordType} {items : List Value} {entries : List (Value × Value)}

theorem ofSeq (h : (seq items).Shown) : ∀ v ∈ items, v.Shown := fun v hv =>
  ⟨(all_seq.mp h.finite).2 v hv, (all_seq.mp h.distinct).2 v hv⟩

theorem ofRecord (h : (record type items).Shown) : ∀ v ∈ items, v.Shown := fun v hv =>
  ⟨(all_record.mp h.finite).2 v hv, (all_record.mp h.distinct).2 v hv⟩

theorem ofMap (h : (map entries).Shown) : ∀ e ∈ entries, e.1.Shown ∧ e.2.Shown := fun e he =>
  ⟨⟨((all_map.mp h.finite).2 e he).1, ((all_map.mp h.distinct).2 e he).1⟩,
    ⟨((all_map.mp h.finite).2 e he).2, ((all_map.mp h.distinct).2 e he).2⟩⟩

end Shown

theorem itemsToJson_eq (items : List Value) : itemsToJson items = items.map toJson := by
  induction items with
  | nil => rfl
  | cons item items ih => rw [itemsToJson, ih, List.map_cons]

theorem entriesToJson_eq (entries : List (Value × Value)) :
    entriesToJson entries = entries.map fun e => (e.1.text, e.2.toJson) := by
  induction entries with
  | nil => rfl
  | cons e entries ih => rw [entriesToJson, ih, List.map_cons]

theorem fieldsToJson_eq (fields : List (String × Descriptor)) (values : List Value) :
    fieldsToJson fields values = (fields.map Prod.fst).zip (values.map toJson) := by
  induction fields generalizing values with
  | nil => cases values <;> rfl
  | cons field fields ih =>
      cases values with
      | nil => rfl
      | cons value values => rw [fieldsToJson, ih, List.map_cons, List.map_cons, List.zip_cons_cons]

theorem ofFloat_finite {x : Binary64} (finite : x.isFinite = true) : ofFloat x = .float x := by
  rw [Binary64.isFinite] at finite
  rw [ofFloat]
  revert finite
  cases x.classify with
  | finite negative m e => exact fun _ => rfl
  | _ => exact fun infinite => by cases infinite

theorem toJson_integer {v : Value} {n : PackedInt} (number : v.integer? = some n.val) :
    v.toJson = .int n := by
  rcases integer?_eq_some.mp number with ⟨m, rfl, same⟩ | ⟨m, rfl, same⟩ <;>
    exact congrArg Json.int (PackedInt.ext same)

theorem toJson_ne_null {v : Value} (finite : v.isFinite = true) (full : v.isNil = false) :
    v.toJson ≠ .null := by
  cases v with
  | nil => cases full
  | float x =>
      rw [toJson, ofFloat_finite finite]
      exact Json.noConfusion
  | _ => exact Json.noConfusion

end Value

end PackRpc
