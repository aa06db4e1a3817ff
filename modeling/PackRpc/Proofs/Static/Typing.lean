import PackRpc.Static.Conversion
import PackRpc.Proofs.Value.Equality
import Mathlib.Data.List.Forall2

namespace PackRpc

namespace StaticType

mutual

/-- Whether something holds of a type and of every type that it is built from. -/
def all (p : StaticType → Bool) : StaticType → Bool
  | .option inner => p (.option inner) && all p inner
  | .list element => p (.list element) && all p element
  | .orderedMap k v => p (.orderedMap k v) && (all p k && all p v)
  | .hashMap k v => p (.hashMap k v) && (all p k && all p v)
  | .tuple items => p (.tuple items) && allItems p items
  | .record name fields => p (.record name fields) && allFields p fields
  | t => p t

def allItems (p : StaticType → Bool) : List StaticType → Bool
  | [] => true
  | t :: ts => all p t && allItems p ts

def allFields (p : StaticType → Bool) : List (String × StaticType) → Bool
  | [] => true
  | (_, t) :: fields => all p t && allFields p fields

end

/-- Whether the values of a type can be keys: they are told apart by their order. -/
def isKey (t : StaticType) : Bool :=
  t.all fun
    | .float32 | .float64 | .value | .hashMap .. => false
    | _ => true

def isValid (t : StaticType) : Bool :=
  t.all fun
    | .orderedMap k _ | .hashMap k _ => k.isKey
    | _ => true

mutual

def has : StaticType → StaticValue → Bool
  | .bool, .bool _ => true
  | .int true width, .int n => width.holds true n.toInt
  | .int false width, .uint n => width.holds false n.toNat
  | .float32, .float32 _ => true
  | .float64, .float64 _ => true
  | .text, .text _ => true
  | .bytes, .bytes _ => true
  | .unit, .unit => true
  | .value, .value _ => true
  | .option _, .absent => true
  | .option inner, .present x => has inner x
  | .list element, .list items => items.all (has element)
  | .orderedMap k v, .orderedMap entries => entries.all fun e => has k e.1 && has v e.2
  | .hashMap k v, .hashMap entries => entries.all fun e => has k e.1 && has v e.2
  | .tuple types, .tuple items => hasItems types items
  | .record name fields, .record type items =>
    type == ⟨name, fieldDescriptors fields⟩ && hasFields fields items
  | _, _ => false

def hasItems : List StaticType → List StaticValue → Bool
  | [], [] => true
  | t :: ts, x :: xs => has t x && hasItems ts xs
  | _, _ => false

def hasFields : List (String × StaticType) → List StaticValue → Bool
  | [], [] => true
  | (_, t) :: fields, x :: xs => has t x && hasFields fields xs
  | _, _ => false

end

/-- Induction over a static type, after the types it is built from. -/
@[elab_as_elim]
theorem induction {motive : StaticType → Prop} (bool : motive .bool)
    (int : ∀ signed width, motive (.int signed width)) (float32 : motive .float32)
    (float64 : motive .float64) (text : motive .text) (bytes : motive .bytes) (unit : motive .unit)
    (value : motive .value) (option : ∀ inner, motive inner → motive (.option inner))
    (list : ∀ element, motive element → motive (.list element))
    (orderedMap : ∀ k v, motive k → motive v → motive (.orderedMap k v))
    (hashMap : ∀ k v, motive k → motive v → motive (.hashMap k v))
    (tuple : ∀ items, (∀ t ∈ items, motive t) → motive (.tuple items))
    (record : ∀ name fields, (∀ t ∈ fields.map Prod.snd, motive t) → motive (.record name fields))
    (t : StaticType) : motive t := by
  refine @StaticType.rec motive (fun items => ∀ t ∈ items, motive t)
    (fun fields => ∀ t ∈ fields.map Prod.snd, motive t) (fun field => motive field.2)
    bool int float32 float64 text bytes unit value option list orderedMap hashMap tuple record
    ?_ ?_ ?_ ?_ ?_ t
  · exact List.forall_mem_nil motive
  · exact fun t items ht hitems => List.forall_mem_cons.mpr ⟨ht, hitems⟩
  · exact List.forall_mem_nil motive
  · exact fun field fields hfield hfields => List.forall_mem_cons.mpr ⟨hfield, hfields⟩
  · exact fun name t ht => ht

section
variable {p : StaticType → Bool} {k v inner element : StaticType} {name : String}
  {items : List StaticType} {fields : List (String × StaticType)} {x : StaticValue}
  {xs : List StaticValue}

theorem allItems_iff : allItems p items = true ↔ ∀ t ∈ items, t.all p = true := by
  induction items with
  | nil => simp [allItems]
  | cons t items ih => simp [allItems, ih]

theorem allFields_iff : allFields p fields = true ↔ ∀ t ∈ fields.map Prod.snd, t.all p = true := by
  induction fields with
  | nil => simp [allFields]
  | cons field fields ih => simp [allFields, ih]

theorem all_self {t : StaticType} (h : t.all p = true) : p t = true := by
  cases t with
  | option | list | orderedMap | hashMap | tuple | record =>
      rw [all, Bool.and_eq_true] at h
      exact h.1
  | _ => exact h

theorem all_inner (h : (StaticType.option inner).all p = true ∨ (StaticType.list inner).all p = true) :
    inner.all p = true := by
  rcases h with h | h <;>
  · rw [all, Bool.and_eq_true] at h
    exact h.2

theorem all_map (h : (StaticType.orderedMap k v).all p = true ∨ (StaticType.hashMap k v).all p = true) :
    k.all p = true ∧ v.all p = true := by
  rcases h with h | h <;>
  · rw [all, Bool.and_eq_true, Bool.and_eq_true] at h
    exact h.2

theorem all_items (h : (StaticType.tuple items).all p = true) : ∀ t ∈ items, t.all p = true := by
  rw [all, Bool.and_eq_true] at h
  exact allItems_iff.mp h.2

theorem all_fields (h : (StaticType.record name fields).all p = true) :
    ∀ t ∈ fields.map Prod.snd, t.all p = true := by
  rw [all, Bool.and_eq_true] at h
  exact allFields_iff.mp h.2

theorem isKey_of_isValid
    (h : (StaticType.orderedMap k v).isValid = true ∨ (StaticType.hashMap k v).isValid = true) :
    k.isKey = true := by
  unfold isValid at h
  rcases h with h | h <;>
  · have self := all_self h
    exact self

theorem hasItems_iff : hasItems items xs = true ↔ List.Forall₂ (fun t x => t.has x = true) items xs := by
  induction items generalizing xs with
  | nil => cases xs <;> simp [hasItems]
  | cons t items ih => cases xs <;> simp [hasItems, ih]

theorem hasFields_iff :
    hasFields fields xs = true ↔ List.Forall₂ (fun t x => t.has x = true) (fields.map Prod.snd) xs := by
  induction fields generalizing xs with
  | nil => cases xs <;> simp [hasFields]
  | cons field fields ih => cases xs <;> simp [hasFields, ih]

theorem exists_type (h : List.Forall₂ (fun t x => t.has x = true) items xs) :
    ∀ x ∈ xs, ∃ t ∈ items, t.has x = true :=
  have values : List.Forall₂ (fun x t => t.has x = true) xs items := List.Forall₂.flip h
  exists_of_forall₂ values

theorem has_int {signed : Bool} {width : IntWidth} : (StaticType.int signed width).has x = true ↔
    (signed = true ∧ ∃ n, x = .int n ∧ width.holds true n.toInt = true) ∨
      (signed = false ∧ ∃ n, x = .uint n ∧ width.holds false n.toNat = true) := by
  cases signed with
  | true =>
      cases x with
      | int n =>
          change width.holds true n.toInt = true ↔ _
          simp
      | _ => exact iff_of_false Bool.false_ne_true (by rintro (⟨-, n, ⟨⟩, -⟩ | ⟨⟨⟩, -⟩))
  | false =>
      cases x with
      | uint n =>
          change width.holds false n.toNat = true ↔ _
          simp
      | _ => exact iff_of_false Bool.false_ne_true (by rintro (⟨⟨⟩, -⟩ | ⟨-, n, ⟨⟩, -⟩))

theorem has_option :
    (StaticType.option inner).has x = true ↔ x = .absent ∨ ∃ y, x = .present y ∧ inner.has y = true := by
  cases x with
  | absent => exact iff_of_true rfl (.inl rfl)
  | present y =>
      change inner.has y = true ↔ _
      simp
  | _ => exact iff_of_false Bool.false_ne_true (by rintro (⟨⟨⟩⟩ | ⟨y, ⟨⟩, -⟩))

theorem has_list : (StaticType.list element).has x = true ↔
    ∃ xs, x = .list xs ∧ ∀ y ∈ xs, element.has y = true := by
  cases x with
  | list xs =>
      change xs.all element.has = true ↔ _
      simp
  | _ => exact iff_of_false Bool.false_ne_true (by rintro ⟨xs, ⟨⟩, -⟩)

theorem has_orderedMap : (StaticType.orderedMap k v).has x = true ↔
    ∃ entries, x = .orderedMap entries ∧ ∀ e ∈ entries, k.has e.1 = true ∧ v.has e.2 = true := by
  cases x with
  | orderedMap entries =>
      change (entries.all fun e => k.has e.1 && v.has e.2) = true ↔ _
      simp
  | _ => exact iff_of_false Bool.false_ne_true (by rintro ⟨entries, ⟨⟩, -⟩)

theorem has_hashMap : (StaticType.hashMap k v).has x = true ↔
    ∃ entries, x = .hashMap entries ∧ ∀ e ∈ entries, k.has e.1 = true ∧ v.has e.2 = true := by
  cases x with
  | hashMap entries =>
      change (entries.all fun e => k.has e.1 && v.has e.2) = true ↔ _
      simp
  | _ => exact iff_of_false Bool.false_ne_true (by rintro ⟨entries, ⟨⟩, -⟩)

theorem has_tuple : (StaticType.tuple items).has x = true ↔
    ∃ xs, x = .tuple xs ∧ List.Forall₂ (fun t x => t.has x = true) items xs := by
  cases x with
  | tuple xs =>
      change hasItems items xs = true ↔ _
      simp [hasItems_iff]
  | _ => exact iff_of_false Bool.false_ne_true (by rintro ⟨xs, ⟨⟩, -⟩)

theorem has_record : (StaticType.record name fields).has x = true ↔
    ∃ xs, x = .record ⟨name, fieldDescriptors fields⟩ xs ∧
      List.Forall₂ (fun t x => t.has x = true) (fields.map Prod.snd) xs := by
  cases x with
  | record type xs =>
      change (type == ⟨name, fieldDescriptors fields⟩ && hasFields fields xs) = true ↔ _
      simp [hasFields_iff]
  | _ => exact iff_of_false Bool.false_ne_true (by rintro ⟨xs, ⟨⟩, -⟩)

end

end StaticType

namespace StaticValue

mutual

def all (p : StaticValue → Bool) : StaticValue → Bool
  | .present x => p (.present x) && all p x
  | .list items => p (.list items) && allItems p items
  | .orderedMap entries => p (.orderedMap entries) && allEntries p entries
  | .hashMap entries => p (.hashMap entries) && allEntries p entries
  | .tuple items => p (.tuple items) && allItems p items
  | .record type items => p (.record type items) && allItems p items
  | x => p x

def allItems (p : StaticValue → Bool) : List StaticValue → Bool
  | [] => true
  | x :: xs => all p x && allItems p xs

def allEntries (p : StaticValue → Bool) : List (StaticValue × StaticValue) → Bool
  | [] => true
  | (k, x) :: entries => all p k && all p x && allEntries p entries

end

def nanFree (x : StaticValue) : Bool :=
  x.all fun
    | .float32 y => !y.isNaN
    | .float64 y => !y.isNaN
    | .value v => v.nanFree
    | _ => true

/-- Whether the keys of maps are listed as those of maps are: each once, and those of an ordered map in
their order. -/
def isOrdered (x : StaticValue) : Bool :=
  x.all fun
    | .orderedMap entries => decide (entries.Pairwise fun a b => order b.1 a.1 = .gt)
    | .hashMap entries => decide (entries.Pairwise fun a b => order b.1 a.1 ≠ .eq)
    | _ => true

/-- Whether nothing that is present is written as if it were absent. -/
def isFull (x : StaticValue) : Bool :=
  x.all fun
    | .present y => !y.toValue.isNil
    | _ => true

mutual

/-- The value with what has no declared shape in the form in which it comes back. -/
def normal : StaticValue → StaticValue
  | .value v => .value (.ofPacked v.toPacked)
  | .present x => .present (normal x)
  | .list items => .list (normalItems items)
  | .orderedMap entries => .orderedMap (normalEntries entries)
  | .hashMap entries => .hashMap (normalEntries entries)
  | .tuple items => .tuple (normalItems items)
  | .record type items => .record type (normalItems items)
  | x => x

def normalItems : List StaticValue → List StaticValue
  | [] => []
  | x :: xs => normal x :: normalItems xs

def normalEntries : List (StaticValue × StaticValue) → List (StaticValue × StaticValue)
  | [] => []
  | (k, x) :: entries => (normal k, normal x) :: normalEntries entries

end

/-- Induction over a static value, after its parts. -/
@[elab_as_elim]
theorem induction {motive : StaticValue → Prop} (bool : ∀ b, motive (.bool b)) (int : ∀ n, motive (.int n))
    (uint : ∀ n, motive (.uint n)) (float32 : ∀ x, motive (.float32 x)) (float64 : ∀ x, motive (.float64 x))
    (text : ∀ s, motive (.text s)) (bytes : ∀ data, motive (.bytes data)) (unit : motive .unit)
    (value : ∀ v, motive (.value v)) (absent : motive .absent)
    (present : ∀ x, motive x → motive (.present x))
    (list : ∀ items, (∀ x ∈ items, motive x) → motive (.list items))
    (orderedMap : ∀ entries, (∀ e ∈ entries, motive e.1 ∧ motive e.2) → motive (.orderedMap entries))
    (hashMap : ∀ entries, (∀ e ∈ entries, motive e.1 ∧ motive e.2) → motive (.hashMap entries))
    (tuple : ∀ items, (∀ x ∈ items, motive x) → motive (.tuple items))
    (record : ∀ type items, (∀ x ∈ items, motive x) → motive (.record type items)) (x : StaticValue) :
    motive x := by
  refine @StaticValue.rec motive (fun items => ∀ x ∈ items, motive x)
    (fun entries => ∀ e ∈ entries, motive e.1 ∧ motive e.2) (fun e => motive e.1 ∧ motive e.2)
    bool int uint float32 float64 text bytes unit value absent present list orderedMap hashMap tuple record
    ?_ ?_ ?_ ?_ ?_ x
  · exact List.forall_mem_nil motive
  · exact fun x items hx hitems => List.forall_mem_cons.mpr ⟨hx, hitems⟩
  · exact fun e he => by cases he
  · exact fun e entries he hentries => List.forall_mem_cons.mpr ⟨he, hentries⟩
  · exact fun k x hk hx => ⟨hk, hx⟩

section
variable {p : StaticValue → Bool} {x : StaticValue} {items as bs : List StaticValue}
  {entries : List (StaticValue × StaticValue)}

theorem allItems_iff : allItems p items = true ↔ ∀ x ∈ items, x.all p = true := by
  induction items with
  | nil => simp [allItems]
  | cons x items ih => simp [allItems, ih]

theorem allEntries_iff :
    allEntries p entries = true ↔ ∀ e ∈ entries, e.1.all p = true ∧ e.2.all p = true := by
  induction entries with
  | nil => simp [allEntries]
  | cons e entries ih => simp [allEntries, ih, and_assoc]

theorem all_present : (present x).all p = true ↔ p (.present x) = true ∧ x.all p = true := by
  rw [all, Bool.and_eq_true]

theorem isFull_present : (present x).isFull = true ↔ x.toValue.isNil = false ∧ x.isFull = true := by
  unfold isFull
  rw [all_present, Bool.not_eq_true']

theorem all_list : (list items).all p = true ↔ p (.list items) = true ∧ ∀ x ∈ items, x.all p = true := by
  rw [all, Bool.and_eq_true, allItems_iff]

theorem all_tuple : (tuple items).all p = true ↔ p (.tuple items) = true ∧ ∀ x ∈ items, x.all p = true := by
  rw [all, Bool.and_eq_true, allItems_iff]

theorem all_record {type : RecordType} : (record type items).all p = true ↔
    p (.record type items) = true ∧ ∀ x ∈ items, x.all p = true := by
  rw [all, Bool.and_eq_true, allItems_iff]

theorem all_orderedMap : (orderedMap entries).all p = true ↔
    p (.orderedMap entries) = true ∧ ∀ e ∈ entries, e.1.all p = true ∧ e.2.all p = true := by
  rw [all, Bool.and_eq_true, allEntries_iff]

theorem all_hashMap : (hashMap entries).all p = true ↔
    p (.hashMap entries) = true ∧ ∀ e ∈ entries, e.1.all p = true ∧ e.2.all p = true := by
  rw [all, Bool.and_eq_true, allEntries_iff]

theorem normalItems_eq : normalItems items = items.map normal := by
  induction items with
  | nil => rfl
  | cons x items ih => rw [normalItems, ih, List.map_cons]

theorem normalEntries_eq : normalEntries entries = entries.map fun e => (e.1.normal, e.2.normal) := by
  induction entries with
  | nil => rfl
  | cons e entries ih => rw [normalEntries, ih, List.map_cons]

theorem toValues_eq : toValues items = items.map toValue := by
  induction items with
  | nil => rfl
  | cons x items ih => rw [toValues, ih, List.map_cons]

theorem toValueEntries_eq : toValueEntries entries = entries.map fun e => (e.1.toValue, e.2.toValue) := by
  induction entries with
  | nil => rfl
  | cons e entries ih => rw [toValueEntries, ih, List.map_cons]

theorem sameItems_iff :
    sameItems as bs = true ↔ List.Forall₂ (fun a b => a.same b = true) as bs := by
  induction as generalizing bs with
  | nil => cases bs <;> simp [sameItems]
  | cons a as ih => cases bs <;> simp [sameItems, ih]

theorem sameEntries_iff {as bs : List (StaticValue × StaticValue)} :
    sameEntries as bs = true ↔
      List.Forall₂ (fun a b => a.1.same b.1 = true ∧ a.2.same b.2 = true) as bs := by
  induction as generalizing bs with
  | nil => cases bs <;> simp [sameEntries]
  | cons a as ih =>
      cases bs with
      | nil => simp [sameEntries]
      | cons b bs =>
          obtain ⟨k, a⟩ := a
          obtain ⟨l, b⟩ := b
          simp [sameEntries, ih]

theorem orderItems_self (h : ∀ x ∈ items, order x x = .eq) : orderItems items items = .eq := by
  induction items with
  | nil => rfl
  | cons x items ih =>
      obtain ⟨first, others⟩ := List.forall_mem_cons.mp h
      rw [orderItems, first, ih others]
      rfl

theorem orderEntries_self (h : ∀ e ∈ entries, order e.1 e.1 = .eq ∧ order e.2 e.2 = .eq) :
    orderEntries entries entries = .eq := by
  induction entries with
  | nil => rfl
  | cons e entries ih =>
      obtain ⟨first, others⟩ := List.forall_mem_cons.mp h
      rw [orderEntries, first.1, first.2, ih others]
      rfl

theorem order_self (x : StaticValue) : order x x = .eq := by
  induction x using StaticValue.induction with
  | bool | int | uint | text | bytes => simp [order]
  | float32 | float64 | unit | value | absent => rfl
  | present x ih => exact ih
  | list items ih | tuple items ih | record type items ih => exact orderItems_self ih
  | orderedMap entries ih => exact orderEntries_self ih
  | hashMap => rfl

end

/-- The order tells the values of a type apart. -/
def Separates (t : StaticType) : Prop :=
  ∀ a b, t.has a = true → t.has b = true → order a b = .eq → a = b

section
variable {t : StaticType} {ts : List StaticType} {as bs : List StaticValue}

theorem orderItems_eq (separates : Separates t) (ha : ∀ x ∈ as, t.has x = true)
    (hb : ∀ x ∈ bs, t.has x = true) (same : orderItems as bs = .eq) : as = bs := by
  induction as generalizing bs with
  | nil =>
      cases bs with
      | nil => rfl
      | cons b bs => cases same
  | cons a as ih =>
      cases bs with
      | nil => cases same
      | cons b bs =>
          rw [orderItems, Ordering.then_eq_eq] at same
          obtain ⟨first, others⟩ := same
          obtain ⟨ha, has⟩ := List.forall_mem_cons.mp ha
          obtain ⟨hb, hbs⟩ := List.forall_mem_cons.mp hb
          rw [separates a b ha hb first, ih has hbs others]

theorem orderItems_eq_of_forall₂ (separates : ∀ t ∈ ts, Separates t)
    (ha : List.Forall₂ (fun t x => t.has x = true) ts as)
    (hb : List.Forall₂ (fun t x => t.has x = true) ts bs) (same : orderItems as bs = .eq) : as = bs := by
  induction ha generalizing bs with
  | nil =>
      cases hb
      rfl
  | cons ha _ ih =>
      cases hb with
      | cons hb hbs =>
          rw [orderItems, Ordering.then_eq_eq] at same
          obtain ⟨hfirst, hothers⟩ := List.forall_mem_cons.mp separates
          rw [hfirst _ _ ha hb same.1, ih hothers hbs same.2]

theorem orderEntries_eq {k v : StaticType} {as bs : List (StaticValue × StaticValue)}
    (keys : Separates k) (values : Separates v) (ha : ∀ e ∈ as, k.has e.1 = true ∧ v.has e.2 = true)
    (hb : ∀ e ∈ bs, k.has e.1 = true ∧ v.has e.2 = true) (same : orderEntries as bs = .eq) : as = bs := by
  induction as generalizing bs with
  | nil =>
      cases bs with
      | nil => rfl
      | cons b bs => cases same
  | cons a as ih =>
      cases bs with
      | nil => cases same
      | cons b bs =>
          rw [orderEntries, Ordering.then_eq_eq, Ordering.then_eq_eq] at same
          obtain ⟨⟨key, value⟩, others⟩ := same
          obtain ⟨ha, has⟩ := List.forall_mem_cons.mp ha
          obtain ⟨hb, hbs⟩ := List.forall_mem_cons.mp hb
          have first : a = b :=
            Prod.ext (keys a.1 b.1 ha.1 hb.1 key) (values a.2 b.2 ha.2 hb.2 value)
          rw [first, ih has hbs others]

/-- Keys that the order does not tell apart are equal. -/
theorem separates_of_isKey (key : t.isKey = true) : Separates t := by
  induction t using StaticType.induction with
  | float32 | float64 | value | hashMap => cases StaticType.all_self key
  | bool =>
      intro a b ha hb same
      cases a <;> cases ha
      cases b <;> cases hb
      next x y => cases x <;> cases y <;> first | rfl | cases same
  | int signed width =>
      intro a b ha hb same
      rcases StaticType.has_int.mp ha with ⟨rfl, n, rfl, -⟩ | ⟨rfl, n, rfl, -⟩
      · obtain ⟨-, m, rfl, -⟩ := (StaticType.has_int.mp hb).resolve_right (by simp)
        simpa [order, Int64.toInt_inj] using same
      · obtain ⟨-, m, rfl, -⟩ := (StaticType.has_int.mp hb).resolve_left (by simp)
        simpa [order, UInt64.toNat_inj] using same
  | text =>
      intro a b ha hb same
      cases a <;> cases ha
      cases b <;> cases hb
      simpa [order] using same
  | bytes =>
      intro a b ha hb same
      cases a <;> cases ha
      cases b <;> cases hb
      have equal := Std.LawfulEqOrd.eq_of_compare same
      have injective : Function.Injective UInt8.toNat := fun m n => UInt8.toNat_inj.mp
      rw [injective.list_map equal]
  | unit =>
      intro a b ha hb same
      cases a <;> cases ha
      cases b <;> cases hb
      rfl
  | option inner ih =>
      have inside : inner.isKey = true := StaticType.all_inner (.inl key)
      intro a b ha hb same
      rcases StaticType.has_option.mp ha with rfl | ⟨x, rfl, hx⟩ <;>
        rcases StaticType.has_option.mp hb with rfl | ⟨y, rfl, hy⟩
      · rfl
      · cases same
      · cases same
      · rw [ih inside x y hx hy same]
  | list element ih =>
      have inside : element.isKey = true := StaticType.all_inner (.inr key)
      intro a b ha hb same
      obtain ⟨as, rfl, has⟩ := StaticType.has_list.mp ha
      obtain ⟨bs, rfl, hbs⟩ := StaticType.has_list.mp hb
      rw [orderItems_eq (ih inside) has hbs same]
  | orderedMap k v hk hv =>
      obtain ⟨keys, values⟩ := StaticType.all_map (.inl key)
      intro a b ha hb same
      obtain ⟨as, rfl, has⟩ := StaticType.has_orderedMap.mp ha
      obtain ⟨bs, rfl, hbs⟩ := StaticType.has_orderedMap.mp hb
      rw [orderEntries_eq (hk keys) (hv values) has hbs same]
  | tuple items ih =>
      have inside := StaticType.all_items key
      intro a b ha hb same
      obtain ⟨as, rfl, has⟩ := StaticType.has_tuple.mp ha
      obtain ⟨bs, rfl, hbs⟩ := StaticType.has_tuple.mp hb
      rw [orderItems_eq_of_forall₂ (fun t ht => ih t ht (inside t ht)) has hbs same]
  | record name fields ih =>
      have inside := StaticType.all_fields key
      intro a b ha hb same
      obtain ⟨as, rfl, has⟩ := StaticType.has_record.mp ha
      obtain ⟨bs, rfl, hbs⟩ := StaticType.has_record.mp hb
      rw [orderItems_eq_of_forall₂ (fun t ht => ih t ht (inside t ht)) has hbs same]

end

end StaticValue

end PackRpc
