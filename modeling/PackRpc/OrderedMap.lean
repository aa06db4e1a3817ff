/-!
# Ordered maps

A finite map is the list of its entries in the order of their keys. What is found under a key after an
insertion does not depend on the order; the order is what a listing shows.
-/
namespace PackRpc

/-- A finite map, listed by key. -/
structure OrderedMap (κ α : Type) where
  entries : List (κ × α)

namespace OrderedMap

variable {κ α β : Type}

def empty : OrderedMap κ α := ⟨[]⟩

instance : EmptyCollection (OrderedMap κ α) := ⟨empty⟩

instance : Inhabited (OrderedMap κ α) := ⟨empty⟩

def size (m : OrderedMap κ α) : Nat := m.entries.length

def isEmpty (m : OrderedMap κ α) : Bool := m.entries.isEmpty

def keys (m : OrderedMap κ α) : List κ := m.entries.map Prod.fst

def values (m : OrderedMap κ α) : List α := m.entries.map Prod.snd

def mapValues (f : α → β) (m : OrderedMap κ α) : OrderedMap κ β :=
  ⟨m.entries.map fun e => (e.1, f e.2)⟩

variable [Ord κ]

def find (key : κ) : List (κ × α) → Option α
  | [] => none
  | (k, v) :: rest => if compare key k = .eq then some v else find key rest

def get? (m : OrderedMap κ α) (key : κ) : Option α := find key m.entries

def contains (m : OrderedMap κ α) (key : κ) : Bool := (m.get? key).isSome

/-- Puts an entry before the first greater key, or in the place of an equal one. -/
def place (key : κ) (value : α) : List (κ × α) → List (κ × α)
  | [] => [(key, value)]
  | (k, v) :: rest =>
    match compare key k with
    | .lt => (key, value) :: (k, v) :: rest
    | .eq => (key, value) :: rest
    | .gt => (k, v) :: place key value rest

def insert (m : OrderedMap κ α) (key : κ) (value : α) : OrderedMap κ α :=
  ⟨place key value m.entries⟩

/-- Inserts entries one after another: of equal keys, the last one stays. -/
def ofList (entries : List (κ × α)) : OrderedMap κ α :=
  entries.foldl (fun m e => m.insert e.1 e.2) empty

section Laws
variable [Std.LawfulEqOrd κ]

theorem find_place_self (key : κ) (value : α) (entries : List (κ × α)) :
    find key (place key value entries) = some value := by
  induction entries with
  | nil => simp [place, find]
  | cons e rest ih =>
    unfold place
    split <;> simp_all [find]

theorem find_place_of_ne {key other : κ} (h : other ≠ key) (value : α) (entries : List (κ × α)) :
    find other (place key value entries) = find other entries := by
  induction entries with
  | nil => simp [place, find, h]
  | cons e rest ih =>
    unfold place
    split
    · simp [find, h]
    · next hk =>
      have : key = e.1 := Std.LawfulEqOrd.eq_of_compare hk
      simp [find, ← this, h]
    · simp [find, ih]

@[simp] theorem get?_insert_self (m : OrderedMap κ α) (key : κ) (value : α) :
    (m.insert key value).get? key = some value :=
  find_place_self key value m.entries

theorem get?_insert_of_ne (m : OrderedMap κ α) {key other : κ} (h : other ≠ key) (value : α) :
    (m.insert key value).get? other = m.get? other :=
  find_place_of_ne h value m.entries

end Laws

end OrderedMap

end PackRpc
