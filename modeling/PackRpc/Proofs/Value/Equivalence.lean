import PackRpc.Proofs.Binary.Number
import PackRpc.Proofs.Value.Equality
/-!
# Equality as a relation

Values without NaN are the same as themselves, and equality can be turned around. It can be chained except
past a sequence between records of two types: a sequence is the same as a record of any type with these
items, but records of two types differ.
-/
namespace PackRpc.Value

/-- What a value without items stands for; integers and floats are numbers, whatever their types. -/
inductive Leaf where
  | nil
  | bool (b : Bool)
  | number (x : Binary.Number)
  | text (s : String)
  | bytes (data : Bytes)

def leaf? : Value → Option Leaf
  | .nil => some .nil
  | .bool b => some (.bool b)
  | .int n => some (.number (.finite n.toInt))
  | .uint n => some (.number (.finite (n.toNat : Int)))
  | .float x => x.classify.number?.map .number
  | .string s => some (.text s)
  | .binary data => some (.bytes data)
  | .seq _ | .map _ | .record .. => none

def isLeaf : Value → Bool
  | .seq _ | .map _ | .record .. => false
  | _ => true

mutual

/-- Whether two values have records of one type wherever both have records. -/
def agrees : Value → Value → Bool
  | .seq a, .seq b => agreesItems a b
  | .seq a, .record _ b => agreesItems a b
  | .record _ a, .seq b => agreesItems a b
  | .record s a, .record t b => s == t && agreesItems a b
  | .map a, .map b => agreesEntries a b
  | _, _ => true

def agreesItems : List Value → List Value → Bool
  | a :: as, b :: bs => agrees a b && agreesItems as bs
  | _, _ => true

def agreesEntries : List (Value × Value) → List (Value × Value) → Bool
  | (k, a) :: as, (l, b) :: bs => agrees k l && agrees a b && agreesEntries as bs
  | _, _ => true

end

/-- Values without items are the same when they stand for the same. -/
theorem sameLeaf_iff (a b : Value) : a.sameLeaf b = true ↔ a.leaf?.isSome = true ∧ a.leaf? = b.leaf? := by
  have floats : ∀ x y : Binary64, x.same y = true ↔
      x.classify.number?.isSome = true ∧ x.classify.number? = y.classify.number? :=
    fun x y => Binary.Class.same_iff x.classify y.classify
  have integers : ∀ (x : Binary64) (n : Int), x.toInt? = some n ↔ x.classify.number? = some (.finite n) :=
    fun x n => Binary.Class.toInt?_eq_some
  cases a <;> cases b <;> simp [sameLeaf, leaf?, integer?, floats, integers, -Int.cast_natCast]
  case float.float x y =>
    cases x.classify.number? <;> cases y.classify.number? <;> simp
  case float.int x _ | float.uint x _ | float.seq x _ | float.map x _ | float.record x _ _ =>
    cases x.classify.number? <;> simp

theorem isLeaf_of_leaf? {v : Value} (h : v.leaf?.isSome = true) : v.isLeaf = true := by
  cases v with
  | seq items | map entries | record type items => cases h
  | _ => rfl

theorem same_of_isLeaf {a b : Value} (hb : b.isLeaf = true) : a.same b = a.sameLeaf b := by
  cases b with
  | seq items | map entries | record type items => cases hb
  | _ => cases a <;> rfl

theorem agrees_of_isLeaf {a : Value} (ha : a.isLeaf = true) (b : Value) : a.agrees b = true := by
  cases a with
  | seq items | map entries | record type items => cases ha
  | _ => cases b <;> rfl

theorem items_of_record {s t : RecordType} {as bs : List Value}
    (h : (record s as).same (record t bs) = true) : sameItems as bs = true := by
  rw [same, Bool.and_eq_true] at h
  exact h.2

theorem sameLeaf_trans {a b c : Value} (first : a.sameLeaf b = true) (second : b.sameLeaf c = true) :
    a.sameLeaf c = true := by
  rw [sameLeaf_iff] at *
  exact ⟨first.1, first.2.trans second.2⟩

theorem same_self (v : Value) (h : v.nanFree = true) : v.same v = true := by
  induction v using Value.induction with
  | nil | bool b | string text | binary data => simp [same, sameLeaf]
  | int n => exact same_of_integer (a := .int n) rfl rfl
  | uint n => exact same_of_integer (a := .uint n) rfl rfl
  | float x => exact Binary64.same_self (isNaN_of_nanFree h)
  | seq items ih =>
      have number := nanFreeItems_iff.mp h
      rw [same, sameItems_iff, List.forall₂_same]
      exact fun v hv => ih v hv (number v hv)
  | record type items ih =>
      have number := nanFreeItems_iff.mp h
      rw [same_record, sameItems_iff, List.forall₂_same]
      exact fun v hv => ih v hv (number v hv)
  | map entries ih =>
      have number := nanFreeEntries_iff.mp h
      rw [same, sameEntries_iff, List.forall₂_same]
      exact fun e he => ⟨(ih e he).1 (number e he).1, (ih e he).2 (number e he).2⟩

/-- Equality passes over `b` as far as the types of records allow. -/
def Chains (b : Value) : Prop :=
  ∀ a c : Value, a.same b = true → b.same c = true → a.same c = a.agrees c

theorem sameItems_chain {as bs cs : List Value} (h : ∀ b ∈ bs, b.Chains) (first : sameItems as bs = true)
    (second : sameItems bs cs = true) : sameItems as cs = agreesItems as cs := by
  induction bs generalizing as cs with
  | nil =>
      cases as with
      | nil =>
          cases cs with
          | nil => rfl
          | cons c cs => cases second
      | cons a as => cases first
  | cons b bs ih =>
      obtain ⟨chain, chains⟩ := List.forall_mem_cons.mp h
      cases as with
      | nil => cases first
      | cons a as =>
          cases cs with
          | nil => cases second
          | cons c cs =>
              simp only [sameItems, Bool.and_eq_true] at first second
              rw [sameItems, agreesItems, chain a c first.1 second.1, ih chains first.2 second.2]

theorem sameEntries_chain {as bs cs : List (Value × Value)} (h : ∀ e ∈ bs, e.1.Chains ∧ e.2.Chains)
    (first : sameEntries as bs = true) (second : sameEntries bs cs = true) :
    sameEntries as cs = agreesEntries as cs := by
  induction bs generalizing as cs with
  | nil =>
      cases as with
      | nil =>
          cases cs with
          | nil => rfl
          | cons c cs => cases second
      | cons a as => cases first
  | cons b bs ih =>
      obtain ⟨chain, chains⟩ := List.forall_mem_cons.mp h
      cases as with
      | nil => cases first
      | cons a as =>
          cases cs with
          | nil => cases second
          | cons c cs =>
              simp only [sameEntries, Bool.and_eq_true] at first second
              rw [sameEntries, agreesEntries, chain.1 a.1 c.1 first.1.1 second.1.1,
                chain.2 a.2 c.2 first.1.2 second.1.2, ih chains first.2 second.2]

theorem chains_of_isLeaf {b : Value} (hb : b.isLeaf = true) : b.Chains := by
  intro a c first second
  rw [same_of_isLeaf hb] at first
  rw [same_comm, same_of_isLeaf hb, sameLeaf_comm] at second
  have third := sameLeaf_trans first second
  have ha := isLeaf_of_leaf? ((sameLeaf_iff a b).mp first).1
  have hc := isLeaf_of_leaf? ((sameLeaf_iff c b).mp (sameLeaf_comm b c ▸ second)).1
  rw [same_of_isLeaf hc, third, agrees_of_isLeaf ha]

theorem chains (b : Value) : b.Chains := by
  induction b using Value.induction with
  | seq items ih =>
      intro a c first second
      cases a with
      | seq as =>
          cases c with
          | seq cs | record u cs => exact sameItems_chain ih first second
          | _ => cases second
      | record s as =>
          cases c with
          | seq cs => exact sameItems_chain ih first second
          | record u cs => rw [same, agrees, sameItems_chain ih first second]
          | _ => cases second
      | _ => cases first
  | record type items ih =>
      intro a c first second
      cases a with
      | seq as =>
          cases c with
          | seq cs => exact sameItems_chain ih first second
          | record u cs => exact sameItems_chain ih first (items_of_record second)
          | _ => cases second
      | record s as =>
          cases c with
          | seq cs => exact sameItems_chain ih (items_of_record first) second
          | record u cs =>
              rw [same, agrees, sameItems_chain ih (items_of_record first) (items_of_record second)]
          | _ => cases second
      | _ => cases first
  | map entries ih =>
      intro a c first second
      cases a with
      | map as =>
          cases c with
          | map cs => exact sameEntries_chain ih first second
          | _ => cases second
      | _ => cases first
  | _ => exact chains_of_isLeaf rfl

/-- A value without NaN is the same as itself, equality can be turned around, and two values that are the same
as a third one are the same exactly when the types of their records agree. -/
theorem same_chains (a b c : Value) :
    (a.nanFree = true → a.same a = true) ∧
      (a.same b = true → b.same a = true) ∧
      (a.same b = true → b.same c = true → (a.same c = true ↔ a.agrees c = true)) := by
  refine ⟨same_self a, fun first => ?_, fun first second => ?_⟩
  · rwa [same_comm]
  · rw [chains b a c first second]

/-- Integers of both types, a whole float, and records of one type in the place of a sequence. -/
theorem same_chains_mixed :
    let point : RecordType := ⟨"point", [("x", .float)]⟩
    let a : Value := .seq [.record point [.uint 2], .map [(.string "k", .binary [0])]]
    let b : Value := .record ⟨"pair", [("p", .object), ("m", .object)]⟩
      [.seq [.int 2], .map [(.string "k", .binary [0])]]
    let c : Value := .seq [.record point [.float ⟨0x4000000000000000⟩], .map [(.string "k", .binary [0])]]
    a.nanFree = true ∧ a.same b = true ∧ b.same c = true ∧ a.agrees c = true ∧ a.same a = true ∧
      b.same a = true ∧ a.same c = true := by
  intro point a b c
  have number : a.nanFree = true := by decide
  have first : a.same b = true := by decide
  have second : b.same c = true := by decide +kernel
  have types : a.agrees c = true := by decide
  obtain ⟨itself, back, chain⟩ := same_chains a b c
  exact ⟨number, first, second, types, itself number, back first, (chain first second).mpr types⟩

/-- Records of two types are both the same as the sequence of their items, and differ. -/
theorem same_not_transitive : ¬ ∀ a b c : Value, a.nanFree = true → b.nanFree = true → c.nanFree = true →
    a.same a = true ∧ (a.same b = true → b.same a = true) ∧
      (a.same b = true → b.same c = true → a.same c = true) := by
  intro equivalence
  let p : RecordType := ⟨"p", [("a", .int true .w32)]⟩
  let q : RecordType := ⟨"q", [("a", .int true .w32)]⟩
  have chain := (equivalence (.record p [.int 1]) (.seq [.int 1]) (.record q [.int 1]) rfl rfl rfl).2.2
  have differ : (Value.record p [.int 1]).same (.record q [.int 1]) = false := by decide
  rw [chain (by decide) (by decide)] at differ
  cases differ

end PackRpc.Value
