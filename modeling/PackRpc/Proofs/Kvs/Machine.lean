import PackRpc.Kvs.Service
import Mathlib.Algebra.Order.BigOperators.Group.Multiset
import Mathlib.Algebra.Order.Ring.Int
import Mathlib.Data.Finmap
/-!
# A finite map with snapshots

What the key-value service is to its callers: integers under keys, in no order and with nothing computed
ahead, and copies of all of them under names. A request is first read as a command, by the table of the
commands, and then obeyed.
-/
namespace PackRpc

theorem card_keys {κ α : Type} (t : Finmap fun _ : κ => α) : t.keys.card = t.entries.card :=
  Multiset.card_map Sigma.fst t.entries

def Packed.int32? : Packed → Option Int32
  | .int n => if -2 ^ 31 ≤ n.val ∧ n.val < 2 ^ 31 then some (.ofInt n.val) else none
  | _ => none

namespace Kvs

abbrev Table := Finmap fun _ : String => Int32

namespace Table

/-- What stands under a key, and zero under any other. -/
def valueAt (t : Table) (key : String) : Int := ((t.lookup key).map Int32.toInt).getD 0

/-- The exact sum of all values. -/
def total (t : Table) : Int := (t.entries.map fun e => e.2.toInt).sum

/-- The sum of all values in 64 bits. -/
def sum (t : Table) : Int64 := .ofInt t.total

def average (t : Table) : Binary64 := (Binary64.ofInt t.sum.toInt).div (.ofInt t.keys.card)

variable {t : Table} {key : String}

theorem valueAt_of_notMem (absent : key ∉ t) : t.valueAt key = 0 := by
  rw [valueAt, Finmap.lookup_eq_none.mpr absent]
  rfl

theorem total_insert_of_notMem (absent : key ∉ t) (value : Int32) :
    total (t.insert key value) = t.total + value.toInt := by
  rw [total, total, Finmap.entries_insert_of_notMem absent, Multiset.map_cons, Multiset.sum_cons, add_comm]

theorem insert_erase {value : Int32} (found : t.lookup key = some value) :
    (t.erase key).insert key value = t := by
  refine Finmap.ext_lookup fun other => ?_
  by_cases same : other = key
  · rw [same, Finmap.lookup_insert, found]
  · rw [Finmap.lookup_insert_of_ne _ same, Finmap.lookup_erase_ne same]

theorem total_insert (t : Table) (key : String) (value : Int32) :
    total (t.insert key value) = t.total + (value.toInt - t.valueAt key) := by
  by_cases present : key ∈ t
  · obtain ⟨old, found⟩ := Finmap.mem_iff.mp present
    have absent : key ∉ t.erase key := Finmap.notMem_erase_self
    have before : t.total = total (t.erase key) + old.toInt := by
      rw [← total_insert_of_notMem absent, insert_erase found]
    have after : t.insert key value = (t.erase key).insert key value := by
      conv_lhs => rw [← insert_erase found, Finmap.insert_insert]
    have replaced : t.valueAt key = old.toInt := by
      rw [valueAt, found]
      rfl
    rw [after, total_insert_of_notMem absent, before, replaced]
    omega
  · rw [total_insert_of_notMem present, valueAt_of_notMem present, Int.sub_zero]

theorem sum_insert (t : Table) (key : String) (value : Int32) :
    sum (t.insert key value) = t.sum + .ofInt (value.toInt - t.valueAt key) := by
  rw [sum, total_insert, Int64.ofInt_add]
  rfl

theorem total_bounds (t : Table) : t.keys.card * -2 ^ 31 ≤ t.total ∧ t.total ≤ t.keys.card * (2 ^ 31 - 1) := by
  have each : ∀ n ∈ t.entries.map fun e => e.2.toInt, -2 ^ 31 ≤ n ∧ n ≤ 2 ^ 31 - 1 := by
    intro n member
    obtain ⟨e, -, rfl⟩ := Multiset.mem_map.mp member
    exact ⟨e.2.le_toInt, Int.le_sub_one_of_lt e.2.toInt_lt⟩
  have least := Multiset.card_nsmul_le_sum fun n member => (each n member).1
  have greatest := Multiset.sum_le_card_nsmul _ _ fun n member => (each n member).2
  rw [Multiset.card_map, ← card_keys, nsmul_eq_mul] at least greatest
  exact ⟨least, greatest⟩

/-- With fewer than `2 ^ 32` keys the sum in 64 bits is the exact one. -/
theorem toInt_sum (few : t.keys.card < 2 ^ 32) : t.sum.toInt = t.total := by
  obtain ⟨least, greatest⟩ := t.total_bounds
  exact Int64.toInt_ofInt_of_le (by omega) (by omega)

end Table

inductive Command where
  | put (key : String) (value : Int32)
  | get (key : String)
  | average
  | config
  | status
  | clear
  | mix
  | save (name : String)
  | load (name : String)
  | proxyStatus

namespace Command

def bare (command : Command) : List Packed → Option Command
  | [] => some command
  | _ => none

/-- A command that takes one text. -/
def named (command : String → Command) : List Packed → Option Command
  | [w] => w.text?.map command
  | _ => none

def entry : List Packed → Option Command
  | [key, value] =>
    match key.text?, value.int32? with
    | some key, some value => some (.put key value)
    | _, _ => none
  | _ => none

/-- How the arguments of each method are read. -/
def forms : List (String × (List Packed → Option Command)) := [
  ("put", entry),
  ("get", named .get),
  ("get_average", bare .average),
  ("get_config", bare .config),
  ("get_status", bare .status),
  ("clear", bare .clear),
  ("do_mix", bare .mix),
  ("save", named .save),
  ("load", named .load),
  ("get_proxy_status", bare .proxyStatus)]

/-- Reads a request, the first parameter of which is the service name, or says with which code it is
refused. -/
def read (method : String) (params : List Packed) : Except Packed Command :=
  match forms.lookup method with
  | none => .error (.ofNat unknownMethodCode)
  | some form =>
    match params with
    | [] => .error (.ofNat typeMismatchCode)
    | _ :: args =>
      match form args with
      | some command => .ok command
      | none => .error (.ofNat typeMismatchCode)

end Command

/-- A finite map, and snapshots of it by name. -/
structure Machine where
  id : String
  config : String
  live : Table := ∅
  snapshots : Finmap (fun _ : String => Table) := ∅

namespace Machine

def obey (m : Machine) : Command → Except Packed Packed × Machine
  | .put key value => (.ok (.bool true), { m with live := m.live.insert key value })
  | .get key =>
    match m.live.lookup key with
    | some value => (.ok (.array [.str key, .ofInt value.toInt]), m)
    | none => (.error (.str (key ++ " not found")), m)
  | .average => (.ok (.float64 m.live.average), m)
  | .config => (.ok (.str m.config), m)
  | .status =>
    (.ok (.map [(.str m.id, .map [(.str "global_size", .str "0"),
      (.str "local_size", .str (toString m.live.keys.card)), (.str "type", .str "kvs")])]), m)
  | .clear => (.ok (.bool true), { m with live := ∅ })
  | .mix => (.ok (.bool true), m)
  | .save name =>
    (.ok (.map [(.str m.id, .str ("memory:" ++ name))]),
      { m with snapshots := m.snapshots.insert name m.live })
  | .load name =>
    match m.snapshots.lookup name with
    | some live => (.ok (.bool true), { m with live })
    | none => (.error (.str ("model " ++ name ++ " not found")), m)
  | .proxyStatus => (.error (.str (m.id ++ " is not a proxy")), m)

def dispatch (method : String) (params : List Packed) (m : Machine) : Except Packed Packed × Machine :=
  match Command.read method params with
  | .ok command => m.obey command
  | .error code => (.error code, m)

end Machine

/-- Requests dispatched one after another, each on the state that the ones before it left. -/
def dispatchAll {σ : Type} (dispatch : String → List Packed → σ → Except Packed Packed × σ) :
    List (String × List Packed) → σ → List (Except Packed Packed) × σ
  | [], state => ([], state)
  | (method, params) :: requests, state =>
    let (answer, state) := dispatch method params state
    let (answers, state) := dispatchAll dispatch requests state
    (answer :: answers, state)

theorem dispatchAll_append {σ : Type} (dispatch : String → List Packed → σ → Except Packed Packed × σ)
    (requests later : List (String × List Packed)) (state : σ) :
    (dispatchAll dispatch (requests ++ later) state).2 =
      (dispatchAll dispatch later (dispatchAll dispatch requests state).2).2 := by
  induction requests generalizing state with
  | nil => rfl
  | cons request requests ih => exact ih _

namespace Machine

variable {m : Machine} {name : String}

/-- A snapshot stays as it is unless another one is taken under its name. -/
theorem snapshot_kept {command : Command} (other : command ≠ .save name) :
    (m.obey command).2.snapshots.lookup name = m.snapshots.lookup name := by
  cases command with
  | save new =>
      have different : name ≠ new := fun same => other (by rw [same])
      exact Finmap.lookup_insert_of_ne _ different
  | get key =>
      rw [obey]
      split <;> rfl
  | load old =>
      rw [obey]
      split <;> rfl
  | _ => rfl

theorem snapshot_kept_by_all {requests : List (String × List Packed)}
    (others : ∀ r ∈ requests, Command.read r.1 r.2 ≠ .ok (.save name)) :
    (dispatchAll dispatch requests m).2.snapshots.lookup name = m.snapshots.lookup name := by
  induction requests generalizing m with
  | nil => rfl
  | cons request requests ih =>
      obtain ⟨first, rest⟩ := List.forall_mem_cons.mp others
      have step : (dispatch request.1 request.2 m).2.snapshots.lookup name = m.snapshots.lookup name := by
        rw [dispatch]
        split
        · next command read =>
            exact snapshot_kept fun same => first (by rw [read, same])
        · rfl
      exact (ih rest).trans step

/-- What was saved is loaded again, whatever happened in between. -/
theorem live_restored {service : Packed} {requests : List (String × List Packed)}
    (others : ∀ r ∈ requests, Command.read r.1 r.2 ≠ .ok (.save name)) :
    (dispatchAll dispatch
      (("save", [service, .str name]) :: requests ++ [("load", [service, .str name])]) m).2.live = m.live := by
  have saved : Command.read "save" [service, .str name] = .ok (.save name) := rfl
  have loaded : Command.read "load" [service, .str name] = .ok (.load name) := rfl
  let taken : Machine := { m with snapshots := m.snapshots.insert name m.live }
  have kept : (dispatchAll dispatch requests taken).2.snapshots.lookup name = some m.live :=
    (snapshot_kept_by_all others).trans (Finmap.lookup_insert _)
  rw [List.cons_append, dispatchAll]
  simp only [dispatch, saved, obey]
  rw [dispatchAll_append]
  simp only [dispatchAll, dispatch, loaded, obey]
  rw [kept]

end Machine

end Kvs

end PackRpc
