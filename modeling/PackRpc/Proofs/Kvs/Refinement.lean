import PackRpc.Proofs.Kvs.Machine
import PackRpc.Proofs.Descriptor.Stability
import PackRpc.Proofs.OrderedMap

namespace PackRpc

namespace OrderedMap

variable {κ α : Type} [Ord κ] {key : κ} {value : α} {entries : List (κ × α)}

theorem find_eq_none (other : ∀ e ∈ entries, compare key e.1 ≠ .eq) : find key entries = none := by
  induction entries with
  | nil => rfl
  | cons e entries ih =>
      obtain ⟨first, others⟩ := List.forall_mem_cons.mp other
      rw [find, if_neg first]
      exact ih others

theorem get?_mapValues {β : Type} (f : α → β) (m : OrderedMap κ α) (key : κ) :
    (m.mapValues f).get? key = (m.get? key).map f := by
  rw [get?, get?, mapValues]
  induction m.entries with
  | nil => rfl
  | cons e entries ih =>
      rw [List.map_cons, find, find]
      split
      · rfl
      · exact ih

variable [DecidableEq κ]

/-- The finite map that entries come to; of equal keys, the first one counts. -/
def collected : List (κ × α) → Finmap fun _ : κ => α
  | [] => ∅
  | (key, value) :: entries => (collected entries).insert key value

def toFinmap (m : OrderedMap κ α) : Finmap fun _ : κ => α := collected m.entries

theorem lookup_collected [Std.LawfulEqOrd κ] (entries : List (κ × α)) (key : κ) :
    (collected entries).lookup key = find key entries := by
  induction entries with
  | nil => exact Finmap.lookup_empty key
  | cons e entries ih =>
      rw [collected, find]
      by_cases same : key = e.1
      · rw [same, Finmap.lookup_insert, if_pos Std.ReflCmp.compare_self]
      · rw [Finmap.lookup_insert_of_ne _ same, if_neg fun equal => same (Std.LawfulEqOrd.eq_of_compare equal)]
        exact ih

theorem lookup_toFinmap [Std.LawfulEqOrd κ] (m : OrderedMap κ α) (key : κ) :
    m.toFinmap.lookup key = m.get? key := lookup_collected m.entries key

theorem toFinmap_insert [Std.LawfulEqOrd κ] (m : OrderedMap κ α) (key : κ) (value : α) :
    (m.insert key value).toFinmap = m.toFinmap.insert key value := by
  refine Finmap.ext_lookup fun other => ?_
  rw [lookup_toFinmap]
  by_cases same : other = key
  · rw [same, get?_insert_self, Finmap.lookup_insert]
  · rw [get?_insert_of_ne m same, Finmap.lookup_insert_of_ne _ same, lookup_toFinmap]

/-- Nothing is listed twice. -/
theorem size_eq_card [Std.LawfulEqOrd κ] {m : OrderedMap κ α} (h : Ascending m.entries) :
    m.size = m.toFinmap.keys.card := by
  obtain ⟨entries⟩ := m
  rw [size, toFinmap, card_keys]
  induction entries with
  | nil => rfl
  | cons e entries ih =>
      obtain ⟨first, others⟩ := List.pairwise_cons.mp h
      have absent : e.1 ∉ collected entries := by
        rw [← Finmap.lookup_eq_none, lookup_collected]
        refine find_eq_none fun d hd same => ?_
        rw [first d hd] at same
        cases same
      rw [collected, Finmap.entries_insert_of_notMem absent, Multiset.card_cons, List.length_cons,
        ih others]

end OrderedMap

namespace Store

def table (s : Store) : Kvs.Table := s.data.toFinmap

/-- The keys are listed in order, and the sum is that of the values. -/
structure Sound (s : Store) : Prop where
  ascending : OrderedMap.Ascending s.data.entries
  sum_eq : s.sum = s.table.sum

variable {s : Store}

theorem empty_sound : empty.Sound := ⟨.nil, rfl⟩

theorem table_put (s : Store) (key : String) (value : Int32) :
    (s.put key value).table = s.table.insert key value :=
  s.data.toFinmap_insert key value

/-- The number that stood under a key, as the service counts it. -/
theorem toInt_getD (s : Store) (key : String) :
    ((s.data.get? key).getD 0).toInt = s.table.valueAt key := by
  rw [Kvs.Table.valueAt, table, s.data.lookup_toFinmap]
  cases s.data.get? key <;> rfl

theorem Sound.put (h : s.Sound) (key : String) (value : Int32) : (s.put key value).Sound where
  ascending := OrderedMap.place_ascending h.ascending
  sum_eq := by
    rw [table_put, Kvs.Table.sum_insert, ← h.sum_eq, ← toInt_getD, Int64.ofInt_sub]
    rfl

theorem Sound.size_eq (h : s.Sound) : s.size = s.table.keys.card := OrderedMap.size_eq_card h.ascending

theorem Sound.average_eq (h : s.Sound) : s.average = s.table.average := by
  rw [average, Kvs.Table.average, h.sum_eq, h.size_eq]

theorem get?_eq (s : Store) (key : String) : s.get? key = (s.table.lookup key).map fun value => ⟨key, value⟩ := by
  rw [get?, table, s.data.lookup_toFinmap]

end Store

/-- Methods registered one after another are found by their names. -/
theorem Server.get?_methods {σ α : Type} (handler : α → Handler σ) {table : List (String × α)}
    (distinct : (table.map Prod.fst).Nodup) (s : Server σ) (name : String) :
    (table.foldl (fun s a => s.method a.1 (handler a.2)) s).methods.get? name =
      ((table.lookup name).map handler).or (s.methods.get? name) := by
  induction table generalizing s with
  | nil => rfl
  | cons a table ih =>
      obtain ⟨first, others⟩ := List.nodup_cons.mp distinct
      rw [List.foldl_cons, ih others, List.lookup_cons]
      by_cases same : name = a.1
      · have absent : table.lookup name = none := by
          rw [same, List.lookup_eq_none_iff]
          exact fun b hb => bne_iff_ne.mpr fun equal => first (List.mem_map.mpr ⟨b, hb, equal.symm⟩)
        rw [absent, same, beq_self_eq_true, Server.method, OrderedMap.get?_insert_self]
        rfl
      · rw [beq_false_of_ne same, Server.method, OrderedMap.get?_insert_of_ne _ same]

namespace Kvs

def view (k : Kvs) : Machine where
  id := k.id
  config := k.config
  live := k.store.table
  snapshots := (k.saved.mapValues Store.table).toFinmap

structure Sound (k : Kvs) : Prop where
  store : k.store.Sound
  saved : ∀ name s, k.saved.get? name = some s → s.Sound

theorem textArg_eq (w : Packed) : textArg w = w.text? := by
  cases w with
  | bin data =>
      simp only [textArg, StaticType.decode, StaticType.descriptor, Descriptor.decode, Packed.text?]
      cases data.toText? <;> rfl
  | _ => rfl

theorem holds_w32 (n : Int) : IntWidth.w32.holds true n = true ↔ -2 ^ 31 ≤ n ∧ n < 2 ^ 31 := by
  have greatest : n ≤ 2 ^ 31 - 1 ↔ n < 2 ^ 31 := by omega
  rw [← greatest]
  exact decide_eq_true_iff

theorem valueArg_eq (w : Packed) : valueArg w = w.int32? := by
  cases w with
  | int n =>
      by_cases within : -2 ^ 31 ≤ n.val ∧ n.val < 2 ^ 31
      · have held : IntWidth.w32.holds true n.val = true := (holds_w32 n.val).mpr within
        have exact : (Int64.ofInt n.val).toInt = n.val := Int64.toInt_ofInt_of_le (by omega) (by omega)
        have taken : Entry.valueType.decode (.int n) = .ok (.int (.ofInt n.val)) := by
          simp only [Entry.valueType, StaticType.decode, StaticType.descriptor, Descriptor.decode, held, if_true,
            StaticType.ofValue, Value.integer?, exact]
        rw [valueArg, taken, Packed.int32?, if_pos within]
        exact congrArg some Int64.toInt32_ofInt
      · have above : ¬ IntWidth.w32.holds true n.val = true := fun held => within ((holds_w32 n.val).mp held)
        have refused : Entry.valueType.decode (.int n) = .error (.here (.outOfRange n.val true .w32)) := by
          simp only [Entry.valueType, StaticType.decode, StaticType.descriptor, Descriptor.decode, above, if_false,
            Bool.false_eq_true]
        rw [valueArg, refused, Packed.int32?, if_neg within]
  | _ => rfl

theorem reply_entry (key : String) (value : Int32) :
    reply Entry.staticType (Entry.mk key value).toStatic = .ok (.array [.str key, .ofInt value.toInt]) := by
  have held : IntWidth.w32.holds true value.toInt64.toInt = true := by
    rw [Int32.toInt_toInt64]
    exact (holds_w32 _).mpr ⟨value.le_toInt, value.toInt_lt⟩
  have number : (Descriptor.int true .w32).encode (.int value.toInt64) = .ok (.ofInt value.toInt) :=
    Descriptor.encode_int.mpr ⟨_, rfl, held, rfl⟩
  have text : Descriptor.string.encode (.string key) = .ok (.str key) := rfl
  have encoded : Entry.staticType.encode (Entry.mk key value).toStatic =
      .ok (.array [.str key, .ofInt value.toInt]) := by
    refine Descriptor.encode_record.mpr ⟨_, _, .inr rfl, rfl, ?_, rfl⟩
    simp only [StaticType.fieldDescriptors, StaticType.descriptor, Entry.valueType, StaticValue.toValues,
      StaticValue.toValue, Descriptor.encodeFields, text, number]
  rw [reply, encoded]

theorem reply_status (k : Kvs) : reply Admin.statusType k.status =
    .ok (.map [(.str k.id, .map [(.str "global_size", .str "0"),
      (.str "local_size", .str (toString k.store.size)), (.str "type", .str "kvs")])]) := by
  have first : compare (StaticValue.text "local_size") (.text "type") = .lt := by decide +kernel
  have second : compare (StaticValue.text "global_size") (.text "local_size") = .lt := by decide +kernel
  have ordered : texts [("type", "kvs"), ("local_size", toString k.store.size), ("global_size", "0")] =
      .orderedMap [(.text "global_size", .text "0"), (.text "local_size", .text (toString k.store.size)),
        (.text "type", .text "kvs")] := by
    simp [texts, OrderedMap.ofList, OrderedMap.insert, OrderedMap.place, OrderedMap.empty, first, second]
  rw [status, ordered]
  rfl

/-- A request on the service does what it does on the finite map, and nothing if it is refused. -/
structure Agrees (k : Kvs) (r : Except Packed Packed × Kvs) (s : Except Packed Packed × Machine) : Prop where
  answer : r.1 = s.1
  view : r.2.view = s.2
  sound : r.2.Sound
  unchanged : ∀ e, r.1 = .error e → r.2 = k

variable {k : Kvs}

theorem Agrees.same (sound : k.Sound) (answer : Except Packed Packed) : Agrees k (answer, k) (answer, k.view) :=
  ⟨rfl, rfl, sound, fun _ _ => rfl⟩

theorem Agrees.changed {after : Kvs} (sound : after.Sound) (w : Packed) :
    Agrees k (.ok w, after) (.ok w, after.view) :=
  ⟨rfl, rfl, sound, nofun⟩

theorem Sound.put (h : k.Sound) (key : String) (value : Int32) : (k.put key value).Sound :=
  ⟨h.store.put key value, h.saved⟩

theorem view_put (k : Kvs) (key : String) (value : Int32) :
    (k.put key value).view = { k.view with live := k.view.live.insert key value } := by
  rw [view, put, k.store.table_put]
  rfl

theorem Sound.save (h : k.Sound) (name : String) : (k.save name).Sound where
  store := h.store
  saved := by
    intro other s found
    by_cases same : other = name
    · rw [same, Kvs.save, OrderedMap.get?_insert_self] at found
      cases found
      exact h.store
    · rw [Kvs.save, OrderedMap.get?_insert_of_ne _ same] at found
      exact h.saved other s found

theorem lookup_snapshots (k : Kvs) (name : String) :
    k.view.snapshots.lookup name = (k.saved.get? name).map Store.table :=
  (OrderedMap.lookup_toFinmap _ name).trans (OrderedMap.get?_mapValues _ _ name)

theorem view_save (k : Kvs) (name : String) :
    (k.save name).view = { k.view with snapshots := k.view.snapshots.insert name k.view.live } := by
  have snapshots : (k.save name).view.snapshots = k.view.snapshots.insert name k.view.live := by
    refine Finmap.ext_lookup fun other => ?_
    rw [lookup_snapshots]
    by_cases same : other = name
    · rw [same, save, OrderedMap.get?_insert_self, Finmap.lookup_insert]
      rfl
    · rw [save, OrderedMap.get?_insert_of_ne _ same, Finmap.lookup_insert_of_ne _ same, lookup_snapshots]
  rw [← snapshots]
  rfl

/-- An action obeys the commands that its arguments are read as. -/
def Obeys (action : Action) (form : List Packed → Option Command) : Prop :=
  ∀ args (k : Kvs), k.Sound → Agrees k (action args k)
    (match form args with
      | some command => k.view.obey command
      | none => (.error typeMismatch, k.view))

theorem withNothing_obeys {action : Kvs → Except Packed Packed × Kvs} {command : Command}
    (obeys : ∀ k : Kvs, k.Sound → Agrees k (action k) (k.view.obey command)) :
    Obeys (withNothing action) command.bare := by
  intro args k sound
  cases args with
  | nil => exact obeys k sound
  | cons => exact .same sound _

theorem withText_obeys {action : String → Kvs → Except Packed Packed × Kvs} {command : String → Command}
    (obeys : ∀ text (k : Kvs), k.Sound → Agrees k (action text k) (k.view.obey (command text))) :
    Obeys (withText action) (Command.named command) := by
  intro args k sound
  match args with
  | [] | _ :: _ :: _ => exact .same sound _
  | [w] =>
      change Agrees k _ (match w.text?.map command with
        | some command => k.view.obey command
        | none => (.error typeMismatch, k.view))
      rw [withText, textArg_eq]
      cases w.text? with
      | none => exact .same sound _
      | some text => exact obeys text k sound

theorem putAction_obeys : Obeys putAction Command.entry := by
  intro args k sound
  match args with
  | [] | [_] | _ :: _ :: _ :: _ => exact .same sound _
  | [key, value] =>
      rw [putAction, textArg_eq, valueArg_eq, Command.entry]
      cases key.text? with
      | none => exact .same sound _
      | some key =>
          cases value.int32? with
          | none => exact .same sound _
          | some value =>
              have put := Agrees.changed (k := k) (sound.put key value) (.bool true)
              rwa [view_put] at put

theorem getAction_obeys : Obeys getAction (Command.named .get) := by
  refine withText_obeys fun key k sound => ?_
  have live : k.view.live = k.store.table := rfl
  rw [Store.get?_eq, Machine.obey, live]
  cases k.store.table.lookup key with
  | none => exact .same sound _
  | some value => exact ⟨reply_entry key value, rfl, sound, fun _ _ => rfl⟩

theorem averageAction_obeys : Obeys averageAction (Command.bare .average) := by
  refine withNothing_obeys fun k sound => ?_
  rw [sound.store.average_eq]
  exact .same sound _

theorem statusAction_obeys : Obeys statusAction (Command.bare .status) := by
  refine withNothing_obeys fun k sound => ?_
  rw [reply_status, sound.store.size_eq]
  exact .same sound _

theorem saveAction_obeys : Obeys saveAction (Command.named .save) := by
  refine withText_obeys fun name k sound => ?_
  have saved := Agrees.changed (k := k) (sound.save name) (.map [(.str k.id, .str ("memory:" ++ name))])
  rwa [view_save] at saved

theorem loadAction_obeys : Obeys loadAction (Command.named .load) := by
  refine withText_obeys fun name k sound => ?_
  rw [Machine.obey, lookup_snapshots, load?]
  cases found : k.saved.get? name with
  | none => exact .same sound _
  | some store =>
      have loaded : Sound { k with store } := ⟨sound.saved name store found, sound.saved⟩
      exact Agrees.changed loaded (.bool true)

theorem actions_obey : List.Forall₂ (fun a f => a.1 = f.1 ∧ Obeys a.2 f.2) actions Command.forms := by
  refine .cons ⟨rfl, putAction_obeys⟩ <| .cons ⟨rfl, getAction_obeys⟩ <|
    .cons ⟨rfl, averageAction_obeys⟩ <| .cons ⟨rfl, ?config⟩ <| .cons ⟨rfl, statusAction_obeys⟩ <|
    .cons ⟨rfl, ?clear⟩ <| .cons ⟨rfl, ?mix⟩ <| .cons ⟨rfl, saveAction_obeys⟩ <|
    .cons ⟨rfl, loadAction_obeys⟩ <| .cons ⟨rfl, ?proxy⟩ .nil
  case config => exact withNothing_obeys fun k sound => .same sound _
  case clear =>
      refine withNothing_obeys fun k sound => ?_
      have cleared : k.clear.Sound := ⟨Store.empty_sound, sound.saved⟩
      exact Agrees.changed cleared (.bool true)
  case mix => exact withNothing_obeys fun k sound => .same sound _
  case proxy => exact withNothing_obeys fun k sound => .same sound _

theorem lookup_related {α β : Type} {r : α → β → Prop} {table : List (String × α)} {forms : List (String × β)}
    (related : List.Forall₂ (fun a f => a.1 = f.1 ∧ r a.2 f.2) table forms) (name : String) :
    (table.lookup name = none ∧ forms.lookup name = none) ∨
      ∃ a f, table.lookup name = some a ∧ forms.lookup name = some f ∧ r a f := by
  induction related with
  | nil => exact .inl ⟨rfl, rfl⟩
  | @cons a f table forms first _ ih =>
      obtain ⟨same, member⟩ := first
      rw [List.lookup_cons, List.lookup_cons, ← same]
      cases name == a.1 with
      | true => exact .inr ⟨a.2, f.2, rfl, rfl, member⟩
      | false => exact ih

theorem dispatch_agrees (sound : k.Sound) (method : String) (params : List Packed) :
    Agrees k (server.dispatch method params k) (k.view.dispatch method params) := by
  have distinct : (actions.map Prod.fst).Nodup := by decide
  have found : server.methods.get? method = ((actions.lookup method).map handler) := by
    rw [server, Server.get?_methods handler distinct]
    exact Option.or_none
  rw [Server.dispatch, Machine.dispatch, found, Command.read]
  rcases lookup_related actions_obey method with ⟨unknown, same⟩ | ⟨action, form, known, same, obeys⟩
  · rw [unknown, same]
    exact .same sound _
  · rw [known, same]
    cases params with
    | nil => exact .same sound _
    | cons service args =>
        have agrees := obeys args k sound
        cases read : form args with
        | none =>
            rw [read] at agrees
            simp only [read]
            exact agrees
        | some command =>
            rw [read] at agrees
            simp only [read]
            exact agrees

theorem dispatchAll_agrees (sound : k.Sound) (requests : List (String × List Packed)) :
    (dispatchAll server.dispatch requests k).1 = (dispatchAll Machine.dispatch requests k.view).1 ∧
      (dispatchAll server.dispatch requests k).2.view = (dispatchAll Machine.dispatch requests k.view).2 ∧
      (dispatchAll server.dispatch requests k).2.Sound := by
  induction requests generalizing k with
  | nil => exact ⟨rfl, rfl, sound⟩
  | cons request requests ih =>
      obtain ⟨method, params⟩ := request
      have first := dispatch_agrees sound method params
      obtain ⟨answers, view, after⟩ := ih first.sound
      rw [first.view] at answers view
      exact ⟨congrArg₂ List.cons first.answer answers, view, after⟩

/-- Putting a value under a key adds what the key is now worth more. Nothing overflows as long as there are
fewer than `2 ^ 32` keys. -/
theorem Sound.toInt_sum_put (h : k.Sound) {key : String} {value : Int32}
    (few : (k.put key value).store.size < 2 ^ 32) :
    (k.put key value).store.sum.toInt = k.store.sum.toInt + (value.toInt - k.store.table.valueAt key) := by
  have after := (h.put key value).store
  have put : (k.put key value).store.table = k.store.table.insert key value := k.store.table_put key value
  rw [after.size_eq] at few
  have before : k.store.table.keys.card < 2 ^ 32 := by
    refine Nat.lt_of_le_of_lt (Finset.card_le_card fun other member => ?_) few
    rw [put, Finmap.mem_keys, Finmap.mem_insert]
    exact .inr (Finmap.mem_keys.mp member)
  rw [after.sum_eq, Table.toInt_sum few, h.store.sum_eq, Table.toInt_sum before, put]
  exact Table.total_insert _ _ _

def Keeps (k : Kvs) (s : Store) : Prop := s = k.store ∨ ∃ name, k.saved.get? name = some s

theorem Sound.of_keeps (h : k.Sound) {s : Store} (kept : k.Keeps s) : s.Sound := by
  rcases kept with rfl | ⟨name, found⟩
  · exact h.store
  · exact h.saved name s found

theorem Sound.new (id config : String) : Sound { id, config } where
  store := Store.empty_sound
  saved := nofun

/-- The service refines a finite map with snapshots. Whatever is asked of it one after another, with whatever
parameters, it gives the answers of the finite map and keeps what that keeps. Every sum that it keeps is that
of the values next to it, in 64 bits, and the average is that sum by the number of keys; with fewer than
`2 ^ 32` keys the sum is exact and putting does not overflow. A request that is refused changes nothing. What
is saved is loaded again whatever happens in between, unless it is saved over. -/
theorem dispatchAll_refines (id config : String) (requests : List (String × List Packed)) :
    let served := dispatchAll server.dispatch requests { id, config }
    let reference := dispatchAll Machine.dispatch requests { id, config }
    served.1 = reference.1 ∧ served.2.view = reference.2 ∧
    (∀ s, served.2.Keeps s → s.sum = s.table.sum ∧ s.average = s.table.average ∧
      (s.size < 2 ^ 32 → s.sum.toInt = s.table.total)) ∧
    (∀ key value, (served.2.put key value).store.size < 2 ^ 32 →
      (served.2.put key value).store.sum.toInt =
        served.2.store.sum.toInt + (value.toInt - served.2.store.table.valueAt key)) ∧
    (∀ method params e after, server.dispatch method params served.2 = (.error e, after) →
      after = served.2) ∧
    ∀ service name between, (∀ r ∈ between, Command.read r.1 r.2 ≠ .ok (.save name)) →
      (dispatchAll server.dispatch (("save", [service, .str name]) :: between ++
        [("load", [service, .str name])]) served.2).2.store.table = served.2.store.table := by
  intro served reference
  obtain ⟨answers, view, sound⟩ := dispatchAll_agrees (.new id config) requests
  refine ⟨answers, view, ?_, fun key value few => sound.toInt_sum_put few, ?_, ?_⟩
  · intro s kept
    have sound := sound.of_keeps kept
    refine ⟨sound.sum_eq, sound.average_eq, fun few => ?_⟩
    rw [sound.sum_eq]
    exact Table.toInt_sum (sound.size_eq ▸ few)
  · intro method params e after refused
    have agrees := dispatch_agrees sound method params
    have same := agrees.unchanged e (by rw [refused])
    rwa [refused] at same
  · intro service name between others
    obtain ⟨-, view, -⟩ := dispatchAll_agrees sound
      (("save", [service, .str name]) :: between ++ [("load", [service, .str name])])
    exact (congrArg Machine.live view).trans (Machine.live_restored others)

/-- Three values of which the last replaces the first, a snapshot that is loaded after the store was
cleared and filled again, and requests with too few parameters. -/
theorem dispatchAll_refines_session :
    let requests : List (String × List Packed) := [("put", [.nil, .str "a", .ofInt 5]),
      ("put", [.nil, .bin [0x62], .ofInt (-2147483648)]), ("put", [.str "kv", .str "a", .ofInt 30])]
    let between : List (String × List Packed) := [("clear", [.nil]), ("put", [.nil, .str "c", .ofInt 1]),
      ("save", [.nil, .str "other"]), ("save", [.nil])]
    let served := dispatchAll server.dispatch requests { id := "kv" }
    served.1 = [.ok (.bool true), .ok (.bool true), .ok (.bool true)] ∧
      served.2.store.sum.toInt = -2147483618 ∧ served.2.store.table.total = -2147483618 ∧
      (served.2.put "b" 1).store.sum.toInt =
        served.2.store.sum.toInt + (1 - served.2.store.table.valueAt "b") ∧
      server.dispatch "get" [.nil] served.2 = (.error (.ofNat 2), served.2) ∧
      (dispatchAll server.dispatch (("save", [.nil, .str "s"]) :: between ++ [("load", [.nil, .str "s"])])
        served.2).2.store.table = served.2.store.table := by
  intro requests between served
  obtain ⟨-, -, sums, puts, refusals, restored⟩ := dispatchAll_refines "kv" "\x7b\x7d" requests
  have answers : served.1 = [.ok (.bool true), .ok (.bool true), .ok (.bool true)] := by rfl
  have sum : served.2.store.sum.toInt = -2147483618 := by rfl
  have size : served.2.store.size = 2 := by rfl
  have again : (served.2.put "b" 1).store.size = 2 := by rfl
  obtain ⟨-, -, exact⟩ := sums served.2.store (.inl rfl)
  have total : served.2.store.table.total = -2147483618 := (exact (by rw [size]; decide)).symm.trans sum
  have refused : (server.dispatch "get" [.nil] served.2).1 = .error (.ofNat 2) := by rfl
  have reads : between.map (fun r => Command.read r.1 r.2) =
      [.ok .clear, .ok (.put "c" 1), .ok (.save "other"), .error (.ofNat 2)] := by rfl
  have others : ∀ r ∈ between, Command.read r.1 r.2 ≠ .ok (.save "s") := by
    have each : ∀ c ∈ between.map (fun r => Command.read r.1 r.2), c ≠ .ok (.save "s") := by
      rw [reads]
      simp
    exact fun r member => each _ (List.mem_map_of_mem member)
  refine ⟨answers, sum, total, puts "b" 1 (by rw [again]; decide), ?_, restored .nil "s" between others⟩
  exact Prod.ext refused (refusals "get" [.nil] _ _ (Prod.ext refused rfl))

end Kvs

end PackRpc
