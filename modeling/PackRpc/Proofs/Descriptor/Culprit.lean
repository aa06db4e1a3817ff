import PackRpc.Descriptor.Decoding
import PackRpc.Proofs.Descriptor.Levels
/-!
# Where a value does not fit

A value that does not fit its descriptor has a first part that does not. The path of the error leads to that
part: it is refused by its own descriptor for the reason that the error gives, and at each level of the value
all that comes before the path fits.
-/
namespace PackRpc

theorem Except.map_eq_error {ε α β : Type} {f : α → β} {r : Except ε α} {e : ε} :
    r.map f = .error e ↔ r = .error e := by
  cases r <;> simp [Except.map]

/-- The same error with a name for the number of its outermost step. -/
def Located.relabelTop {C : Type} (names : List String) (e : Located C) : Located C :=
  match e.path with
  | .index i :: path =>
    match names[i]? with
    | some name => ⟨.field name :: path, e.cause⟩
    | none => e
  | _ => e

/-- What values are made of. -/
structure View (α : Type) where
  items : α → List α
  entries : α → List (α × α)

def Value.view : View Value where
  items
    | .seq items | .record _ items => items
    | _ => []
  entries
    | .map entries => entries
    | _ => []

def Packed.view : View Packed where
  items
    | .array items => items
    | _ => []
  entries
    | .map entries => entries
    | _ => []

/-- A part of a value: the step to it, what it is declared as, and the part. -/
structure Place (α : Type) where
  segment : PathSegment
  descriptor : Descriptor
  value : α

namespace Place

variable {α β C : Type}

def numbered (i : Nat) : List (Descriptor × α) → List (Place α)
  | [] => []
  | (d, a) :: items => ⟨.index i, d, a⟩ :: numbered (i + 1) items

def named : List ((String × Descriptor) × α) → List (Place α) :=
  List.map fun item => ⟨.field item.1.1, item.1.2, item.2⟩

/-- The two sides of entries, the first of which is number `i`. -/
def paired (key value : Descriptor) (i : Nat) : List (α × α) → List (Place α)
  | [] => []
  | (k, v) :: entries => ⟨.key i, key, k⟩ :: ⟨.value i, value, v⟩ :: paired key value (i + 1) entries

/-- Goes through places up to the first at which it fails, and locates the error there. -/
def visit (run : Descriptor → α → Except (Located C) β) : List (Place α) → Except (Located C) (List β)
  | [] => .ok []
  | p :: places =>
    match run p.descriptor p.value with
    | .error e => .error (e.within p.segment)
    | .ok b => (visit run places).map (b :: ·)

/-- Where going through places fails, it is well up to there. -/
theorem visit_error {run : Descriptor → α → Except (Located C) β} {places : List (Place α)} {e : Located C}
    (h : visit run places = .error e) :
    ∃ earlier p later inner, places = earlier ++ p :: later ∧
      (∀ q ∈ earlier, ∃ b, run q.descriptor q.value = .ok b) ∧
      run p.descriptor p.value = .error inner ∧ e = inner.within p.segment := by
  induction places with
  | nil => cases h
  | cons p places ih =>
      rw [visit] at h
      cases first : run p.descriptor p.value with
      | error inner =>
          rw [first] at h
          cases h
          exact ⟨[], p, places, inner, rfl, List.forall_mem_nil _, first, rfl⟩
      | ok b =>
          rw [first] at h
          cases others : visit run places with
          | ok bs =>
              rw [others] at h
              cases h
          | error other =>
              rw [others] at h
              cases h
              obtain ⟨earlier, q, later, inner, rfl, fine, refused, located⟩ := ih others
              have all := List.forall_mem_cons.mpr ⟨⟨b, first⟩, fine⟩
              exact ⟨p :: earlier, q, later, inner, rfl, all, refused, located⟩

theorem mem_numbered {i : Nat} {items : List (Descriptor × α)} {p : Place α} (h : p ∈ numbered i items) :
    ∃ j, p.segment = .index (i + j) ∧ items[j]? = some (p.descriptor, p.value) := by
  induction items generalizing i with
  | nil => cases h
  | cons item items ih =>
      cases h with
      | head => exact ⟨0, rfl, rfl⟩
      | tail _ h =>
          obtain ⟨j, segment, found⟩ := ih h
          exact ⟨j + 1, by rw [segment]; congr 1; omega, found⟩

theorem find_named {fields : List (String × Descriptor)} {items : List α} {item : (String × Descriptor) × α}
    (differ : (fields.map Prod.fst).Nodup) (member : item ∈ fields.zip items) :
    (fields.zip items).find? (·.1.1 = item.1.1) = some item := by
  induction fields generalizing items with
  | nil => cases member
  | cons field fields ih =>
      cases items with
      | nil => cases member
      | cons first items =>
          obtain ⟨fresh, others⟩ := List.nodup_cons.mp differ
          rw [List.zip_cons_cons] at member ⊢
          cases member with
          | head => exact List.find?_cons_of_pos (decide_eq_true rfl)
          | tail _ member =>
              have other : field.1 ≠ item.1.1 := fun same =>
                fresh (same ▸ List.mem_map_of_mem (List.of_mem_zip member).1)
              rw [List.find?_cons_of_neg (by simpa using other)]
              exact ih others member

theorem mem_paired {key value : Descriptor} {i : Nat} {entries : List (α × α)} {p : Place α}
    (h : p ∈ paired key value i entries) :
    ∃ j entry, entries[j]? = some entry ∧
      (p = ⟨.key (i + j), key, entry.1⟩ ∨ p = ⟨.value (i + j), value, entry.2⟩) := by
  induction entries generalizing i with
  | nil => cases h
  | cons entry entries ih =>
      cases h with
      | head => exact ⟨0, entry, rfl, .inl rfl⟩
      | tail _ h =>
          cases h with
          | head => exact ⟨0, entry, rfl, .inr rfl⟩
          | tail _ h =>
              obtain ⟨j, found, member, side⟩ := ih h
              have same : i + 1 + j = i + (j + 1) := by omega
              exact ⟨j + 1, found, member, by rwa [same] at side⟩

end Place

namespace Descriptor

section
variable {α β C : Type} (view : View α)

/-- The parts of a value under a descriptor, in order: fields of a record by name, items of any other sequence by
number, and the two sides of each entry of a map. -/
def places : Descriptor → α → List (Place α)
  | .tuple items, a => Place.numbered 0 (items.zip (view.items a))
  | .record _ fields, a => Place.named (fields.zip (view.items a))
  | .nullable inner, a => places inner a
  | .list element, a => Place.numbered 0 ((view.items a).map (element, ·))
  | .map key value, a => Place.paired key value 0 (view.entries a)
  | _, _ => []

/-- One step into a value. What may be nil is entered as what it is otherwise. -/
def enter : Descriptor → α → PathSegment → Option (Descriptor × α)
  | .tuple items, a, .index i => (items.zip (view.items a))[i]?
  | .record _ fields, a, .field name =>
    ((fields.zip (view.items a)).find? (·.1.1 = name)).map fun item => (item.1.2, item.2)
  | .nullable inner, a, s => enter inner a s
  | .list element, a, .index i => (view.items a)[i]?.map (element, ·)
  | .map key _, a, .key i => (view.entries a)[i]?.map fun entry => (key, entry.1)
  | .map _ value, a, .value i => (view.entries a)[i]?.map fun entry => (value, entry.2)
  | _, _, _ => none

def follow (d : Descriptor) (a : α) : List PathSegment → Option (Descriptor × α)
  | [] => some (d, a)
  | s :: path => (d.enter view a s).bind fun inner => inner.1.follow inner.2 path

/-- A path to a part of a value, all that comes before it on each level being well. -/
inductive Leads (run : Descriptor → α → Except (Located C) β) :
    Descriptor → α → List PathSegment → Descriptor → α → Prop
  | here {d a} : Leads run d a [] d a
  | into {d a earlier p later path d' a'} : d.places view a = earlier ++ p :: later →
      (∀ q ∈ earlier, ∃ b, run q.descriptor q.value = .ok b) → Leads run p.descriptor p.value path d' a' →
      Leads run d a (p.segment :: path) d' a'

/-- Whether the fields of a record have different names. -/
def namesDiffer : Descriptor → Bool
  | .record _ fields => decide (fields.map Prod.fst).Nodup
  | _ => true

variable {view}

theorem all_of_mem_places {p : Descriptor → Bool} {d : Descriptor} {a : α} {place : Place α} (h : d.all p = true)
    (member : place ∈ d.places view a) : place.descriptor.all p = true := by
  induction d using Descriptor.induction with
  | bool | int signed width | float | string | raw | object | unit => cases member
  | tuple items =>
      obtain ⟨j, -, found⟩ := Place.mem_numbered member
      exact (all_tuple.mp h).2 _ (List.of_mem_zip (List.mem_of_getElem? found)).1
  | record name fields =>
      obtain ⟨item, found, rfl⟩ := List.mem_map.mp member
      exact (all_record.mp h).2 _ (List.mem_map_of_mem (List.of_mem_zip found).1)
  | nullable inner ih => exact ih (all_nullable.mp h).2 member
  | list element =>
      obtain ⟨j, -, found⟩ := Place.mem_numbered member
      obtain ⟨item, -, same⟩ := List.mem_map.mp (List.mem_of_getElem? found)
      cases same
      exact (all_list.mp h).2
  | map key value =>
      obtain ⟨j, entry, -, rfl | rfl⟩ := Place.mem_paired member
      · exact (all_map.mp h).2.1
      · exact (all_map.mp h).2.2

theorem enter_of_mem_places {d : Descriptor} {a : α} {place : Place α} (names : d.all namesDiffer = true)
    (member : place ∈ d.places view a) :
    d.enter view a place.segment = some (place.descriptor, place.value) := by
  induction d using Descriptor.induction with
  | bool | int signed width | float | string | raw | object | unit => cases member
  | tuple items =>
      obtain ⟨j, segment, found⟩ := Place.mem_numbered member
      rw [segment, Nat.zero_add, enter, found]
  | record name fields =>
      obtain ⟨item, found, rfl⟩ := List.mem_map.mp member
      have differ := of_decide_eq_true (all_record.mp names).1
      rw [enter, Place.find_named differ found, Option.map_some]
  | nullable inner ih => exact ih (all_nullable.mp names).2 member
  | list element =>
      obtain ⟨j, segment, found⟩ := Place.mem_numbered member
      rw [segment, Nat.zero_add, enter, ← List.getElem?_map, found]
  | map key value =>
      obtain ⟨j, entry, found, rfl | rfl⟩ := Place.mem_paired member <;>
        rw [Nat.zero_add, enter, found, Option.map_some]

/-- With different names for the fields of records there is one place that a path can mean. -/
theorem Leads.follow {run : Descriptor → α → Except (Located C) β} {d d' : Descriptor} {a a' : α}
    {path : List PathSegment} (h : Leads view run d a path d' a') (names : d.all namesDiffer = true) :
    d.follow view a path = some (d', a') := by
  induction h with
  | here => rfl
  | @into d a earlier p later path d' a' split fine _ ih =>
      have member : p ∈ d.places view a := by
        rw [split]
        exact List.mem_append_right earlier (.head later)
      rw [Descriptor.follow, enter_of_mem_places names member]
      exact ih (all_of_mem_places names member)

/-- An error points at the first part that is at fault: its path leads there, past nothing that does not fit, and
what stands there is itself refused for the reason given. -/
structure PointsAtCulprit (view : View α) (run : Descriptor → α → Except (Located C) β) (d : Descriptor) (a : α)
    (e : Located C) (d' : Descriptor) (a' : α) : Prop where
  leads : Leads view run d a e.path d' a'
  follow : d.follow view a e.path = some (d', a')
  refused : run d' a' = .error (.here e.cause)

/-- If each error arises where it is reported or in visiting the parts, then it points at the first one at fault. -/
theorem exists_culprit {run : Descriptor → α → Except (Located C) β}
    (arises : ∀ d a e, run d a = .error e → e.path = [] ∨ Place.visit run (d.places view a) = .error e)
    {d : Descriptor} {a : α} {e : Located C} (names : d.all namesDiffer = true) (h : run d a = .error e) :
    ∃ d' a', PointsAtCulprit view run d a e d' a' := by
  obtain ⟨path, cause⟩ := e
  suffices led : ∃ d' a', Leads view run d a path d' a' ∧ run d' a' = .error (.here cause) by
    obtain ⟨d', a', leads, refused⟩ := led
    exact ⟨d', a', leads, leads.follow names, refused⟩
  clear names
  induction path generalizing d a with
  | nil => exact ⟨d, a, .here, h⟩
  | cons s path ih =>
      obtain nowhere | visited := arises d a _ h
      · cases nowhere
      · obtain ⟨earlier, p, later, ⟨inside, same⟩, split, fine, refused, located⟩ := Place.visit_error visited
        cases located
        obtain ⟨d', a', leads, culprit⟩ := ih refused
        exact ⟨d', a', .into split fine leads, culprit⟩

end

section
open Place

variable {α β C : Type} {i : Nat} {element key value : Descriptor} {run : Descriptor → α → Except (Located C) β}

theorem items_eq_visit {go : Nat → List Descriptor → List α → Except (Located C) (List β)}
    (done : ∀ i as, go i [] as = .ok []) (short : ∀ i d ds, go i (d :: ds) [] = .ok [])
    (next : ∀ i d ds a as, go i (d :: ds) (a :: as) =
      match run d a with
      | .error e => .error (e.within (.index i))
      | .ok b => (go (i + 1) ds as).map (b :: ·)) (i : Nat) (ds : List Descriptor) (as : List α) :
    go i ds as = visit run (numbered i (ds.zip as)) := by
  induction ds generalizing i as with
  | nil => exact done i as
  | cons d ds ih =>
      cases as with
      | nil => exact short i d ds
      | cons a as => rw [next, ih, List.zip_cons_cons, numbered, visit]

theorem fields_eq_visit {go : List (String × Descriptor) → List α → Except (Located C) (List β)}
    (done : ∀ as, go [] as = .ok []) (short : ∀ field fields, go (field :: fields) [] = .ok [])
    (next : ∀ name d fields a as, go ((name, d) :: fields) (a :: as) =
      match run d a with
      | .error e => .error (e.within (.field name))
      | .ok b => (go fields as).map (b :: ·)) (fields : List (String × Descriptor)) (as : List α) :
    go fields as = visit run (named (fields.zip as)) := by
  induction fields generalizing as with
  | nil => exact done as
  | cons field fields ih =>
      cases as with
      | nil => exact short field fields
      | cons a as => rw [next, ih, List.zip_cons_cons, named, List.map_cons, visit]

theorem encodeItems_eq_visit (i : Nat) (ds : List Descriptor) (vs : List Value) :
    encodeItems i ds vs = visit encode (numbered i (ds.zip vs)) := by
  refine items_eq_visit (fun _ _ => rfl) (fun _ _ _ => rfl) (fun i d ds v vs => ?_) i ds vs
  rw [encodeItems]
  cases d.encode v with
  | error e => rfl
  | ok w => cases encodeItems (i + 1) ds vs <;> rfl

theorem decodeItems_eq_visit (i : Nat) (ds : List Descriptor) (ws : List Packed) :
    decodeItems i ds ws = visit decode (numbered i (ds.zip ws)) := by
  refine items_eq_visit (fun _ _ => rfl) (fun _ _ _ => rfl) (fun i d ds w ws => ?_) i ds ws
  rw [decodeItems]
  cases d.decode w with
  | error e => rfl
  | ok v => cases decodeItems (i + 1) ds ws <;> rfl

theorem encodeFields_eq_visit (fields : List (String × Descriptor)) (vs : List Value) :
    encodeFields fields vs = visit encode (named (fields.zip vs)) := by
  refine fields_eq_visit (fun _ => rfl) (fun _ _ => rfl) (fun name d fields v vs => ?_) fields vs
  rw [encodeFields]
  cases d.encode v with
  | error e => rfl
  | ok w => cases encodeFields fields vs <;> rfl

theorem decodeFields_eq_visit (fields : List (String × Descriptor)) (ws : List Packed) :
    decodeFields fields ws = visit decode (named (fields.zip ws)) := by
  refine fields_eq_visit (fun _ => rfl) (fun _ _ => rfl) (fun name d fields w ws => ?_) fields ws
  rw [decodeFields]
  cases d.decode w with
  | error e => rfl
  | ok v => cases decodeFields fields ws <;> rfl

theorem mapItems_eq_visit (i : Nat) (as : List α) :
    mapItems (run element) i as = visit run (numbered i (as.map (element, ·))) := by
  induction as generalizing i with
  | nil => rfl
  | cons a as ih =>
      rw [mapItems, List.map_cons, numbered, visit, ih]
      cases run element a with
      | error e => rfl
      | ok b => cases visit run _ <;> rfl

/-- Where an error is located by number, it is located by the name that has this number. -/
theorem visit_named (front : List String) (fields : List (String × Descriptor)) (as : List α) :
    visit run (named (fields.zip as)) =
      (visit run (numbered front.length ((fields.map Prod.snd).zip as))).mapError
        (.relabelTop (front ++ fields.map Prod.fst)) := by
  induction fields generalizing front as with
  | nil => rfl
  | cons field fields ih =>
      cases as with
      | nil => rfl
      | cons a as =>
          rw [List.zip_cons_cons, named, List.map_cons, List.map_cons, List.map_cons, List.zip_cons_cons, numbered,
            visit, visit]
          cases run field.2 a with
          | error e =>
              have name : (front ++ field.1 :: fields.map Prod.fst)[front.length]? = some field.1 := by simp
              refine congrArg Except.error ?_
              simp only [Located.within, Located.relabelTop, name]
          | ok b =>
              have others := ih (front ++ [field.1]) as
              rw [List.length_append, List.length_singleton, List.append_assoc, List.singleton_append] at others
              dsimp only
              rw [← named, others]
              cases visit run _ <;> rfl

/-- A record is encoded as a tuple would be, the number of a field at fault being replaced by its name. -/
theorem encodeFields_eq_relabel (fields : List (String × Descriptor)) (vs : List Value) :
    encodeFields fields vs =
      (encodeItems 0 (fields.map Prod.snd) vs).mapError (.relabelTop (fields.map Prod.fst)) := by
  rw [encodeFields_eq_visit, encodeItems_eq_visit]
  exact visit_named [] fields vs

theorem decodeFields_eq_relabel (fields : List (String × Descriptor)) (ws : List Packed) :
    decodeFields fields ws =
      (decodeItems 0 (fields.map Prod.snd) ws).mapError (.relabelTop (fields.map Prod.fst)) := by
  rw [decodeFields_eq_visit, decodeItems_eq_visit]
  exact visit_named [] fields ws

/-- An entry is two places, its key and its value. -/
theorem visit_of_mapEntries {entries : List (α × α)} {e : Located C}
    (h : mapEntries (run key) (run value) i entries = .error e) :
    visit run (paired key value i entries) = .error e := by
  induction entries generalizing i with
  | nil => cases h
  | cons entry entries ih =>
      obtain ⟨k, v⟩ := entry
      rw [mapEntries] at h
      rw [paired, visit, visit]
      dsimp only
      cases first : run key k with
      | error inner =>
          rw [first] at h
          cases h
          rfl
      | ok b =>
          cases second : run value v with
          | error inner =>
              rw [first, second] at h
              cases h
              rfl
          | ok c =>
              cases others : mapEntries (run key) (run value) (i + 1) entries with
              | ok rest =>
                  rw [first, second, others] at h
                  cases h
              | error other =>
                  rw [first, second, others] at h
                  cases h
                  rw [ih others]
                  rfl

end

theorem ofArity_eq_error {α C : Type} {mismatch : Nat → Nat → C} {expected found : Nat}
    {next : Except (Located C) α} {e : Located C} (h : ofArity mismatch expected found next = .error e) :
    e.path = [] ∨ next = .error e := by
  unfold ofArity at h
  split at h
  · exact .inr h
  · cases h
    exact .inl rfl

theorem recordItems_gives (name : String) (fields : List (String × Descriptor)) (v : Value) :
    match recordItems name fields v with
    | .error e => e.path = []
    | .ok values => values = Value.view.items v := by
  cases v with
  | seq items => rfl
  | record type values =>
      by_cases same : type = ⟨name, fields⟩
      · simp only [recordItems, if_pos same, Value.view]
      · simp only [recordItems, if_neg same, Located.here]
  | _ => rfl

theorem encode_error {d : Descriptor} {v : Value} {e : EncodeError} (h : d.encode v = .error e) :
    e.path = [] ∨ Place.visit encode (d.places Value.view v) = .error e := by
  induction d using Descriptor.induction with
  | bool | string | raw | unit => cases v <;> cases h <;> exact .inl rfl
  | object => cases h
  | int signed width =>
      rw [encode] at h
      split at h
      · cases h
        exact .inl rfl
      · split at h <;> cases h
        exact .inl rfl
  | float =>
      rw [encode] at h
      split at h <;> cases h
      exact .inl rfl
  | nullable inner ih =>
      rw [encode] at h
      split at h
      · cases h
      · exact ih h
  | tuple items =>
      cases v with
      | seq values =>
          refine (ofArity_eq_error h).imp_right fun inside => ?_
          rw [Except.map_eq_error, encodeItems_eq_visit] at inside
          exact inside
      | _ =>
          cases h
          exact .inl rfl
  | record name fields =>
      rw [encode] at h
      have given := recordItems_gives name fields v
      cases taken : recordItems name fields v with
      | error other =>
          rw [taken] at h given
          cases h
          exact .inl given
      | ok values =>
          rw [taken] at h given
          refine (ofArity_eq_error h).imp_right fun inside => ?_
          rw [Except.map_eq_error, encodeFields_eq_visit] at inside
          rw [places, ← given]
          exact inside
  | list element =>
      cases v with
      | seq values =>
          rw [encode, Except.map_eq_error, mapItems_eq_visit] at h
          exact .inr h
      | _ =>
          cases h
          exact .inl rfl
  | map key value =>
      cases v with
      | map entries =>
          rw [encode, Except.map_eq_error] at h
          exact .inr (visit_of_mapEntries h)
      | _ =>
          cases h
          exact .inl rfl

theorem decode_error {d : Descriptor} {w : Packed} {e : DecodeError} (h : d.decode w = .error e) :
    e.path = [] ∨ Place.visit decode (d.places Packed.view w) = .error e := by
  induction d using Descriptor.induction with
  | bool | float | raw => cases w <;> cases h <;> exact .inl rfl
  | object | unit => cases h
  | int signed width =>
      cases w with
      | int n =>
          rw [decode] at h
          split at h <;> cases h
          exact .inl rfl
      | _ =>
          cases h
          exact .inl rfl
  | string =>
      cases w with
      | bin data =>
          rw [decode] at h
          split at h <;> cases h
          exact .inl rfl
      | _ =>
          cases h <;> exact .inl rfl
  | nullable inner ih =>
      rw [decode] at h
      split at h
      · cases h
      · exact ih h
  | tuple items =>
      cases w with
      | array ws =>
          refine (ofArity_eq_error h).imp_right fun inside => ?_
          rw [Except.map_eq_error, decodeItems_eq_visit] at inside
          exact inside
      | _ =>
          cases h
          exact .inl rfl
  | record name fields =>
      cases w with
      | array ws =>
          refine (ofArity_eq_error h).imp_right fun inside => ?_
          rw [Except.map_eq_error, decodeFields_eq_visit] at inside
          exact inside
      | _ =>
          cases h
          exact .inl rfl
  | list element =>
      cases w with
      | array ws =>
          rw [decode, Except.map_eq_error, mapItems_eq_visit] at h
          exact .inr h
      | _ =>
          cases h
          exact .inl rfl
  | map key value =>
      cases w with
      | map entries =>
          rw [decode, Except.map_eq_error] at h
          exact .inr (visit_of_mapEntries h)
      | _ =>
          cases h
          exact .inl rfl

/-- Whatever does not fit a descriptor whose records have fields with different names, its error points at the
first part that is at fault, when it is encoded and when it is decoded. -/
theorem error_points_at_culprit (d : Descriptor) (names : d.all namesDiffer = true) :
    (∀ v e, d.encode v = .error e → ∃ d' v', PointsAtCulprit Value.view encode d v e d' v') ∧
      ∀ w e, d.decode w = .error e → ∃ d' w', PointsAtCulprit Packed.view decode d w e d' w' :=
  ⟨fun _ _ => exists_culprit (fun _ _ _ => encode_error) names,
    fun _ _ => exists_culprit (fun _ _ _ => decode_error) names⟩

/-- A number among the booleans of a record, in the second entry of a map that may hold nil. -/
theorem error_points_at_culprit_entry :
    let d : Descriptor := .map .string (.nullable (.record "row" [("size", .float), ("tags", .list .bool)]))
    let v : Value := .map [(.string "a", .nil), (.string "b", .seq [.int 2, .seq [.bool true, .int 5, .nil]])]
    let e : EncodeError := ⟨[.value 1, .field "tags", .index 1], .typeMismatch .bool .int⟩
    d.all namesDiffer = true ∧ d.encode v = .error e ∧ PointsAtCulprit Value.view encode d v e .bool (.int 5) := by
  intro d v e
  have names : d.all namesDiffer = true := by decide
  have refused : d.encode v = .error e := by rfl
  obtain ⟨d', v', points⟩ := (error_points_at_culprit d names).1 v e refused
  have there : d.follow Value.view v e.path = some (.bool, .int 5) := by rfl
  rw [points.follow] at there
  cases there
  exact ⟨names, refused, points⟩

end Descriptor

end PackRpc
