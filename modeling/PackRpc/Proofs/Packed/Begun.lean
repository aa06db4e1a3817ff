import PackRpc.Proofs.Packed.Buffer
import PackRpc.Proofs.Packed.Survey
/-!
# Values that have begun

Cut between two of its items, a value is, from the outside in, the headers of the containers that are still
open, each with those of its items that are complete. `Begun` says so of bytes, with what each of these
containers still owes. Stepping over an item, into a container and out of it keeps that, so measuring always
stands between two items of one value (`walk_reaches`).
-/
namespace PackRpc

/-- The limits, widened to the longest small extension, the length of which measuring does not look at. -/
def Limits.roomy (limits : Limits) : Limits := { limits with maxSize := max limits.maxSize 16 }

namespace Reader

variable {α : Type} {form : α → Bytes → Prop} {as : List α} {a : α} {front back bytes : Bytes}

theorem Series.concat (h : Series form as front) (last : form a back) :
    Series form (as ++ [a]) (front ++ back) := by
  induction h with
  | nil =>
      rw [List.nil_append, List.nil_append, ← List.append_nil back]
      exact .cons last .nil
  | cons first others ih =>
      rw [List.append_assoc, List.cons_append]
      exact .cons first ih

theorem Series.pairs {count : Nat} (h : Series form as bytes) (even : as.length = 2 * count) :
    ∃ entries, entries.length = count ∧ Series (Pair form) entries bytes := by
  induction count generalizing as bytes with
  | zero =>
      cases h with
      | nil => exact ⟨[], rfl, .nil⟩
      | cons => cases even
  | succ count ih =>
      cases h with
      | nil => cases even
      | @cons key _ front _ first others =>
          cases others with
          | nil =>
              simp only [List.length_cons, List.length_nil] at even
              omega
          | @cons value as mid back second others =>
              obtain ⟨entries, size, series⟩ := ih others (by simp only [List.length_cons] at even; omega)
              refine ⟨(key, value) :: entries, by rw [List.length_cons, size], ?_⟩
              rw [← List.append_assoc]
              exact .cons ⟨front, mid, rfl, first, second⟩ series

end Reader

namespace Packed
open Reader (Series Pair)

/-- The bytes are the header of a container of so many items, of which an entry of a map is two. -/
inductive IsHeader (limits : Limits) : Bytes → Nat → Prop
  | array {header length} : Announces .array header length → length ≤ limits.maxSize →
      IsHeader limits header length
  | map {header length} : Announces .map header length → length ≤ limits.maxSize →
      IsHeader limits header (2 * length)

/-- What stands before a place between two items of a value: from the outside in, the headers of the containers
that are open there, each with its complete items. The list counts, innermost first, the items that each of them
still owes, and at its end those owed for the value itself, of which there is one. An item of the innermost
container that is open itself is `inside`. -/
inductive Begun (limits : Limits) : (inside : Nat) → List Nat → Bytes → Prop
  | whole {v front} : Spells limits limits.maxDepth v front → Begun limits 0 [] front
  | value {inside owed items body} : Series (Spells limits limits.maxDepth) items body →
      owed + items.length + inside = 1 → Begun limits inside [owed] body
  | container {inside owed outer before header count levels items body} : Begun limits 1 outer before →
      IsHeader limits header count → outer.length + levels = limits.maxDepth →
      Series (Spells limits levels) items body → owed + items.length + inside = count →
      Begun limits inside (owed :: outer) (before ++ header ++ body)

section
variable {limits : Limits} {inside owed levels count : Nat} {pending outer : List Nat}
  {front back header body : Bytes} {items : List Packed} {v : Packed}

theorem IsHeader.ne_nil (h : IsHeader limits header count) : header ≠ [] := by
  cases h with
  | array announces | map announces => exact announces.ne_nil

theorem IsHeader.lt (h : IsHeader limits header count) : count < 2 ^ 33 := by
  cases h with
  | array announces | map announces =>
      have := announces.lt
      omega

theorem IsHeader.spells (h : IsHeader limits header count) (series : Series (Spells limits levels) items body)
    (all : items.length = count) : ∃ v, Spells limits (levels + 1) v (header ++ body) := by
  cases h with
  | array announces small =>
      subst all
      exact ⟨.array items, .content announces (.array rfl small series)⟩
  | map announces small =>
      obtain ⟨entries, rfl, series⟩ := series.pairs all
      exact ⟨.map entries, .content announces (.map rfl small series)⟩

theorem begun_start (limits : Limits) : Begun limits 0 [1] [] := .value .nil rfl

theorem Begun.next (h : Begun limits 0 ((owed + 1) :: outer) front) : Begun limits 1 (owed :: outer) front := by
  cases h with
  | value series all => exact .value series (by omega)
  | container before header room series all => exact .container before header room series (by omega)

theorem Begun.complete (h : Begun limits 1 (owed :: outer) front) (room : outer.length + levels = limits.maxDepth)
    (item : Spells limits levels v back) : Begun limits 0 (owed :: outer) (front ++ back) := by
  cases h with
  | value series all =>
      obtain rfl : levels = limits.maxDepth := by rw [← room, List.length_nil, Nat.zero_add]
      refine .value (series.concat item) ?_
      rw [List.length_append, List.length_singleton]
      omega
  | @container _ _ _ before header count levels' items body begun opens room' series all =>
      obtain rfl : levels = levels' := by omega
      rw [List.append_assoc]
      refine .container begun opens room' (series.concat item) ?_
      rw [List.length_append, List.length_singleton]
      omega

theorem Begun.item (h : Begun limits 0 ((owed + 1) :: outer) front) (room : outer.length + levels = limits.maxDepth)
    (item : Spells limits levels v back) : Begun limits 0 (owed :: outer) (front ++ back) :=
  h.next.complete room item

theorem Begun.enter (h : Begun limits 0 ((owed + 1) :: outer) front) (room : outer.length < limits.maxDepth)
    (opens : IsHeader limits header count) : Begun limits 0 (count :: owed :: outer) (front ++ header) := by
  obtain ⟨levels, deep⟩ := Nat.exists_eq_add_of_lt room
  have inside : (owed :: outer).length + levels = limits.maxDepth := by
    rw [deep, List.length_cons]
    omega
  rw [← List.append_nil (front ++ header)]
  exact .container h.next opens inside .nil rfl

theorem Begun.leave (h : Begun limits 0 (0 :: outer) front) : Begun limits 0 outer front := by
  cases h with
  | @value _ _ items body series all =>
      obtain ⟨v, rfl⟩ : ∃ v, items = [v] := List.length_eq_one_iff.mp (by omega)
      cases series with
      | cons first others =>
          cases others with
          | nil =>
              rw [List.append_nil]
              exact .whole first
  | @container _ _ _ before header count levels items body begun opens room series all =>
      obtain ⟨v, container⟩ := opens.spells series (by omega)
      rw [List.append_assoc]
      cases outer with
      | nil => cases begun
      | cons owed outer =>
          refine begun.complete ?_ container
          rw [← room, List.length_cons]
          omega

theorem Begun.length_le (h : Begun limits inside pending front) : pending.length ≤ limits.maxDepth + 1 := by
  cases h with
  | whole => exact Nat.zero_le _
  | value => exact Nat.succ_le_succ (Nat.zero_le _)
  | container begun opens room =>
      rw [List.length_cons]
      omega

/-- Every open container has a header of its own. -/
theorem Begun.length_le_bytes (h : Begun limits inside pending front) : pending.length ≤ front.length + 1 := by
  induction h with
  | whole => exact Nat.zero_le _
  | value => exact Nat.succ_le_succ (Nat.zero_le _)
  | container begun opens room series all ih =>
      have := List.length_pos_iff.mpr opens.ne_nil
      simp only [List.length_cons, List.length_append]
      omega

/-- However many items are announced, there are fewer than twice as many as four bytes can count. -/
theorem Begun.lt (h : Begun limits inside pending front) : ∀ owed ∈ pending, owed < 2 ^ 33 := by
  induction h with
  | whole => exact List.forall_mem_nil _
  | value series all => exact List.forall_mem_singleton.mpr (by omega)
  | container begun opens room series all ih =>
      have := opens.lt
      exact List.forall_mem_cons.mpr ⟨by omega, ih⟩

theorem Begun.getLast?_inside (h : Begun limits 1 pending front) : pending.getLast? = some 0 := by
  generalize one : 1 = inside at h
  induction h with
  | whole => cases one
  | value series all =>
      rw [List.getLast?_singleton]
      congr 1
      omega
  | @container _ _ outer _ _ _ _ _ _ begun opens room series all ih =>
      rw [List.getLast?_cons, ih rfl]
      rfl

/-- The value itself is owed until its first item. -/
theorem Begun.getLast? (h : Begun limits 0 ((owed + 1) :: outer) front) :
    ((owed + 1) :: outer).getLast? = some (if front.length = 0 then 1 else 0) := by
  cases h with
  | @value _ _ items body series all =>
      obtain rfl : items = [] := List.eq_nil_of_length_eq_zero (by omega)
      cases series with
      | nil =>
          obtain rfl : owed = 0 := by omega
          rfl
  | container begun opens room series all =>
      have := List.length_pos_iff.mpr opens.ne_nil
      rw [List.getLast?_cons, begun.getLast?_inside, if_neg]
      · rfl
      · simp only [List.length_append]
        omega

theorem nil_spelled (limits : Limits) (levels : Nat) : Spells limits levels .nil [0xc0] :=
  Layer.spells (fun _ => .value rfl) levels

theorem Begun.fill (h : Begun limits 0 (owed :: outer) front) :
    Begun limits 0 (0 :: outer) (front ++ List.replicate owed 0xc0) := by
  induction owed generalizing front with
  | zero => rwa [List.replicate_zero, List.append_nil]
  | succ owed ih =>
      obtain ⟨levels, room⟩ := Nat.exists_eq_add_of_le (Nat.le_of_succ_le_succ h.length_le)
      have filled := ih (h.item room.symm (nil_spelled limits levels))
      rwa [List.append_assoc, List.singleton_append, ← List.replicate_succ] at filled

/-- What has begun is ended by as many items as are owed. -/
theorem Begun.exists_spells (h : Begun limits 0 pending front) :
    ∃ v, Spells limits limits.maxDepth v (front ++ List.replicate pending.sum 0xc0) := by
  induction pending generalizing front with
  | nil =>
      cases h with
      | whole spelled =>
          rw [List.sum_nil, List.replicate_zero, List.append_nil]
          exact ⟨_, spelled⟩
  | cons owed outer ih =>
      obtain ⟨v, spelled⟩ := ih h.fill.leave
      rw [List.append_assoc, List.replicate_append_replicate, ← List.sum_cons] at spelled
      exact ⟨v, spelled⟩

/-- What has begun is one value when as many items follow as are owed, and not with fewer or more of them. -/
theorem Begun.spells_iff (h : Begun limits 0 pending front) (count : Nat) :
    (∃ v, Spells limits limits.maxDepth v (front ++ List.replicate count 0xc0)) ↔ count = pending.sum := by
  constructor
  · rintro ⟨v, spelled⟩
    obtain ⟨w, spelled'⟩ := h.exists_spells
    -- One of the two is a front of the other, and two values are not.
    have fits (m n : Nat) (le : m ≤ n) :
        front ++ List.replicate m (0xc0 : UInt8) <+: front ++ List.replicate n 0xc0 := by
      obtain ⟨more, rfl⟩ := Nat.exists_eq_add_of_le le
      rw [← List.replicate_append_replicate, ← List.append_assoc]
      exact List.prefix_append _ _
    have read := ofBytes_eq_ok.mpr spelled
    have read' := ofBytes_eq_ok.mpr spelled'
    have same : front ++ List.replicate count (0xc0 : UInt8) = front ++ List.replicate pending.sum 0xc0 := by
      rcases Nat.le_total count pending.sum with le | le
      · exact (ofBytes_prefix_unique (List.prefix_refl _) (fits _ _ le) read' read).1
      · exact (ofBytes_prefix_unique (List.prefix_refl _) (fits _ _ le) read read').1.symm
    simpa using congrArg List.length same
  · rintro rfl
    exact h.exists_spells

end

end Packed

/-! ## Items that are stepped over -/

namespace Item
open Packed (Announces Family IsHeader Layer shape)

/-- What the bytes of an item are: the spelling of a value without parts, or the header of a container. -/
def Stands (limits : Limits) : Item → Bytes → Prop
  | .scalar, bytes => ∃ v, ∀ inner, Layer limits inner v bytes
  | .container count, bytes => IsHeader limits bytes count

section
variable {limits : Limits} {marker : UInt8} {header back : Bytes} {size length : Nat} {item : Item}

theorem payload_eq_ok (h : payload header.length length (header ++ back) = .ok (item, size)) :
    item = .scalar ∧ ∃ data, data.length = length ∧ (header ++ back).take size = header ++ data := by
  rw [payload_eq_of_le (by simp)] at h
  split at h
  case isFalse => cases h
  case isTrue enough =>
    cases h
    rw [List.length_append] at enough
    refine ⟨rfl, back.take length, List.length_take_of_le (by omega), ?_⟩
    rw [List.take_length_add_append]

theorem bounded_eq_ok {next : Nat → Except Stop (Item × Nat)} (h : bounded limits length next = .ok (item, size)) :
    length ≤ limits.maxSize ∧ next length = .ok (item, size) := by
  unfold bounded at h
  split at h
  · cases h
  · next small => exact ⟨Nat.not_lt.mp small, h⟩

theorem sized_eq_ok {count : Nat} {rest : Bytes} {next : Nat → Except Stop (Item × Nat)}
    (h : sized limits count rest next = .ok (item, size)) :
    ∃ header back, rest = header ++ back ∧ header.length = count ∧
      bounded limits (Bytes.toNat header) next = .ok (item, size) := by
  unfold sized at h
  cases read : Reader.number count rest with
  | error stop =>
      rw [read] at h
      cases h
  | ok r =>
      obtain ⟨length, back⟩ := r
      obtain ⟨header, split, all, rfl⟩ := (Reader.number_accepts _ _ _ _).mp read
      rw [read] at h
      exact ⟨header, back, split, all, h⟩

theorem step_stands {family : Family} (announces : Announces family (marker :: header) length)
    (small : length ≤ limits.maxSize) (h : family.step header.length (header ++ back) length = .ok (item, size)) :
    item.Stands limits (marker :: (header ++ back).take size) := by
  cases family with
  | str =>
      obtain ⟨rfl, data, rfl, stepped⟩ := payload_eq_ok h
      rw [stepped, ← List.cons_append]
      exact ⟨_, fun inner => .content announces (.str small)⟩
  | bin =>
      obtain ⟨rfl, data, rfl, stepped⟩ := payload_eq_ok h
      rw [stepped, ← List.cons_append]
      exact ⟨_, fun inner => .content announces (.bin small)⟩
  | ext =>
      obtain ⟨rfl, data, all, stepped⟩ := payload_eq_ok h
      obtain ⟨type, data, rfl⟩ := List.exists_cons_of_length_eq_add_one all
      obtain rfl : data.length = length := Nat.succ.inj all
      rw [stepped, ← List.cons_append]
      exact ⟨_, fun inner => .content announces (.ext small)⟩
  | array =>
      cases h
      rw [List.take_left]
      exact .array announces small
  | map =>
      cases h
      rw [List.take_left]
      exact .map announces small

theorem skip_stands {tail : Bytes} (h : skip limits marker tail = .ok (item, size)) :
    item.Stands limits.roomy (marker :: tail.take size) := by
  have wide : limits.maxSize ≤ limits.roomy.maxSize := Nat.le_max_left _ _
  rw [Packed.skip_eq_measure] at h
  cases announced : shape marker with
  | value v =>
      rw [announced] at h
      cases h
      exact ⟨v, fun inner => .value announced⟩
  | number count spelled =>
      rw [announced] at h
      have h : payload ([] : Bytes).length count ([] ++ tail) = .ok (item, size) := h
      obtain ⟨rfl, data, all, stepped⟩ := payload_eq_ok h
      rw [List.nil_append, List.nil_append] at stepped
      rw [stepped]
      exact ⟨_, fun inner => .number announced all⟩
  | fixed family length =>
      rw [announced] at h
      have step (small : length ≤ limits.roomy.maxSize) (h : family.step 0 tail length = .ok (item, size)) :
          item.Stands limits.roomy (marker :: tail.take size) :=
        step_stands (.fixed announced : Announces family (marker :: []) length) small h
      cases family with
      | ext =>
          have short : length ≤ 16 := Packed.small_extension_le announced
          exact step (Nat.le_trans short (Nat.le_max_right _ _)) h
      | str | bin | array | map =>
          obtain ⟨small, h⟩ := bounded_eq_ok h
          exact step (Nat.le_trans small wide) h
  | sized family count =>
      rw [announced] at h
      obtain ⟨header, back, rfl, rfl, h⟩ := sized_eq_ok h
      obtain ⟨small, h⟩ := bounded_eq_ok h
      exact step_stands (.sized announced) (Nat.le_trans small wide) h
  | reserved =>
      rw [announced] at h
      cases h

end

end Item

namespace Scanner
open Packed (Begun Spells)

/-- What measuring comes to in the bytes behind those that it has stepped over: the end of the value, or a place
between two of its items, where something is owed. -/
inductive Reaches (limits : Limits) (front rest : Bytes) : Result → Prop
  | complete {back left v} : rest = back ++ left → Spells limits.roomy limits.maxDepth v (front ++ back) →
      Reaches limits front rest (.complete (front ++ back).length)
  | more {back left owed outer} : rest = back ++ left → Begun limits.roomy 0 ((owed + 1) :: outer) (front ++ back) →
      Reaches limits front rest (.more ⟨(front ++ back).length, (owed + 1) :: outer⟩)
  | refused {e} : Reaches limits front rest (.refused e)

section
variable {limits : Limits} {front item rest : Bytes} {pending outer : List Nat} {owed position : Nat} {result : Result}

theorem Reaches.behind (h : Reaches limits (front ++ item) rest result) :
    Reaches limits front (item ++ rest) result := by
  cases h with
  | @complete back left v split spelled =>
      subst split
      rw [List.append_assoc] at spelled ⊢
      exact .complete (List.append_assoc _ _ _).symm spelled
  | @more back left owed outer split begun =>
      subst split
      rw [List.append_assoc] at begun ⊢
      exact .more (List.append_assoc _ _ _).symm begun
  | refused => exact .refused

theorem reaches_here (begun : Begun limits.roomy 0 ((owed + 1) :: outer) front) (place : position = front.length) :
    Reaches limits front rest (.more ⟨position, (owed + 1) :: outer⟩) := by
  have split : rest = [] ++ rest := rfl
  have here : Begun limits.roomy 0 ((owed + 1) :: outer) (front ++ []) := by rwa [List.append_nil]
  have reaches := Reaches.more split here
  rwa [List.append_nil, ← place] at reaches

theorem length_append_item (front item : Bytes) (marker : UInt8) :
    front.length + 1 + item.length = (front ++ marker :: item).length := by
  rw [List.length_append, List.length_cons]
  omega

/-- Measuring goes from one place between two items to another, or to the end. -/
theorem walk_reaches (begun : Begun limits.roomy 0 pending front) (place : position = front.length) :
    Reaches limits front rest (walk limits position pending rest) := by
  fun_induction walk limits position pending rest generalizing front with
  | case1 position rest =>
      cases begun with
      | whole spelled =>
          have split : rest = [] ++ rest := rfl
          rw [← List.append_nil front] at spelled place
          rw [place]
          exact .complete split spelled
  | case2 position rest outer ih => exact ih begun.leave place
  | case3 position owed outer => exact reaches_here begun place
  | case4 position owed outer marker tail short => exact reaches_here begun place
  | case5 position owed outer marker tail e refused => exact .refused
  | case6 position owed outer marker tail size found ih =>
      obtain ⟨item, back, rfl, rfl, -⟩ := Item.skip_eq_ok found
      obtain ⟨v, spelled⟩ := Item.skip_stands found
      obtain ⟨levels, room⟩ := Nat.exists_eq_add_of_le (Nat.le_of_succ_le_succ begun.length_le)
      rw [List.take_left] at spelled
      rw [List.drop_left] at ih ⊢
      have next := begun.item room.symm (Packed.Layer.spells spelled levels)
      exact (ih next (by rw [place, length_append_item])).behind
  | case7 position owed outer marker tail count size found full => exact .refused
  | case8 position owed outer marker tail count size found room ih =>
      obtain ⟨item, back, rfl, rfl, -⟩ := Item.skip_eq_ok found
      have opens : Packed.IsHeader limits.roomy _ count := Item.skip_stands found
      rw [List.take_left] at opens
      rw [List.drop_left] at ih ⊢
      have next := begun.enter (Nat.not_le.mp room) opens
      exact (ih next (by rw [place, length_append_item])).behind

end

end Scanner

namespace Buffer
open Packed (Begun)

/-- The scanner of a buffer stands between two items of a value, where one more is owed. -/
inductive Between (limits : Limits) : Buffer → Prop
  | between {front rest owed outer} : Begun limits.roomy 0 ((owed + 1) :: outer) front →
      Between limits ⟨front ++ rest, ⟨front.length, (owed + 1) :: outer⟩⟩

variable {limits : Limits} {b : Buffer}

theorem ofBytes_between (limits : Limits) (bytes : Bytes) : (ofBytes bytes).Between limits :=
  .between (Packed.begun_start limits.roomy)

theorem Between.append (h : b.Between limits) (bytes : Bytes) : (b.append bytes).Between limits := by
  cases h with
  | between begun =>
      rw [Buffer.append, List.append_assoc]
      exact .between begun

theorem Between.scan (h : b.Between limits) :
    ∃ front rest, b.bytes = front ++ rest ∧ Scanner.Reaches limits front rest (b.scanner.scan limits b.bytes) := by
  cases h with
  | @between front rest owed outer begun =>
      refine ⟨front, rest, rfl, ?_⟩
      rw [Scanner.scan, List.drop_left]
      exact Scanner.walk_reaches begun rfl

theorem Between.next (h : b.Between limits) : (b.next limits).2.Between limits := by
  obtain ⟨front, rest, bytes, reaches⟩ := h.scan
  unfold Buffer.next
  cases found : b.scanner.scan limits b.bytes with
  | complete size =>
      dsimp only
      cases Packed.ofBytes limits (b.bytes.take size) <;> exact ofBytes_between limits _
  | refused e => exact ofBytes_between limits _
  | more s =>
      dsimp only
      split
      · exact ofBytes_between limits _
      · rw [found] at reaches
        cases reaches with
        | @more back left owed outer split begun =>
            rw [bytes, split, ← List.append_assoc]
            exact .between begun

theorem Between.perform (h : b.Between limits) (uses : List Use) : (b.perform limits uses).2.Between limits := by
  induction uses generalizing b with
  | nil => exact h
  | cons use uses ih =>
      cases use with
      | append bytes => exact ih (h.append bytes)
      | next => exact ih h.next

end Buffer

end PackRpc
