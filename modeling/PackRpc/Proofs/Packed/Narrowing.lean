import PackRpc.Proofs.Packed.RoundTrip

namespace PackRpc

namespace Reader

section
variable {α : Type} {form form' : α → Bytes → Prop} {as : List α} {bytes : Bytes}

theorem Series.length_le (h : Series form as bytes) (full : ∀ a front, form a front → front ≠ []) :
    as.length ≤ bytes.length := by
  induction h with
  | nil => exact Nat.le_refl _
  | cons first others ih =>
      have pos := List.length_pos_iff.mpr (full _ _ first)
      simp only [List.length_cons, List.length_append]
      omega

/-- A form may be replaced for the members of a series and for the bytes that have room in it. -/
theorem Series.imp (h : Series form as bytes)
    (each : ∀ a ∈ as, ∀ front, front.length ≤ bytes.length → form a front → form' a front) :
    Series form' as bytes := by
  induction h with
  | nil => exact .nil
  | cons first others ih =>
      simp only [List.length_append] at each
      refine .cons (each _ (.head _) _ (Nat.le_add_right _ _) first) (ih ?_)
      intro a ha front small
      exact each a (.tail _ ha) front (Nat.le_trans small (Nat.le_add_left _ _))

theorem Pair.imp {e : α × α} (h : Pair form e bytes)
    (first : ∀ front, front.length ≤ bytes.length → form e.1 front → form' e.1 front)
    (second : ∀ front, front.length ≤ bytes.length → form e.2 front → form' e.2 front) :
    Pair form' e bytes := by
  obtain ⟨front, back, rfl, h1, h2⟩ := h
  simp only [List.length_append] at first second
  exact ⟨front, back, rfl, first front (Nat.le_add_right _ _) h1, second back (Nat.le_add_left _ _) h2⟩

end

end Reader

namespace Packed
open Reader (Series Pair Extends andThen many pair)

section
variable {wide limits : Limits} {inner inner' : Option (Packed → Bytes → Prop)} {v : Packed} {front : Bytes}

theorem Content.narrow {family : Family} {length : Nat} (h : Content wide inner family length v front)
    (small : front.length ≤ limits.maxSize)
    (full : ∀ form, inner = some form → ∀ part bytes, form part bytes → bytes ≠ [])
    (below : ∀ form, inner = some form → 0 < v.depth → ∃ form', inner' = some form' ∧
      ∀ part bytes, part.depth < v.depth → bytes.length ≤ front.length → form part bytes →
        form' part bytes) :
    Content limits inner' family length v front := by
  cases h with
  | str => exact .str small
  | bin => exact .bin small
  | ext =>
      rw [List.length_cons] at small
      exact .ext (Nat.le_of_succ_le small)
  | array given _ series =>
      obtain ⟨form', given', each⟩ := below _ given (Nat.succ_pos _)
      have count := series.length_le (full _ given)
      refine .array given' (Nat.le_trans count small) (series.imp fun part member bytes room spelled => ?_)
      exact each part bytes (Nat.lt_succ_of_le (depthItems_le.mp (Nat.le_refl _) part member)) room spelled
  | map given _ series =>
      obtain ⟨form', given', each⟩ := below _ given (Nat.succ_pos _)
      have count := series.length_le fun e bytes entry => by
        obtain ⟨first, second, split, spelled, -⟩ := entry
        rw [split]
        exact List.append_ne_nil_of_left_ne_nil (full _ given _ _ spelled) second
      refine .map given' (Nat.le_trans count small) (series.imp fun e member bytes room entry => ?_)
      obtain ⟨key, value⟩ := depthEntries_le.mp (Nat.le_refl _) e member
      exact entry.imp
        (fun part fits => each e.1 part (Nat.lt_succ_of_le key) (Nat.le_trans fits room))
        (fun part fits => each e.2 part (Nat.lt_succ_of_le value) (Nat.le_trans fits room))

theorem Layer.narrow (h : Layer wide inner v front) (small : front.length ≤ limits.maxSize)
    (full : ∀ form, inner = some form → ∀ part bytes, form part bytes → bytes ≠ [])
    (below : ∀ form, inner = some form → 0 < v.depth → ∃ form', inner' = some form' ∧
      ∀ part bytes, part.depth < v.depth → bytes.length ≤ front.length → form part bytes →
        form' part bytes) :
    Layer limits inner' v front := by
  cases h with
  | value announced => exact .value announced
  | number announced size => exact .number announced size
  | content announces content =>
      simp only [List.length_append] at small below
      refine .content announces (content.narrow (Nat.le_of_add_left_le small) full fun form given deep => ?_)
      obtain ⟨form', given', each⟩ := below form given deep
      exact ⟨form', given', fun part bytes less room =>
        each part bytes less (Nat.le_trans room (Nat.le_add_left _ _))⟩

/-- A spelling whose length and nesting keep some limits is one under these limits. -/
theorem Spells.narrow {levels levels' : Nat} (h : Spells wide levels v front)
    (small : front.length ≤ limits.maxSize) (shallow : v.depth ≤ levels') : Spells limits levels' v front := by
  induction levels generalizing levels' v front with
  | zero => cases levels' <;> exact Layer.narrow h small nofun nofun
  | succ levels ih =>
      have full : ∀ form, some (Spells wide levels) = some form → ∀ part bytes, form part bytes → bytes ≠ [] := by
        rintro _ ⟨⟩ part bytes spelled
        exact spelled.ne_nil
      cases levels' with
      | zero => exact Layer.narrow h small full fun _ _ deep => absurd deep (Nat.not_lt.mpr shallow)
      | succ levels' =>
          refine Layer.narrow h small full ?_
          rintro _ ⟨⟩ -
          refine ⟨_, rfl, fun part bytes less room spelled => ?_⟩
          exact ih spelled (Nat.le_trans room small) (Nat.le_of_lt_succ (Nat.lt_of_lt_of_le less shallow))

/-- The bytes spell the value in any way, and keep the limits. -/
structure Admissible (limits : Limits) (v : Packed) (bytes : Bytes) : Prop where
  spelled : ∃ wide, ofBytes wide bytes = .ok v
  small : bytes.length ≤ limits.maxSize
  shallow : v.depth ≤ limits.maxDepth

theorem Admissible.of_toBytes (encoded : v.toBytes = .ok front) (small : front.length ≤ limits.maxSize)
    (shallow : v.depth ≤ limits.maxDepth) : v.Admissible limits front :=
  ⟨⟨limits, ofBytes_toBytes encoded small shallow⟩, small, shallow⟩

theorem Admissible.accepted (h : v.Admissible limits front) : ofBytes limits front = .ok v := by
  obtain ⟨wide, read⟩ := h.spelled
  exact ofBytes_eq_ok.mpr ((ofBytes_eq_ok.mp read).narrow h.small h.shallow)

end

/-! ## One layer under other limits -/

section
variable {α : Type} {excused : Stop → Prop} {more : Bytes} {limits limits' : Limits} {read read' : Reader α}

theorem checked_extends {length : Nat} (h : Extends excused more read read')
    (limit : limits'.maxSize = limits.maxSize ∨
      length ≤ limits'.maxSize ∧
        (limits.maxSize < length → excused (.refused (.tooLarge length limits.maxSize)))) :
    Extends excused more (checked limits length read) (checked limits' length read') := by
  intro bytes
  unfold checked
  by_cases large : length > limits.maxSize
  · rw [if_pos large]
    rcases limit with same | ⟨-, reason⟩
    · rw [same, if_pos large]
      exact .stopped
    · exact .excused (reason large)
  · have small : ¬length > limits'.maxSize := by
      rcases limit with same | ⟨small, -⟩
      · rwa [same]
      · exact Nat.not_lt.mpr small
    rw [if_neg large, if_neg small]
    exact h bytes

/-- What two readers of parts must have in common for the readers of the whole to have it. -/
structure Layered (excused : Stop → Prop) (more : Bytes) (limits limits' : Limits)
    (inner inner' : Option (Reader Packed)) : Prop where
  late : more = [] ∨ excused .short
  size : limits'.maxSize = limits.maxSize
  below : ∀ read, inner = some read → ∃ read', inner' = some read' ∧ Extends excused more read read'
  bottom : inner = none → inner' = none ∧ limits'.maxDepth = limits.maxDepth ∨
    excused (.refused (.tooDeep limits.maxDepth))

variable {inner inner' : Option (Reader Packed)}

theorem Layered.nested (h : Layered excused more limits limits' inner inner')
    {part : Reader Packed → Reader α}
    (parts : ∀ read read', Extends excused more read read' → Extends excused more (part read) (part read')) :
    Extends excused more (nested limits inner part) (Packed.nested limits' inner' part) := by
  intro bytes
  unfold Packed.nested
  cases inner with
  | none =>
      rcases h.bottom rfl with ⟨rfl, same⟩ | reason
      · rw [same]
        exact .stopped
      · exact .excused reason
  | some read =>
      obtain ⟨read', rfl, each⟩ := h.below read rfl
      exact parts read read' each bytes

theorem extBody_takes (length : Nat) :
    Reader.Takes (1 + length)
      (andThen (Reader.number 1) fun type => Reader.map (Packed.ext (UInt8.ofNat type).toInt8) (Reader.take length)) :=
  (Reader.number_takes 1).andThen fun _ => (Reader.take_takes length).map _

theorem Layered.body (h : Layered excused more limits limits' inner inner') (family : Family) (length : Nat) :
    Extends excused more (family.body limits inner length) (family.body limits' inner' length) := by
  cases family with
  | str | bin => exact checked_extends (((Reader.take_takes length).map _).extends_self h.late) (.inl h.size)
  | ext => exact checked_extends ((extBody_takes length).extends_self h.late) (.inl h.size)
  | array =>
      refine checked_extends (h.nested fun read read' each => ?_) (.inl h.size)
      exact (each.many length).map _
  | map =>
      refine checked_extends (h.nested fun read read' each => ?_) (.inl h.size)
      exact (each.pair.many length).map _

theorem Layered.shape_read (h : Layered excused more limits limits' inner inner') (marker : UInt8) :
    Extends excused more ((shape marker).read limits inner) ((shape marker).read limits' inner') := by
  cases shape marker with
  | value v => exact fun bytes => .read
  | number size spelled => exact ((Reader.take_takes size).map spelled).extends_self h.late
  | fixed family length => exact h.body family length
  | sized family header => exact ((Reader.number_takes header).extends_self h.late).andThen (h.body family)
  | reserved => exact fun bytes => .stopped

theorem item_eq_read (limits : Limits) (inner : Option (Reader Packed)) (marker : UInt8) (rest : Bytes) :
    item limits inner (marker :: rest) = (shape marker).read limits inner rest := by
  rw [item, body_eq_read]

theorem Layered.item (h : Layered excused more limits limits' inner inner') :
    Extends excused more (item limits inner) (Packed.item limits' inner') := by
  intro bytes
  cases bytes with
  | nil =>
      rcases h.late with rfl | late
      · exact .stopped
      · exact .excused late
  | cons marker rest =>
      rw [List.cons_append, item_eq_read, item_eq_read]
      exact h.shape_read marker rest

end

/-! ## Less depth -/

/-- Does what another one does, or finds the nesting too deep. -/
def Shallower {α : Type} (limits : Limits) (read wide : Reader α) : Prop :=
  ∀ bytes, read bytes = wide bytes ∨ read bytes = .error (.refused (.tooDeep limits.maxDepth))

section
variable {limits : Limits}

theorem parse_extends_wide {limits' : Limits} {levels levels' : Nat} (same : limits'.maxSize = limits.maxSize)
    (deeper : levels ≤ levels') :
    Extends (· = .refused (.tooDeep limits.maxDepth)) [] (parse limits levels) (parse limits' levels') := by
  induction levels generalizing levels' with
  | zero => cases levels' <;> exact Layered.item ⟨.inl rfl, same, nofun, fun _ => .inr rfl⟩
  | succ levels ih =>
      obtain ⟨below, rfl⟩ := Nat.exists_eq_add_of_lt deeper
      refine Layered.item ⟨.inl rfl, same, ?_, nofun⟩
      rintro _ ⟨⟩
      exact ⟨_, rfl, ih (Nat.le_add_right _ _)⟩

theorem parse_shallower {limits' : Limits} {levels levels' : Nat} (same : limits'.maxSize = limits.maxSize)
    (deeper : levels ≤ levels') : Shallower limits (parse limits levels) (parse limits' levels') := by
  intro bytes
  have alike := parse_extends_wide same deeper bytes
  rw [List.append_nil] at alike
  generalize parse limits levels bytes = result at alike
  generalize parse limits' levels' bytes = result' at alike
  cases alike with
  | read => exact .inl (by rw [List.append_nil])
  | stopped => exact .inl rfl
  | excused reason => exact .inr (by rw [reason])

theorem ofBytes_shallower {limits' : Limits} {bytes : Bytes} (same : limits'.maxSize = limits.maxSize)
    (deeper : limits.maxDepth ≤ limits'.maxDepth) :
    ofBytes limits bytes = ofBytes limits' bytes ∨
      ofBytes limits bytes = .error (.tooDeep limits.maxDepth) := by
  unfold ofBytes
  rcases parse_shallower same deeper bytes with same | deep
  · rw [same]
    exact .inl rfl
  · rw [deep]
    exact .inr rfl

end

end Packed

namespace Scanner

variable {limits limits' : Limits}

theorem skip_congr (same : limits'.maxSize = limits.maxSize) (marker : UInt8) (rest : Bytes) :
    Item.skip limits' marker rest = Item.skip limits marker rest := by
  have bounded : Item.bounded limits' = Item.bounded limits := by
    funext length next
    rw [Item.bounded, Item.bounded, same]
  have sized : Item.sized limits' = Item.sized limits := by
    funext header rest next
    rw [Item.sized, Item.sized, bounded]
  simp only [Item.skip, bounded, sized]

/-- With less depth allowed, measuring ends as it did or finds the nesting too deep. -/
theorem walk_shallower (same : limits'.maxSize = limits.maxSize) (deeper : limits.maxDepth ≤ limits'.maxDepth)
    (position : Nat) (pending : List Nat) (rest : Bytes) :
    walk limits position pending rest = walk limits' position pending rest ∨
      walk limits position pending rest = .refused (.tooDeep limits.maxDepth) := by
  fun_induction walk limits position pending rest with
  | case1 position rest => exact .inl (by rw [walk])
  | case2 position rest outer ih => rwa [walk_paid]
  | case3 position owed outer => exact .inl (by rw [walk])
  | case4 position owed outer marker tail short =>
      rw [← skip_congr same] at short
      exact .inl (by rw [walk, short])
  | case5 position owed outer marker tail e refused =>
      rw [← skip_congr same] at refused
      exact .inl (walk_refused refused).symm
  | case6 position owed outer marker tail size found ih =>
      obtain ⟨front, back, rfl, rfl, -⟩ := Item.skip_eq_ok found
      rw [← skip_congr same] at found
      rw [List.drop_left] at ih ⊢
      rwa [walk_scalar found]
  | case7 position owed outer marker tail count size found full => exact .inr rfl
  | case8 position owed outer marker tail count size found room ih =>
      obtain ⟨front, back, rfl, rfl, -⟩ := Item.skip_eq_ok found
      rw [← skip_congr same] at found
      rw [List.drop_left] at ih ⊢
      rwa [walk_container (Nat.lt_of_lt_of_le (Nat.not_le.mp room) deeper) found]

end Scanner

/-- Taking the first value out of a byte string with less depth allowed ends as it did, or finds the nesting
too deep. -/
theorem Packed.decodeFirst_shallower {limits limits' : Limits} (same : limits'.maxSize = limits.maxSize)
    (deeper : limits.maxDepth ≤ limits'.maxDepth) (bytes : Bytes) :
    decodeFirst limits bytes = decodeFirst limits' bytes ∨
      (decodeFirst limits bytes).1 = .error (.tooDeep limits.maxDepth) := by
  unfold decodeFirst Buffer.next Scanner.scan
  rcases Scanner.walk_shallower same deeper _ _ _ with measured | deep
  · rw [measured]
    cases Scanner.walk limits' _ _ _ with
    | complete size =>
        dsimp only
        rcases ofBytes_shallower same deeper with read | deep
        · rw [read]
          exact .inl rfl
        · rw [deep]
          exact .inr rfl
    | more s =>
        rw [same]
        exact .inl rfl
    | refused e => exact .inl rfl
  · rw [deep]
    exact .inr rfl

end PackRpc
