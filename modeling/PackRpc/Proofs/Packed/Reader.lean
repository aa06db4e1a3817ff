import PackRpc.Packed.Parsing
import PackRpc.Proofs.Bytes
/-!
# What readers accept

For each way of building readers, when the reader that is built gives a result. A reader `Accepts` a
relation when it takes off the front exactly the byte strings that are related to its result, whatever
follows them. A reader `Extends` another one when it does the same on more bytes, but for stops that are
excused.
-/
namespace PackRpc.Reader

variable {α β : Type}

/-- The reader gives `a` exactly for the byte strings that begin with a form of `a`. -/
def Accepts (read : Reader α) (form : α → Bytes → Prop) : Prop :=
  ∀ bytes a rest, read bytes = .ok (a, rest) ↔ ∃ front, bytes = front ++ rest ∧ form a front

theorem Accepts.congr {read : Reader α} {form form' : α → Bytes → Prop} (h : Accepts read form)
    (same : ∀ a front, form a front ↔ form' a front) : Accepts read form' := by
  intro bytes a rest
  simp only [h bytes a rest, same]

theorem map_eq_ok {f : α → β} {read : Reader α} {bytes rest : Bytes} {b : β} :
    Reader.map f read bytes = .ok (b, rest) ↔ ∃ a, read bytes = .ok (a, rest) ∧ f a = b := by
  unfold Reader.map
  cases h : read bytes with
  | error e => simp
  | ok r => simp [Prod.ext_iff, eq_comm, and_comm]

theorem andThen_eq_ok {read : Reader α} {next : α → Reader β} {bytes rest : Bytes} {b : β} :
    andThen read next bytes = .ok (b, rest) ↔
      ∃ a mid, read bytes = .ok (a, mid) ∧ next a mid = .ok (b, rest) := by
  unfold andThen
  cases h : read bytes with
  | error e => simp
  | ok r => simp [Prod.ext_iff]

theorem take_accepts (count : Nat) :
    Accepts (take count) fun data front => front = data ∧ data.length = count := by
  intro bytes data rest
  unfold take
  constructor
  · intro h
    cases hs : bytes.split? count with
    | none => simp [hs] at h
    | some parts =>
        rw [hs] at h
        cases h
        obtain ⟨split, size⟩ := Bytes.split?_eq_some hs
        exact ⟨data, split, rfl, size⟩
  · rintro ⟨front, rfl, rfl, rfl⟩
    rw [Bytes.split?_append]

theorem number_eq_map (count : Nat) : number count = Reader.map Bytes.toNat (take count) := by
  funext bytes
  simp only [number, Reader.map]
  cases take count bytes <;> rfl

theorem number_accepts (count : Nat) :
    Accepts (number count) fun n front => front.length = count ∧ front.toNat = n := by
  intro bytes n rest
  rw [number_eq_map, map_eq_ok]
  constructor
  · rintro ⟨data, h, rfl⟩
    obtain ⟨front, split, rfl, size⟩ := (take_accepts count bytes data rest).mp h
    exact ⟨front, split, size, rfl⟩
  · rintro ⟨front, split, size, rfl⟩
    exact ⟨front, (take_accepts count bytes front rest).mpr ⟨front, split, rfl, size⟩, rfl⟩

theorem manyOnto_eq (read : Reader α) (count : Nat) (done : List α) (bytes : Bytes) :
    manyOnto read count done bytes = Reader.map (done.reverse ++ ·) (many read count) bytes := by
  induction count generalizing done bytes with
  | zero => simp [manyOnto, many, Reader.map]
  | succ count ih =>
      simp only [manyOnto, many, Reader.map]
      cases read bytes with
      | error e => rfl
      | ok r =>
          simp only [ih, Reader.map]
          cases many read count r.2 with
          | error e => rfl
          | ok as => simp

theorem many_succ (read : Reader α) (count : Nat) :
    many read (count + 1) = andThen read fun a => Reader.map (a :: ·) (many read count) := by
  funext bytes
  simp only [many, manyOnto, andThen]
  cases read bytes with
  | error e => rfl
  | ok r => exact manyOnto_eq read count [r.1] r.2

/-- Forms one after another. -/
inductive Series (form : α → Bytes → Prop) : List α → Bytes → Prop
  | nil : Series form [] []
  | cons {a as front back} : form a front → Series form as back →
      Series form (a :: as) (front ++ back)

theorem Series.forall_mem {form : α → Bytes → Prop} {as : List α} {bytes : Bytes}
    (h : Series form as bytes) {p : α → Prop} (each : ∀ a front, form a front → p a) :
    ∀ a ∈ as, p a := by
  induction h with
  | nil => exact List.forall_mem_nil p
  | cons first others ih => exact List.forall_mem_cons.mpr ⟨each _ _ first, ih⟩

theorem Series.mono {form form' : α → Bytes → Prop} {as : List α} {bytes : Bytes}
    (h : Series form as bytes) (each : ∀ a front, form a front → form' a front) :
    Series form' as bytes := by
  induction h with
  | nil => exact .nil
  | cons first others ih => exact .cons (each _ _ first) ih

theorem many_accepts {read : Reader α} {form : α → Bytes → Prop} (h : Accepts read form)
    (count : Nat) :
    Accepts (many read count) fun as front => as.length = count ∧ Series form as front := by
  induction count with
  | zero =>
      intro bytes as rest
      constructor
      · intro h
        cases h
        exact ⟨[], rfl, rfl, .nil⟩
      · rintro ⟨front, rfl, size, series⟩
        cases series with
        | nil => rfl
        | cons => cases size
  | succ count ih =>
      intro bytes as rest
      rw [many_succ, andThen_eq_ok]
      constructor
      · rintro ⟨a, mid, first, others⟩
        obtain ⟨as, tail, rfl⟩ := map_eq_ok.mp others
        obtain ⟨front, rfl, hfront⟩ := (h bytes a mid).mp first
        obtain ⟨back, rfl, size, series⟩ := (ih mid as rest).mp tail
        exact ⟨front ++ back, by rw [List.append_assoc], by rw [List.length_cons, size],
          .cons hfront series⟩
      · rintro ⟨_, rfl, size, series⟩
        cases series with
        | nil => cases size
        | @cons a as front back hfront series =>
            refine ⟨a, back ++ rest, (h _ _ _).mpr ⟨front, by rw [List.append_assoc], hfront⟩, ?_⟩
            exact map_eq_ok.mpr ⟨as, (ih _ _ _).mpr ⟨back, rfl, Nat.succ.inj size, series⟩, rfl⟩

def Pair (form : α → Bytes → Prop) (e : α × α) (bytes : Bytes) : Prop :=
  ∃ front back, bytes = front ++ back ∧ form e.1 front ∧ form e.2 back

theorem Pair.mono {form form' : α → Bytes → Prop} {e : α × α} {bytes : Bytes} (h : Pair form e bytes)
    (each : ∀ a front, form a front → form' a front) : Pair form' e bytes := by
  obtain ⟨front, back, rfl, first, second⟩ := h
  exact ⟨front, back, rfl, each _ _ first, each _ _ second⟩

theorem pair_accepts {read : Reader α} {form : α → Bytes → Prop} (h : Accepts read form) :
    Accepts (pair read read) (Pair form) := by
  intro bytes e rest
  unfold pair
  rw [andThen_eq_ok]
  constructor
  · rintro ⟨a, mid, first, second⟩
    obtain ⟨b, last, rfl⟩ := map_eq_ok.mp second
    obtain ⟨front, rfl, hfront⟩ := (h bytes a mid).mp first
    obtain ⟨back, rfl, hback⟩ := (h mid b rest).mp last
    exact ⟨front ++ back, by rw [List.append_assoc], front, back, rfl, hfront, hback⟩
  · rintro ⟨_, rfl, front, back, rfl, hfront, hback⟩
    refine ⟨e.1, back ++ rest, (h _ _ _).mpr ⟨front, by rw [List.append_assoc], hfront⟩, ?_⟩
    exact map_eq_ok.mpr ⟨e.2, (h _ _ _).mpr ⟨back, rfl, hback⟩, rfl⟩

/-- A series of pairs is a series of twice as many parts. -/
theorem Series.flatten {form : α → Bytes → Prop} {entries : List (α × α)} {bytes : Bytes}
    (h : Series (Pair form) entries bytes) :
    Series form (entries.flatMap fun e => [e.1, e.2]) bytes := by
  induction h with
  | nil => exact .nil
  | cons first others ih =>
      obtain ⟨front, back, rfl, hfront, hback⟩ := first
      rw [List.append_assoc]
      exact .cons hfront (.cons hback ih)

/-! ## Readers on more bytes -/

/-- The second result is the first with more bytes behind, unless the first is a stop of an excused sort. -/
inductive Alike (excused : Stop → Prop) (more : Bytes) :
    Except Stop (α × Bytes) → Except Stop (α × Bytes) → Prop
  | read {a rest} : Alike excused more (.ok (a, rest)) (.ok (a, rest ++ more))
  | stopped {stop} : Alike excused more (.error stop) (.error stop)
  | excused {stop result} : excused stop → Alike excused more (.error stop) result

/-- On all bytes, with more behind, the second reader does what the first does without these, unless the
first stops for an excused reason. -/
def Extends (excused : Stop → Prop) (more : Bytes) (read read' : Reader α) : Prop :=
  ∀ bytes, Alike excused more (read bytes) (read' (bytes ++ more))

section
variable {excused : Stop → Prop} {more : Bytes} {read read' : Reader α} {next next' : α → Reader β}

theorem Extends.map (h : Extends excused more read read') (f : α → β) :
    Extends excused more (Reader.map f read) (Reader.map f read') := by
  intro bytes
  have same := h bytes
  unfold Reader.map
  generalize read bytes = result at same
  generalize read' (bytes ++ more) = result' at same
  cases same with
  | read => exact .read
  | stopped => exact .stopped
  | excused reason => exact .excused reason

theorem Extends.andThen (h : Extends excused more read read')
    (on : ∀ a, Extends excused more (next a) (next' a)) :
    Extends excused more (andThen read next) (Reader.andThen read' next') := by
  intro bytes
  have same := h bytes
  unfold Reader.andThen
  generalize read bytes = result at same
  generalize read' (bytes ++ more) = result' at same
  cases same with
  | read => exact on _ _
  | stopped => exact .stopped
  | excused reason => exact .excused reason

theorem Extends.many (h : Extends excused more read read') (count : Nat) :
    Extends excused more (many read count) (Reader.many read' count) := by
  induction count with
  | zero => exact fun bytes => .read
  | succ count ih =>
      rw [Reader.many_succ, Reader.many_succ]
      exact h.andThen fun a => ih.map _

theorem Extends.pair (h : Extends excused more read read') :
    Extends excused more (pair read read) (Reader.pair read' read') :=
  h.andThen fun _ => h.map _

/-- A reader takes so many bytes, whatever they are. -/
structure Takes (count : Nat) (read : Reader α) : Prop where
  enough : ∀ front, front.length = count → ∃ a, ∀ rest, read (front ++ rest) = .ok (a, rest)
  short : ∀ bytes : Bytes, bytes.length < count → read bytes = .error .short

theorem take_takes (count : Nat) : Takes count (take count) where
  enough := by
    rintro front rfl
    exact ⟨front, fun rest => (take_accepts _ _ _ _).mpr ⟨front, rfl, rfl, rfl⟩⟩
  short := by
    intro bytes less
    cases read : take count bytes with
    | error stop =>
        simp only [take] at read
        split at read <;> cases read
        rfl
    | ok r =>
        obtain ⟨front, rfl, rfl, rfl⟩ := (take_accepts count bytes r.1 r.2).mp read
        rw [List.length_append] at less
        exact absurd less (Nat.not_lt.mpr (Nat.le_add_right _ _))

theorem Takes.map {count : Nat} (h : Takes count read) (f : α → β) : Takes count (Reader.map f read) where
  enough := by
    intro front size
    obtain ⟨a, given⟩ := h.enough front size
    exact ⟨f a, fun rest => by simp only [Reader.map, given]⟩
  short bytes less := by simp only [Reader.map, h.short bytes less]

theorem number_takes (count : Nat) : Takes count (number count) := by
  rw [number_eq_map]
  exact (take_takes count).map _

theorem Takes.andThen {first second : Nat} (h : Takes first read) (on : ∀ a, Takes second (next a)) :
    Takes (first + second) (Reader.andThen read next) where
  enough := by
    intro front size
    obtain ⟨a, given⟩ := h.enough (front.take first) (by rw [List.length_take]; omega)
    obtain ⟨b, given'⟩ := (on a).enough (front.drop first) (by rw [List.length_drop]; omega)
    refine ⟨b, fun rest => ?_⟩
    have split : front ++ rest = front.take first ++ (front.drop first ++ rest) := by
      rw [← List.append_assoc, List.take_append_drop]
    rw [split, Reader.andThen, given]
    exact given' rest
  short := by
    intro bytes less
    by_cases first_short : bytes.length < first
    · simp only [Reader.andThen, h.short bytes first_short]
    · obtain ⟨a, given⟩ := h.enough (bytes.take first) (by rw [List.length_take]; omega)
      have read := given (bytes.drop first)
      rw [List.take_append_drop] at read
      simp only [Reader.andThen, read]
      exact (on a).short _ (by rw [List.length_drop]; omega)

theorem Takes.extends_self {count : Nat} (h : Takes count read) (late : more = [] ∨ excused .short) :
    Extends excused more read read := by
  intro bytes
  by_cases short : bytes.length < count
  · rw [h.short bytes short]
    rcases late with rfl | late
    · rw [List.append_nil, h.short bytes short]
      exact .stopped
    · exact .excused late
  · obtain ⟨a, given⟩ := h.enough (bytes.take count) (by rw [List.length_take]; omega)
    have read := given (bytes.drop count)
    have again := given (bytes.drop count ++ more)
    rw [← List.append_assoc, List.take_append_drop] at again
    rw [List.take_append_drop] at read
    rw [read, again]
    exact .read

end

end PackRpc.Reader
