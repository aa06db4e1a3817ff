import PackRpc.Proofs.Packed.Measure
import PackRpc.Proofs.Stream.Writer

namespace PackRpc

namespace Packed

/-- What gets into a buffer is all of some bytes, unless a length is in the way. -/
def Puts (part : Bytes × Option Nat) (overlong : Option Nat) (whole : Bytes) : Prop :=
  part.2 = overlong ∧ (overlong = none → part.1 = whole)

section
variable {first rest : Bytes × Option Nat} {overlong later : Option Nat} {whole others : Bytes}

theorem Puts.putIf (h : Puts first overlong whole) (length : Nat) :
    Puts (putIf length first) ((overlong? length).or overlong) whole := by
  rw [Packed.putIf]
  cases overlong? length with
  | none => exact h
  | some length => exact ⟨rfl, nofun⟩

theorem Puts.putThen (h : Puts first overlong whole) (next : Puts rest later others) :
    Puts (putThen first rest) (overlong.or later) (whole ++ others) := by
  obtain ⟨front, stop⟩ := first
  obtain ⟨rfl, all⟩ := h
  cases stop with
  | some length => exact ⟨rfl, nofun⟩
  | none => exact ⟨next.1, fun fits => congrArg₂ (· ++ ·) (all rfl) (next.2 fits)⟩

end

theorem oversizeItems?_cons (item : Packed) (items : List Packed) :
    oversizeItems? (item :: items) = item.oversize?.or (oversizeItems? items) := by
  rw [oversizeItems?]
  cases item.oversize? <;> rfl

theorem oversizeEntries?_cons (key value : Packed) (entries : List (Packed × Packed)) :
    oversizeEntries? ((key, value) :: entries) =
      key.oversize?.or (value.oversize?.or (oversizeEntries? entries)) := by
  rw [oversizeEntries?]
  cases key.oversize? <;> cases value.oversize? <;> rfl

theorem putItems_puts {items : List Packed} (h : ∀ v ∈ items, Puts v.put v.oversize? v.encode) :
    Puts (putItems items) (oversizeItems? items) (encodeItems items) := by
  induction items with
  | nil => exact ⟨rfl, fun _ => rfl⟩
  | cons item items ih =>
      obtain ⟨first, others⟩ := List.forall_mem_cons.mp h
      rw [putItems, oversizeItems?_cons, encodeItems]
      exact first.putThen (ih others)

theorem putEntries_puts {entries : List (Packed × Packed)}
    (h : ∀ e ∈ entries, Puts e.1.put e.1.oversize? e.1.encode ∧ Puts e.2.put e.2.oversize? e.2.encode) :
    Puts (putEntries entries) (oversizeEntries? entries) (encodeEntries entries) := by
  induction entries with
  | nil => exact ⟨rfl, fun _ => rfl⟩
  | cons e entries ih =>
      obtain ⟨⟨key, value⟩, others⟩ := List.forall_mem_cons.mp h
      rw [putEntries, oversizeEntries?_cons, encodeEntries]
      exact key.putThen (value.putThen (ih others))

theorem put_puts (v : Packed) : Puts v.put v.oversize? v.encode := by
  have header (bytes : Bytes) : Puts (bytes, none) none bytes := ⟨rfl, fun _ => rfl⟩
  have leaf (bytes : Bytes) (length : Nat) : Puts (putIf length (bytes, none)) (overlong? length) bytes := by
    simpa only [Option.or_none] using (header bytes).putIf length
  induction v using Packed.induction with
  | nil | bool b | int n | float32 x | float64 x => exact header _
  | str text | bin data | ext type data => exact leaf _ _
  | array items ih => exact ((header _).putThen (putItems_puts ih)).putIf _
  | map entries ih => exact ((header _).putThen (putEntries_puts ih)).putIf _

theorem toBytes_eq_put (v : Packed) : v.toBytes =
    match v.put.2 with
    | some length => .error (.tooLarge length (2 ^ 32 - 1))
    | none => .ok v.put.1 := by
  obtain ⟨stop, all⟩ := v.put_puts
  rw [toBytes, stop]
  cases fits : v.oversize? with
  | some length => rfl
  | none => rw [all fits]

end Packed

namespace Sink

variable {limits : Limits} {s later : Sink} {v : Packed} {part : Bytes} {result : Except StreamError Unit}

theorem Delivery.taken (h : Delivery limits s v part result later) : later.taken = s.taken ++ part := by
  cases h with
  | sent _ _ took | unflushed _ _ took | cut _ _ _ took => exact took.taken
  | overlong | large => exact (List.append_nil _).symm

/-- A value is too large exactly when its encoding is beyond the limit, or it has none for a length in it. -/
theorem Delivery.tooLarge_iff (h : Delivery limits s v part result later) :
    (∃ size max, result = .error (.format (.tooLarge size max))) ↔
      limits.maxSize < v.encode.length ∨ 2 ^ 32 ≤ v.longest := by
  have fits {bytes : Bytes} (encoded : v.toBytes = .ok bytes) (small : bytes.length ≤ limits.maxSize) :
      ¬ (limits.maxSize < v.encode.length ∨ 2 ^ 32 ≤ v.longest) := by
    obtain ⟨short, rfl⟩ := Packed.toBytes_eq_ok.mp encoded
    omega
  cases h with
  | sent encoded small | unflushed encoded small => exact iff_of_false nofun (fits encoded small)
  | cut encoded _ small _ _ stops =>
      refine iff_of_false ?_ (fits encoded small)
      rintro ⟨size, max, same⟩
      cases same
      exact stops.ne_format _ rfl
  | overlong refused =>
      refine iff_of_true ⟨_, _, rfl⟩ (.inr (Nat.not_lt.mp fun short => ?_))
      rw [v.oversize?_eq_none.mpr short] at refused
      cases refused
  | large encoded large =>
      obtain ⟨-, rfl⟩ := Packed.toBytes_eq_ok.mp encoded
      exact iff_of_true ⟨_, _, rfl⟩ (.inl large)

/-- Values one after another, each of which is delivered to the sink as the last one has left it. -/
inductive Deliveries (limits : Limits) :
    Sink → List Packed → List Bytes → List (Except StreamError Unit) → Sink → Prop
  | nil {s : Sink} : Deliveries limits s [] [] [] s
  | cons {s : Sink} {v : Packed} {part : Bytes} {result : Except StreamError Unit} {mid vs parts results last} :
      Delivery limits s v part result mid → Deliveries limits mid vs parts results last →
      Deliveries limits s (v :: vs) (part :: parts) (result :: results) last

theorem Deliveries.taken {vs : List Packed} {parts : List Bytes} {results : List (Except StreamError Unit)}
    (h : Deliveries limits s vs parts results later) : later.taken = s.taken ++ parts.flatten := by
  induction h with
  | nil => exact (List.append_nil _).symm
  | cons first _ ih => rw [ih, first.taken, List.flatten_cons, List.append_assoc]

theorem Deliveries.tooLarge_iff {vs : List Packed} {parts : List Bytes} {results : List (Except StreamError Unit)}
    (h : Deliveries limits s vs parts results later) :
    List.Forall₂ (fun v result => (∃ size max, result = .error (.format (.tooLarge size max))) ↔
      limits.maxSize < v.encode.length ∨ 2 ^ 32 ≤ v.longest) vs results := by
  induction h with
  | nil => exact .nil
  | cons first _ ih => exact .cons first.tooLarge_iff ih

end Sink

namespace StreamWriter

/-- The buffer only passes the bytes of the value on. -/
theorem writeValue_eq (w : StreamWriter) (v : Packed) :
    let written := w.sink.writeValue w.limits v
    w.writeValue v = (written.1, ⟨w.limits, v.put.1, written.2⟩) := by
  rw [writeValue, Sink.writeValue, v.toBytes_eq_put, encode, clear]
  obtain ⟨bytes, stop⟩ := v.put
  cases stop with
  | some length => rfl
  | none =>
      dsimp only
      rw [List.nil_append]
      split
      · rfl
      · rw [send]
        dsimp only
        obtain ⟨result, sink⟩ := w.sink.send bytes
        cases result <;> rfl

def writeAll : StreamWriter → List Packed → List (Except StreamError Unit) × StreamWriter
  | w, [] => ([], w)
  | w, v :: vs =>
    let written := w.writeValue v
    let others := written.2.writeAll vs
    (written.1 :: others.1, others.2)

theorem writeAll_sink_eq (w : StreamWriter) (buffer : Bytes) (vs : List Packed) :
    ({ w with buffer }.writeAll vs).1 = (w.writeAll vs).1 ∧
      ({ w with buffer }.writeAll vs).2.sink = (w.writeAll vs).2.sink := by
  cases vs with
  | nil => exact ⟨rfl, rfl⟩
  | cons v vs =>
      rw [writeAll, writeAll, writeValue_eq, writeValue_eq]
      exact ⟨rfl, rfl⟩

/-- However a sink behaves, each of the calls on a writer delivers its own value, whatever the calls before it have
left in the buffer: it says that all is well when the sink has taken the encoding and was flushed; that the value is
too large, with nothing written, exactly when its encoding is beyond the limit or has a length that four bytes
cannot hold; and otherwise what has ended it, a front of the encoding being taken. Nothing else reaches the
sink. -/
theorem writeAll_delivers (w : StreamWriter) (vs : List Packed) :
    ∃ parts, Sink.Deliveries w.limits w.sink vs parts (w.writeAll vs).1 (w.writeAll vs).2.sink ∧
      (w.writeAll vs).2.sink.taken = w.sink.taken ++ parts.flatten ∧
      List.Forall₂ (fun v result => (∃ size max, result = .error (.format (.tooLarge size max))) ↔
        w.limits.maxSize < v.encode.length ∨ 2 ^ 32 ≤ v.longest) vs (w.writeAll vs).1 ∧
      ∀ buffer, ({ w with buffer }.writeAll vs).1 = (w.writeAll vs).1 ∧
        ({ w with buffer }.writeAll vs).2.sink = (w.writeAll vs).2.sink := by
  obtain ⟨parts, deliveries⟩ : ∃ parts,
      Sink.Deliveries w.limits w.sink vs parts (w.writeAll vs).1 (w.writeAll vs).2.sink := by
    induction vs generalizing w with
    | nil => exact ⟨[], .nil⟩
    | cons v vs ih =>
        obtain ⟨part, first⟩ := Sink.writeValue_delivers w.limits w.sink v
        rw [writeAll, writeValue_eq]
        obtain ⟨parts, others⟩ := ih ⟨w.limits, v.put.1, (w.sink.writeValue w.limits v).2⟩
        exact ⟨part :: parts, .cons first others⟩
  exact ⟨parts, deliveries, deliveries.taken, deliveries.tooLarge_iff, fun buffer => w.writeAll_sink_eq buffer vs⟩

/-- A sink takes one byte of the first value and then nothing; the second value comes after that byte. -/
example : ((new ⟨16, 2⟩ { writes := [.accept 1, .accept 0] }).writeAll [.bin [7, 8], .nil]).2.sink.taken =
    [0xc4, 0xc0] := by
  rfl

end StreamWriter

end PackRpc
