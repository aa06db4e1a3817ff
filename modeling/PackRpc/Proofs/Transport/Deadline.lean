import Mathlib.Tactic.Linarith
import Mathlib.Tactic.NormNum
import PackRpc.Loopback.System
import PackRpc.Proofs.Binary.Number
import PackRpc.Proofs.Descriptor.RoundTrip
import PackRpc.Proofs.Message.Envelope
/-!
# Deadlines

A call computes its deadline before it sends anything, also where no deadline is set, and a clock with signed
seconds cannot tell every moment. Timeouts come from the command line, in milliseconds or in seconds, and from
a configuration, as a number of seconds. Those in milliseconds are always told; of the others, those up to
half of the range of the clock.
-/
namespace PackRpc

namespace Instant

/-- The first 2 ^ 62 seconds of the clock, which is half of what it can tell. -/
structure Early (now : Instant) : Prop where
  begun : 0 ≤ now.nanos
  lt : now.nanos < 2 ^ 62 * (nanosPerSecond : Int)

theorem after?_eq_some {now later : Instant} {d : Duration} : now.after? d = some later ↔
    now.nanos + d.nanos < 2 ^ 63 * (nanosPerSecond : Int) ∧ later = ⟨now.nanos + d.nanos⟩ := by
  rw [after?]
  split <;> simp_all [eq_comm]

end Instant

namespace Duration

/-- Every early moment has a moment that much later. -/
def Tellable (d : Duration) : Prop := ∀ now : Instant, now.Early → ∃ later, now.after? d = some later

theorem tellable_iff {d : Duration} : d.Tellable ↔ d.nanos ≤ 2 ^ 62 * nanosPerSecond := by
  simp only [Tellable, Instant.after?_eq_some, exists_eq_right, nanosPerSecond]
  constructor
  · intro told
    -- The last early moment leaves the least room.
    have last := told ⟨2 ^ 62 * 1000000000 - 1⟩ ⟨by decide, by decide⟩
    simp only at last
    omega
  · intro few now early
    have := early.lt
    simp only [nanosPerSecond] at this
    omega

theorem ofMillis_tellable (n : UInt64) : (ofMillis n).Tellable := by
  have := n.toNat_lt
  rw [tellable_iff]
  simp only [ofMillis, nanosPerSecond]
  omega

theorem ofSeconds_tellable (n : UInt64) : (ofSeconds n).Tellable ↔ n.toNat ≤ 2 ^ 62 := by
  rw [tellable_iff, ofSeconds]
  simp only [nanosPerSecond]
  omega

def InMillis (text : String) : Prop := ['m', 's'] <:+ Text.trim text.toList

instance (text : String) : Decidable (InMillis text) :=
  inferInstanceAs (Decidable (['m', 's'] <:+ Text.trim text.toList))

/-- What a text asks for on the command line: so many milliseconds or so many seconds. -/
theorem unit_of_parse {text : String} {d : Duration} (h : parse text = .ok d) :
    ∃ n : UInt64, (InMillis text ∧ d = .ofMillis n) ∨ (¬InMillis text ∧ d = .ofSeconds n) := by
  unfold parse at h
  dsimp only at h
  split at h
  · cases h
  · by_cases millis : InMillis text
    · obtain ⟨number, found⟩ : ∃ number, before? ['m', 's'] (Text.trim text.toList) = some number :=
        ⟨_, if_pos millis⟩
      rw [found] at h
      split at h
      · next n _ =>
        cases h
        exact ⟨.ofNat n, .inl ⟨millis, rfl⟩⟩
      · cases h
    · have other : before? ['m', 's'] (Text.trim text.toList) = none := if_neg millis
      rw [other] at h
      split at h
      · next n _ =>
        cases h
        exact ⟨.ofNat n, .inr ⟨millis, rfl⟩⟩
      · cases h

end Duration

namespace Duration
open Binary (ratio_eq roundedQuotient_le roundedQuotient_mul)

/-- Rounding to nanoseconds does not move a float across 2 ^ 62 seconds. -/
theorem rounded_le_iff {m : Nat} (bound : m < 2 ^ 53) (e : Int) :
    Binary.roundedQuotient (m * 2 ^ e.toNat * nanosPerSecond) (2 ^ (-e).toNat) ≤ 2 ^ 62 * nanosPerSecond ↔
      (m : ℚ) * 2 ^ e ≤ 2 ^ 62 := by
  rcases le_or_gt 0 e with whole | fraction
  · -- A whole number of seconds is not rounded.
    have den : (-e).toNat = 0 := by omega
    have exact : (m : ℚ) * 2 ^ e = ((m * 2 ^ e.toNat : Nat) : ℚ) := by
      rw [← ratio_eq, den]
      simp
    have nanos := roundedQuotient_mul (m * 2 ^ e.toNat * nanosPerSecond) Nat.one_pos
    have power : (2 : ℚ) ^ 62 = ((2 ^ 62 : Nat) : ℚ) := by norm_num
    rw [Nat.mul_one] at nanos
    rw [den, pow_zero, nanos, exact, power, Nat.cast_le]
    exact Nat.mul_le_mul_right_iff (by decide)
  · -- Only small numbers have a fraction.
    have num : e.toNat = 0 := by omega
    have least : 1 ≤ 2 ^ (-e).toNat := Nat.one_le_two_pow
    have seconds : (m : ℚ) * 2 ^ e ≤ 2 ^ 62 := by
      have below : (2 : ℚ) ^ e ≤ 1 := zpow_le_one_of_nonpos₀ (by norm_num) fraction.le
      have size : (m : ℚ) ≤ 2 ^ 53 := by exact_mod_cast bound.le
      have nonneg : (0 : ℚ) ≤ m := Nat.cast_nonneg m
      calc (m : ℚ) * 2 ^ e ≤ m * 1 := by gcongr
        _ ≤ 2 ^ 62 := by linarith
    refine iff_of_true (roundedQuotient_le (Nat.two_pow_pos _) ?_) seconds
    rw [num, pow_zero, Nat.mul_one]
    calc m * nanosPerSecond ≤ 2 ^ 62 * nanosPerSecond :=
          Nat.mul_le_mul_right _ (Nat.le_trans bound.le (by decide))
      _ = 2 ^ 62 * nanosPerSecond * 1 := (Nat.mul_one _).symm
      _ ≤ 2 ^ 62 * nanosPerSecond * 2 ^ (-e).toNat := Nat.mul_le_mul_left _ least

theorem ofBinary64?_tellable {x : Binary64} {d : Duration} (h : ofBinary64? x = some d) :
    ∃ q : ℚ, x.classify.number? = some (.finite q) ∧ 0 ≤ q ∧ (d.Tellable ↔ q ≤ 2 ^ 62) := by
  unfold ofBinary64? at h
  split at h
  case h_2 => cases h
  case h_1 negative m e classified =>
    have small : x.bits.toNat < 2 * Binary.Format.double.signBit := x.bits.toNat_lt
    obtain ⟨canonical, -, -⟩ := Binary.Format.classify_eq_finite small classified
    have bound : m < 2 ^ 53 := canonical.lt
    split at h
    case isTrue => cases h
    case isFalse positive =>
      have magnitude : Binary.signed negative ((m : ℚ) * 2 ^ e) = m * 2 ^ e := by
        cases negative with
        | false => rfl
        | true =>
            obtain rfl : m = 0 := by simpa using positive
            simp [Binary.signed]
      refine ⟨m * 2 ^ e, by rw [classified, Binary.Class.number?, magnitude], Binary.scaled_nonneg m e, ?_⟩
      rw [ofNanos?] at h
      split at h
      case isFalse => cases h
      case isTrue held =>
        cases h
        rw [tellable_iff]
        exact rounded_le_iff bound e

end Duration

/-! ## The timeouts of a client -/

namespace ClientConfig

/-- The number that a member of a configuration is, as it is taken for seconds. -/
inductive Seconds : Json → Binary64 → Prop
  | int (n : PackedInt) : Seconds (.int n) (.ofInt n.val)
  | float (x : Binary64) : Seconds (.float x) x

theorem Seconds.timeoutOf {j : Json} {x : Binary64} {d : Duration} (h : Seconds j x) :
    timeoutOf j = .ok d ↔ Duration.ofBinary64? x = some d := by
  cases h with
  | int n =>
      rw [ClientConfig.timeoutOf]
      cases Duration.ofBinary64? (.ofInt n.val) <;> simp
  | float =>
      rw [ClientConfig.timeoutOf]
      cases Duration.ofBinary64? x <;> simp

theorem timeoutOf_eq_ok {j : Json} {d : Duration} :
    timeoutOf j = .ok d ↔ ∃ x, Seconds j x ∧ Duration.ofBinary64? x = some d := by
  constructor
  · intro h
    cases j with
    | int n => exact ⟨_, .int n, (Seconds.int n).timeoutOf.mp h⟩
    | float x => exact ⟨x, .float x, (Seconds.float x).timeoutOf.mp h⟩
    | _ => cases h
  · rintro ⟨x, seconds, h⟩
    exact seconds.timeoutOf.mpr h

end ClientConfig

/-- The timeouts that a client can have: the usual one, and what a text or a configuration asks for. -/
inductive Timeout : Duration → Prop
  | usual : Timeout defaultTimeout
  | text {text d} : Duration.parse text = .ok d → Timeout d
  | member {j d} : ClientConfig.timeoutOf j = .ok d → Timeout d

namespace ClientConfig

theorem setOnce_eq_ok {α : Type} {old : Option α} {new : Except ConfigFault α} {r : Option α} :
    setOnce old new = .ok r ↔ old = none ∧ ∃ a, new = .ok a ∧ r = some a := by
  rw [setOnce]
  cases old with
  | none =>
      simp only [Option.isSome_none, Bool.false_eq_true, if_false, true_and]
      rw [Except.map_eq_ok]
      simp only [eq_comm]
  | some a => simp

def Given.Sound (g : Given) : Prop := ∀ d, g.timeout = some d → Timeout d

theorem give_sound {g g' : Given} {m : String × Json} (sound : g.Sound) (h : give g m = .ok g') : g'.Sound := by
  unfold give at h
  split_ifs at h with host port name timeout
  · obtain ⟨_, _, rfl⟩ := Except.map_eq_ok.mp h
    exact sound
  · obtain ⟨_, _, rfl⟩ := Except.map_eq_ok.mp h
    exact sound
  · obtain ⟨_, _, rfl⟩ := Except.map_eq_ok.mp h
    exact sound
  · obtain ⟨_, set, rfl⟩ := Except.map_eq_ok.mp h
    obtain ⟨-, d, read, rfl⟩ := setOnce_eq_ok.mp set
    rintro _ ⟨⟩
    exact .member read
  · cases h
    exact sound

theorem foldlM_give_sound {ms : List (String × Json)} {g g' : Given} (sound : g.Sound)
    (h : ms.foldlM give g = .ok g') : g'.Sound := by
  induction ms generalizing g with
  | nil =>
      cases h
      exact sound
  | cons m ms ih =>
      rw [List.foldlM_cons, Except.bind_eq_ok] at h
      obtain ⟨next, given, h⟩ := h
      exact ih (give_sound sound given) h

theorem timeout_of_draft {draft : Draft} {c : ClientConfig} (h : ofDraft draft = .ok c) :
    Timeout c.endpoint.timeout := by
  unfold ofDraft at h
  split at h
  · cases h
  · next g given =>
    cases h
    have sound := foldlM_give_sound (g := {}) nofun given
    dsimp only
    cases asked : g.timeout with
    | none => exact .usual
    | some d => exact sound d asked

theorem timeout_of_parse {text : String} {c : ClientConfig} (h : parse text = .ok c) :
    Timeout c.endpoint.timeout := by
  unfold parse at h
  split at h
  · simp only [Except.bind_eq_ok] at h
    obtain ⟨⟨draft, rest⟩, -, config, drawn, h⟩ := h
    split at h
    · cases h
      exact timeout_of_draft drawn
    · cases h
  · split at h
    · cases h
    · simp only [Except.bind_eq_ok] at h
      obtain ⟨_, -, h⟩ := h
      cases h

end ClientConfig

namespace Command

theorem orFail_eq_ok {ε α : Type} {f : ε → Failure} {x : Except ε α} {a : α} : orFail f x = .ok a ↔ x = .ok a := by
  cases x <;> simp [orFail]

theorem Target.timeout_of_override {t : Target} {c c' : ClientConfig} (sound : Timeout c.endpoint.timeout)
    (h : t.override c = .ok c') : Timeout c'.endpoint.timeout := by
  unfold override at h
  split at h
  · simp only [Except.bind_eq_ok, orFail_eq_ok] at h
    obtain ⟨d, read, h⟩ := h
    cases h
    exact .text read
  · simp only [Except.bind_eq_ok] at h
    obtain ⟨d, read, h⟩ := h
    cases h
    cases read
    exact sound

/-- A command calls with one of the timeouts of a client, whatever its line and its file say. -/
theorem Target.timeout_of_resolve {t : Target} {path : String} {file : Except Fault String} {c : ClientConfig}
    (h : t.override .default = .ok c ∨ (configOf path file).bind t.override = .ok c) :
    Timeout c.endpoint.timeout := by
  rcases h with h | h
  · exact timeout_of_override .usual h
  · obtain ⟨loaded, taken, h⟩ := Except.bind_eq_ok.mp h
    refine timeout_of_override ?_ h
    cases file with
    | error fault => cases taken
    | ok text => exact ClientConfig.timeout_of_parse (orFail_eq_ok.mp taken)

end Command

/-! ## The deadline of a call -/

namespace Session
open ClientConfig (Seconds)
open Duration (InMillis)

variable {c : Conditions} {s : Session} {link : Link} {method : String} {params : List Packed}
  {timeout : Duration}

/-- Once it is connected, a call comes to something exactly when its deadline can be told. -/
theorem invoke_connected (connected : connected c s = .ok link) : (∃ x, s.invoke c method params timeout = some x) ↔
    ∃ deadline, (c.clock 0).after? timeout = some deadline := by
  rw [invoke, connected]
  cases (c.clock 0).after? timeout <;> simp

theorem exists_invoke (told : timeout.Tellable) (early : (c.clock 0).Early) :
    ∃ x, s.invoke c method params timeout = some x := by
  cases dialed : connected c s with
  | error e => exact ⟨_, by rw [invoke, dialed]⟩
  | ok link => exact (invoke_connected dialed).mpr (told _ early)

/-- A timeout that is not always told leaves some early call over a connection without an outcome. -/
theorem exists_untold (connected : connected c s = .ok link) (untold : ¬timeout.Tellable) :
    ∃ now : Instant, now.Early ∧ s.invoke { c with clock := fun _ => now } method params timeout = none := by
  simp only [Duration.Tellable, not_forall] at untold
  obtain ⟨now, early, none⟩ := untold
  refine ⟨now, early, Option.eq_none_iff_forall_ne_some.mpr fun x outcome => none ?_⟩
  have same : Session.connected { c with clock := fun _ => now } s = .ok link := connected
  exact (invoke_connected same).mp ⟨x, outcome⟩

/-- Which calls can tell their deadline. The timeouts of commands are the usual one and those that a text or a
member of a configuration asks for. One that is asked for in milliseconds is told at every early moment; one in
seconds, from a text or from a number, exactly when it is at most 2 ^ 62 seconds. A call made early with a
timeout that is told has an outcome; with any other timeout there are early calls over an open connection that
have none. -/
theorem deadlines_told (c : Conditions) (s : Session) (method : String) (params : List Packed) (d : Duration) :
    (∀ (t : Command.Target) path file config,
      t.override .default = .ok config ∨ (Command.configOf path file).bind t.override = .ok config →
        Timeout config.endpoint.timeout) ∧
    (∀ text, Duration.parse text = .ok d → ∃ n : UInt64,
      (InMillis text ∧ d = .ofMillis n ∧ d.Tellable) ∨
        (¬InMillis text ∧ d = .ofSeconds n ∧ (d.Tellable ↔ n.toNat ≤ 2 ^ 62))) ∧
    (∀ j, ClientConfig.timeoutOf j = .ok d → ∃ x q, Seconds j x ∧
      x.classify.number? = some (.finite q) ∧ 0 ≤ q ∧ (d.Tellable ↔ q ≤ 2 ^ 62)) ∧
    (d.Tellable → (c.clock 0).Early → ∃ x, s.invoke c method params d = some x) ∧
    ∀ link, connected c s = .ok link → ¬d.Tellable → ∃ now : Instant, now.Early ∧
      s.invoke { c with clock := fun _ => now } method params d = none := by
  refine ⟨fun t path file config => Command.Target.timeout_of_resolve, ?_, ?_, exists_invoke, ?_⟩
  · intro text read
    obtain ⟨n, ⟨millis, rfl⟩ | ⟨other, rfl⟩⟩ := Duration.unit_of_parse read
    · exact ⟨n, .inl ⟨millis, rfl, Duration.ofMillis_tellable n⟩⟩
    · exact ⟨n, .inr ⟨other, rfl, Duration.ofSeconds_tellable n⟩⟩
  · intro j read
    obtain ⟨x, seconds, rounded⟩ := ClientConfig.timeoutOf_eq_ok.mp read
    obtain ⟨q, number, nonneg, told⟩ := Duration.ofBinary64?_tellable rounded
    exact ⟨x, q, seconds, number, nonneg, told⟩
  · intro link connected untold
    exact exists_untold connected untold

/-- The longest timeout in milliseconds, the longest one in seconds that is always told, and the next one, in a
call to a peer that accepts the connection and stays silent. -/
theorem deadlines_told_bounds :
    let c : Conditions := { arrivals := fun _ => ⟨[], .silent⟩ }
    let s : Session := { host := "localhost", port := 7, connectTimeout := .ofSeconds 5 }
    let longest : Duration := .ofMillis 18446744073709551615
    longest.Tellable ∧ (∃ x, s.invoke c "wait" [] longest = some x) ∧
      (Duration.ofSeconds 4611686018427387904).Tellable ∧ ¬(Duration.ofSeconds 4611686018427387905).Tellable ∧
      ∃ now : Instant, now.Early ∧
        s.invoke { c with clock := fun _ => now } "wait" [] (.ofSeconds 4611686018427387905) = none := by
  intro c s longest
  have law := deadlines_told c s "wait" []
  have seconds (n : UInt64) (text : String) (read : Duration.parse text = .ok (.ofSeconds n))
      (other : ¬InMillis text) : (Duration.ofSeconds n).Tellable ↔ n.toNat ≤ 2 ^ 62 := by
    obtain ⟨-, texts, -⟩ := law (.ofSeconds n)
    obtain ⟨m, ⟨millis, -⟩ | ⟨-, same, told⟩⟩ := texts _ read
    · exact absurd millis other
    · rw [told]
      have nanos := congrArg Duration.nanos same
      simp only [Duration.ofSeconds, nanosPerSecond] at nanos
      omega
  have told : longest.Tellable := by
    obtain ⟨-, texts, -⟩ := law longest
    obtain ⟨n, ⟨-, -, told⟩ | ⟨other, -⟩⟩ := texts "18446744073709551615ms" (by rfl)
    · exact told
    · exact absurd (by decide +kernel) other
  have untold : ¬(Duration.ofSeconds 4611686018427387905).Tellable := by
    have bound := seconds 4611686018427387905 "4611686018427387905s" (by rfl) (by decide +kernel)
    exact fun told => absurd (bound.mp told) (by decide)
  obtain ⟨-, -, -, outcome, -⟩ := law longest
  obtain ⟨-, -, -, -, none⟩ := law (.ofSeconds 4611686018427387905)
  refine ⟨told, outcome told ⟨by decide, by decide⟩, ?_, untold, none _ rfl untold⟩
  exact (seconds 4611686018427387904 "4611686018427387904" (by rfl) (by decide +kernel)).mpr (by decide)

/-- A timeout that the command line takes and that no clock can add, at its very beginning: the command has no
outcome, although the server is there. -/
theorem deadline_untold :
    let timeout : Duration := .ofSeconds 18446744073709551615
    Duration.parse "18446744073709551615" = .ok timeout ∧ Instant.Early ⟨0⟩ ∧
      Instant.after? ⟨0⟩ timeout = none ∧
      (Loopback.World.run (m := Id) (fun _ => none) (Loopback.fileIn [])
        ["--timeout", "18446744073709551615", "--port", "49152", "kvs", "average"]
        (Loopback.Serving.world Kvs.server (.new "kvs"))).run.isNone = true :=
  ⟨by rfl, ⟨by decide, by decide⟩, by decide, by decide +kernel⟩

end Session

end PackRpc
