import PackRpc.Client.Basic
import PackRpc.Proofs.Static.Acceptance

namespace PackRpc

/-- How something ended, whatever it gave. -/
def verdict {ε α : Type} (r : Except ε α) : Except ε Unit := r.map fun _ => ()

namespace StaticType

variable {t : StaticType} {w : Packed} {x : StaticValue} {e : DecodeError}

theorem decode_eq_ok : t.decode w = .ok x ↔ ∃ v, t.descriptor.decode w = .ok v ∧ t.ofValue v = .ok x := by
  unfold decode
  cases t.descriptor.decode w <;> simp

theorem decode_eq_error : t.decode w = .error e ↔ t.descriptor.decode w = .error e := by
  unfold decode
  cases decoded : t.descriptor.decode w with
  | error refusal => simp only [Except.error.injEq]
  | ok v =>
      obtain ⟨x, taken, -⟩ := accepts t w v decoded
      simp [taken]

theorem has_of_decode (h : t.decode w = .ok x) : t.has x = true := by
  obtain ⟨v, decoded, taken⟩ := decode_eq_ok.mp h
  obtain ⟨y, same, takes⟩ := accepts t w v decoded
  rw [taken] at same
  cases same
  exact takes.typed

/-- What was read can be written. -/
theorem encode_of_decode (h : t.decode w = .ok x) : ∃ again, t.encode x = .ok again := by
  obtain ⟨again, encoded, -⟩ := carries t x (has_of_decode h)
  exact ⟨again, encoded⟩

end StaticType

namespace Client

/-- Taking a result into its type changes nothing about the failures of a call. -/
theorem verdict_asStatic (method : String) (t : StaticType) (reply : Except InvokeError Packed) :
    verdict (asStatic method t (outcome method t.descriptor reply)) =
      verdict (outcome method t.descriptor reply) := by
  cases reply with
  | error e => rfl
  | ok w =>
      cases decoded : t.descriptor.decode w with
      | error e => simp only [outcome, decoded, asStatic, verdict, Except.map]
      | ok v =>
          obtain ⟨x, taken, -⟩ := t.accepts w v decoded
          simp only [outcome, decoded, asStatic, taken, verdict, Except.map]

theorem verdict_callAs {m : Type → Type} [Monad m] [LawfulMonad m] (c : Client) (invoke : Invoke m)
    (method : String) (args : List Value) (types : List Descriptor) (t : StaticType) :
    verdict <$> c.callAs invoke method args types t =
      verdict <$> c.call invoke method args types t.descriptor := by
  unfold callAs call
  cases c.parameters method args types with
  | error e => simp only [pure_bind, map_pure, asStatic, verdict, Except.map]
  | ok params =>
      simp only [bind_assoc, pure_bind, map_bind, map_pure]
      congr 1
      funext reply
      rw [verdict_asStatic]

end Client

/-- The second stage of reading into a type never fails: what the descriptor has decoded is taken for a value
of the type, so that the type accepts what its descriptor accepts and refuses the rest with the same error;
what was taken can be encoded again. In any monad a call with a static result fails where the call by descriptor fails, and
nowhere else. -/
theorem StaticType.decode_as_descriptor (t : StaticType) :
    (∀ w, (∀ v, t.descriptor.decode w = .ok v → ∃ x, t.ofValue v = .ok x ∧ t.has x = true) ∧
      ((∃ x, t.decode w = .ok x) ↔ ∃ v, t.descriptor.decode w = .ok v) ∧
      (∀ e, t.decode w = .error e ↔ t.descriptor.decode w = .error e) ∧
      ∀ x, t.decode w = .ok x → t.has x = true ∧ ∃ again, t.encode x = .ok again) ∧
    ∀ (m : Type → Type) [Monad m] [LawfulMonad m] (c : Client) (invoke : Invoke m) (method : String)
      (args : List Value) (types : List Descriptor),
      verdict <$> c.callAs invoke method args types t =
        verdict <$> c.call invoke method args types t.descriptor := by
  constructor
  · intro w
    have takes : ∀ v, t.descriptor.decode w = .ok v → ∃ x, t.ofValue v = .ok x ∧ t.has x = true := by
      intro v decoded
      obtain ⟨x, taken, takes⟩ := t.accepts w v decoded
      exact ⟨x, taken, takes.typed⟩
    refine ⟨takes, ⟨?_, ?_⟩, fun e => decode_eq_error,
      fun x read => ⟨has_of_decode read, encode_of_decode read⟩⟩
    · rintro ⟨x, read⟩
      obtain ⟨v, decoded, -⟩ := decode_eq_ok.mp read
      exact ⟨v, decoded⟩
    · rintro ⟨v, decoded⟩
      obtain ⟨x, taken, -⟩ := takes v decoded
      exact ⟨x, decode_eq_ok.mpr ⟨v, decoded, taken⟩⟩
  · intro m _ _ c invoke method args types
    exact c.verdict_callAs invoke method args types t

/-- Wherever the descriptor is lenient: a float of the other width, text as bytes and bytes as text, a key
twice, something in the place of a unit. -/
theorem StaticType.decode_as_descriptor_lenient :
    let t : StaticType := .record "sample" [("ratio", .float32), ("any", .value),
      ("marks", .hashMap .text (.option .unit)), ("parts", .tuple [.int false .w8, .list .bytes])]
    let w : Packed := .array [.float64 ⟨0x3ff8000000000000⟩, .ext 5 [0x01],
      .map [(.bin [0x61], .bool true), (.str "a", .nil)], .array [.ofNat 255, .array [.str "é", .bin []]]]
    let client : Client := ⟨{ name := "kv" }, true⟩
    let invoke : Invoke Id := fun _ _ _ => .ok w
    (∃ v, t.descriptor.decode w = .ok v) ∧
      (∃ x, t.decode w = .ok x ∧ t.has x = true ∧ ∃ again, t.encode x = .ok again) ∧
      verdict (client.callAs (m := Id) invoke "sample" [] [] t) = .ok () := by
  intro t w client invoke
  have decoded : ∃ v, t.descriptor.decode w = .ok v := ⟨_, rfl⟩
  obtain ⟨each, calls⟩ := decode_as_descriptor t
  obtain ⟨-, accepted, -, good⟩ := each w
  obtain ⟨x, read⟩ := accepted.mpr decoded
  have call := calls Id client invoke "sample" [] []
  refine ⟨decoded, ⟨x, read, good x read⟩, ?_⟩
  exact call.trans rfl

end PackRpc
