import PackRpc.Proofs.Client.Line
import PackRpc.Proofs.Value.Equality

namespace PackRpc

/-- One use of a transport. -/
structure Invocation where
  method : String
  params : List Packed
  timeout : Duration

/-- A transport that also writes down how it is used. -/
def recorded {σ : Type} (invoke : Invoke (StateM σ)) : Invoke (StateM (List Invocation × σ)) :=
  fun method params timeout (record, state) =>
    let (reply, state) := invoke method params timeout state
    (reply, record ++ [⟨method, params, timeout⟩], state)

/-- What a call makes of the reply to its invocation. -/
inductive Concludes (method : String) (result : Descriptor) :
    Except InvokeError Packed → Except CallError Value → Prop
  | decoded {w v} : result.decode w = .ok v → Concludes method result (.ok w) (.ok v)
  | undecoded {w e} : result.decode w = .error e →
      Concludes method result (.ok w) (.error (.decode method result e))
  | remote (payload) : Concludes method result (.error (.remote payload)) (.error (.remote ⟨method, payload⟩))
  | transport (error) : Concludes method result (.error (.transport error)) (.error (.transport method error))
  | tooLarge (size max) :
      Concludes method result (.error (.tooLarge size max)) (.error (.requestTooLarge method size max))

theorem outcome_concludes (method : String) (result : Descriptor) (reply : Except InvokeError Packed) :
    Concludes method result reply (Client.outcome method result reply) := by
  cases reply with
  | error e =>
      cases e with
      | transport error => exact .transport error
      | remote payload => exact .remote payload
      | tooLarge size max => exact .tooLarge size max
  | ok w =>
      rw [Client.outcome]
      cases decoded : result.decode w with
      | error e => exact .undecoded decoded
      | ok v => exact .decoded decoded

/-- The error of a call names its method, and it may be tried again if the transport failed. -/
theorem Concludes.error {method : String} {result : Descriptor} {reply : Except InvokeError Packed}
    {e : CallError} (h : Concludes method result reply (.error e)) :
    e.method = method ∧ (e.isRetryable = true ↔ ∃ error, reply = .error (.transport error)) := by
  cases h with
  | undecoded | remote | tooLarge => exact ⟨rfl, nofun, nofun⟩
  | transport error => exact ⟨rfl, fun _ => ⟨error, rfl⟩, fun _ => rfl⟩

structure Misfit (args : List Value) (types : List Descriptor) (i : Nat) (type : Descriptor)
    (error : EncodeError) : Prop where
  typed : types[i]? = some type
  refused : ∃ arg, args[i]? = some arg ∧ type.encode arg = .error error

structure FirstMisfit (args : List Value) (types : List Descriptor) (i : Nat) (type : Descriptor)
    (error : EncodeError) : Prop extends Misfit args types i type error where
  earlier : ∀ j < i, ∀ type error, ¬ Misfit args types j type error

section
variable {method : String} {arg : Value} {args : List Value} {type : Descriptor} {types : List Descriptor}
  {i : Nat} {d : Descriptor} {e : EncodeError} {w : Packed} {ws : List Packed}

theorem misfit_zero : Misfit (arg :: args) (type :: types) 0 d e ↔ type = d ∧ type.encode arg = .error e := by
  constructor
  · rintro ⟨⟨⟩, _, ⟨⟩, refused⟩
    exact ⟨rfl, refused⟩
  · rintro ⟨rfl, refused⟩
    exact ⟨rfl, arg, rfl, refused⟩

theorem misfit_succ : Misfit (arg :: args) (type :: types) (i + 1) d e ↔ Misfit args types i d e :=
  ⟨fun ⟨typed, refused⟩ => ⟨typed, refused⟩, fun ⟨typed, refused⟩ => ⟨typed, refused⟩⟩

theorem FirstMisfit.cons (fits : type.encode arg = .ok w) (h : FirstMisfit args types i d e) :
    FirstMisfit (arg :: args) (type :: types) (i + 1) d e where
  toMisfit := misfit_succ.mpr h.toMisfit
  earlier := by
    intro j before d e misfit
    cases j with
    | zero =>
        obtain ⟨-, refused⟩ := misfit_zero.mp misfit
        rw [fits] at refused
        cases refused
    | succ j => exact h.earlier j (Nat.lt_of_succ_lt_succ before) d e (misfit_succ.mp misfit)

theorem FirstMisfit.of_cons (h : FirstMisfit (arg :: args) (type :: types) (i + 1) d e) :
    (∃ w, type.encode arg = .ok w) ∧ FirstMisfit args types i d e := by
  constructor
  · cases encoded : type.encode arg with
    | ok w => exact ⟨w, rfl⟩
    | error e => exact absurd (misfit_zero.mpr ⟨rfl, encoded⟩) (h.earlier 0 (Nat.succ_pos i) type e)
  · exact ⟨misfit_succ.mp h.toMisfit, fun j before d e misfit =>
      h.earlier (j + 1) (Nat.succ_lt_succ before) d e (misfit_succ.mpr misfit)⟩

/-- The arguments can be encoded, or one of them is the first that cannot. -/
theorem encodes_or_misfit (arity : args.length = types.length) :
    (∃ ws, List.Forall₂ (fun (arg : Value × Descriptor) w => arg.2.encode arg.1 = .ok w) (args.zip types) ws) ∨
      ∃ i d e, FirstMisfit args types i d e := by
  induction args generalizing types with
  | nil => exact .inl ⟨[], .nil⟩
  | cons arg args ih =>
      cases types with
      | nil => cases arity
      | cons type types =>
          cases encoded : type.encode arg with
          | error e =>
              exact .inr ⟨0, type, e, misfit_zero.mpr ⟨rfl, encoded⟩, fun j before => absurd before (Nat.not_lt_zero j)⟩
          | ok w =>
              rcases ih (Nat.succ.inj arity) with ⟨ws, others⟩ | ⟨i, d, e, first⟩
              · exact .inl ⟨w :: ws, .cons encoded others⟩
              · exact .inr ⟨i + 1, d, e, first.cons encoded⟩

theorem not_misfit (each : List.Forall₂ (fun (arg : Value × Descriptor) w => arg.2.encode arg.1 = .ok w)
    (args.zip types) ws) : ¬ Misfit args types i d e := by
  rintro ⟨typed, arg, given, refused⟩
  have member : (arg, d) ∈ args.zip types :=
    List.mem_of_getElem? (List.getElem?_zip_eq_some.mpr ⟨given, typed⟩)
  obtain ⟨w, -, encoded⟩ := exists_of_forall₂ each _ member
  rw [refused] at encoded
  cases encoded

theorem Misfit.exists_cons (h : Misfit args types i d e) :
    ∃ arg others type more, args = arg :: others ∧ types = type :: more := by
  obtain ⟨typed, arg, given, -⟩ := h
  cases args with
  | nil => cases given
  | cons arg others =>
      cases types with
      | nil => cases typed
      | cons type more => exact ⟨arg, others, type, more, rfl, rfl⟩

theorem FirstMisfit.encodeArguments (h : FirstMisfit args types i d e) (start : Nat) :
    Client.encodeArguments method start args types = .error (.encode method (start + i) d e) := by
  induction i generalizing args types start with
  | zero =>
      obtain ⟨arg, args, type, types, rfl, rfl⟩ := h.exists_cons
      obtain ⟨rfl, refused⟩ := misfit_zero.mp h.toMisfit
      rw [Client.encodeArguments, refused]
      rfl
  | succ i ih =>
      obtain ⟨arg, args, type, types, rfl, rfl⟩ := h.exists_cons
      obtain ⟨⟨w, encoded⟩, first⟩ := h.of_cons
      rw [Client.encodeArguments, encoded, Nat.add_comm i 1, ← Nat.add_assoc]
      simp only [ih first (start + 1)]

end

namespace Client

variable {σ : Type} {c : Client} {invoke : Invoke (StateM σ)} {call : Call} {s : σ}

/-- A call on a transport that has not been used yet, and the record of what it did. -/
def trial (c : Client) (invoke : Invoke (StateM σ)) (call : Call) (s : σ) :
    Except CallError Value × List Invocation × σ :=
  c.call (recorded invoke) call.method call.args call.types call.result ([], s)

theorem trial_refused {e : CallError} (refused : c.parameters call.method call.args call.types = .error e) :
    c.trial invoke call s = (.error e, [], s) := by
  rw [trial, Client.call, refused]
  rfl

theorem trial_misfit {i : Nat} {type : Descriptor} {error : EncodeError}
    (arity : call.args.length = call.types.length) (first : FirstMisfit call.args call.types i type error) :
    c.trial invoke call s = (.error (.encode call.method i type error), [], s) := by
  refine trial_refused ?_
  rw [parameters, if_neg (not_not_intro arity), first.encodeArguments, Nat.zero_add]
  rfl

theorem trial_sent {ws : List Packed} (encodes : call.Encodes ws) :
    c.trial invoke call s =
      let params := .str c.endpoint.name :: ws
      let sent := invoke call.method params c.endpoint.timeout s
      (outcome call.method call.result sent.1, [⟨call.method, params, c.endpoint.timeout⟩], sent.2) := by
  rw [trial, Client.call, encodes.parameters c]
  rfl

theorem trial_sent_error {ws : List Packed} (encodes : call.Encodes ws) {e : CallError}
    (failed : (c.trial invoke call s).1 = .error e) :
    e.method = call.method ∧ (e.isRetryable = true ↔ ∃ params timeout error,
      (c.trial invoke call s).2.1 = [⟨call.method, params, timeout⟩] ∧
        (invoke call.method params timeout s).1 = .error (.transport error)) := by
  rw [trial_sent encodes] at failed ⊢
  have concludes := outcome_concludes call.method call.result
    (invoke call.method (.str c.endpoint.name :: ws) c.endpoint.timeout s).1
  rw [show outcome _ _ _ = _ from failed] at concludes
  obtain ⟨named, retryable⟩ := concludes.error
  refine ⟨named, retryable.trans ⟨fun ⟨error, lost⟩ => ⟨_, _, error, rfl, lost⟩, ?_⟩⟩
  rintro ⟨params, timeout, error, ⟨⟩, lost⟩
  exact ⟨error, lost⟩

end Client

/-- The contract of a call, on any transport in any state. If there are not as many arguments as types, or an
argument does not fit its type, the call says so, names the first argument at fault, and leaves the transport
alone; otherwise it invokes the transport once, with the service name and the encoded arguments, and makes
its result of the reply. So it invokes it at most once, and not at all in just those two cases. Every
error names the method, and the call may be tried again if and only if the transport failed. -/
theorem Client.call_contract {σ : Type} (c : Client) (invoke : Invoke (StateM σ)) (call : Call) (s : σ) :
    let out := c.trial invoke call s
    (call.args.length ≠ call.types.length →
      out = (.error (.invalidCall call.method call.types.length call.args.length), [], s)) ∧
    (∀ i type error, call.args.length = call.types.length → FirstMisfit call.args call.types i type error →
      out = (.error (.encode call.method i type error), [], s)) ∧
    (∀ ws, call.Encodes ws →
      let params := .str c.endpoint.name :: ws
      let sent := invoke call.method params c.endpoint.timeout s
      Concludes call.method call.result sent.1 out.1 ∧
        out.2 = ([⟨call.method, params, c.endpoint.timeout⟩], sent.2)) ∧
    out.2.1.length ≤ 1 ∧
    (out.2.1 = [] ↔ call.args.length ≠ call.types.length ∨
      ∃ i type error, Misfit call.args call.types i type error) ∧
    ∀ e, out.1 = .error e → e.method = call.method ∧
      (e.isRetryable = true ↔ ∃ params timeout error, out.2.1 = [⟨call.method, params, timeout⟩] ∧
        (invoke call.method params timeout s).1 = .error (.transport error)) := by
  intro out
  have uneven (arity : call.args.length ≠ call.types.length) :
      out = (.error (.invalidCall call.method call.types.length call.args.length), [], s) :=
    trial_refused (if_pos arity)
  refine ⟨uneven, fun i type error => trial_misfit, fun ws encodes => ?_, ?_⟩
  · rw [show out = _ from trial_sent encodes]
    exact ⟨outcome_concludes _ _ _, rfl⟩
  by_cases arity : call.args.length = call.types.length
  · rcases encodes_or_misfit arity with ⟨ws, each⟩ | ⟨i, type, error, first⟩
    · have encodes : call.Encodes ws := ⟨arity, each⟩
      have once : out.2.1.length = 1 := by rw [show out = _ from trial_sent encodes]; rfl
      have fits : ¬ (call.args.length ≠ call.types.length ∨
          ∃ i type error, Misfit call.args call.types i type error) := by
        rintro (different | ⟨i, type, error, misfit⟩)
        · exact absurd arity different
        · exact absurd misfit (not_misfit each)
      refine ⟨once.le, iff_of_false (fun unused => ?_) fits, fun e => trial_sent_error encodes⟩
      rw [unused] at once
      cases once
    · rw [show out = _ from trial_misfit arity first]
      refine ⟨Nat.zero_le 1, ⟨fun _ => .inr ⟨i, type, error, first.toMisfit⟩, fun _ => rfl⟩, ?_⟩
      rintro e ⟨⟩
      exact ⟨rfl, nofun, nofun⟩
  · rw [uneven arity]
    refine ⟨Nat.zero_le 1, ⟨fun _ => .inl arity, fun _ => rfl⟩, ?_⟩
    rintro e ⟨⟩
    exact ⟨rfl, nofun, nofun⟩

/-- A transport that fails the first time and answers with the number of parameters afterwards. -/
def flaky : Invoke (StateM Nat) := fun _ params _ n =>
  (if n = 0 then .error (.transport .disconnected) else .ok (.ofNat params.length), n + 1)

/-- Two calls whose arguments are at fault, one that meets the failure and one that is answered. -/
theorem Client.call_contract_flaky :
    let c : Client := ⟨{ name := "kv" }, true⟩
    let uneven : Call := ⟨"f", [.nil], [], .unit⟩
    let misfit : Call := ⟨"f", [.int 1, .string "x", .nil], [.int true .w8, .bool, .bool], .unit⟩
    let sound : Call := ⟨"f", [.int 1], [.int true .w8], .int false .w8⟩
    let mismatch : EncodeError := .here (.typeMismatch .bool .string)
    c.trial flaky uneven 0 = (.error (.invalidCall "f" 0 1), [], 0) ∧
      c.trial flaky misfit 0 = (.error (.encode "f" 1 .bool mismatch), [], 0) ∧
      (∃ e, c.trial flaky sound 0 = (.error e, [⟨"f", [.str "kv", .ofInt 1], defaultTimeout⟩], 1) ∧
        e.method = "f" ∧ e.isRetryable = true) ∧
      c.trial flaky sound 1 = (.ok (.uint 2), [⟨"f", [.str "kv", .ofInt 1], defaultTimeout⟩], 2) := by
  intro c uneven misfit sound mismatch
  have first : FirstMisfit misfit.args misfit.types 1 .bool mismatch := by
    refine ⟨⟨rfl, .string "x", rfl, rfl⟩, ?_⟩
    rintro j before d e ⟨typed, arg, given, refused⟩
    obtain rfl : j = 0 := Nat.lt_one_iff.mp before
    cases typed
    cases given
    cases refused
  have encodes : sound.Encodes [.ofInt 1] := ⟨rfl, .cons rfl .nil⟩
  obtain ⟨refused, -⟩ := call_contract c flaky uneven 0
  obtain ⟨-, misfits, -⟩ := call_contract c flaky misfit 0
  obtain ⟨-, -, lost, -, -, errors⟩ := call_contract c flaky sound 0
  obtain ⟨-, -, answered, -⟩ := call_contract c flaky sound 1
  refine ⟨refused (by decide), misfits 1 .bool mismatch rfl first, ?_, ?_⟩
  · obtain ⟨concludes, used⟩ := lost _ encodes
    cases replied : (c.trial flaky sound 0).1 with
    | ok v =>
        rw [replied] at concludes
        cases concludes
    | error e =>
        obtain ⟨named, retryable⟩ := errors e replied
        have once := congrArg Prod.fst used
        exact ⟨e, Prod.ext replied used, named, retryable.mpr ⟨_, _, .disconnected, once, rfl⟩⟩
  · obtain ⟨-, used⟩ := answered _ encodes
    exact Prod.ext rfl used

end PackRpc
