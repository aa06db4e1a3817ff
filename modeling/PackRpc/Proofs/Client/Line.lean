import PackRpc.Client.Basic
import PackRpc.Proofs.Server.Connection
import PackRpc.Proofs.Transport.Session
import Mathlib.Data.List.Forall2
/-!
# Calls from end to end

A line is a session with the server at the other end of its connection. The bytes of each direction arrive
in order but in any pieces, writes take as much as they like, and reads may be interrupted or, at the
server, take too long. None of this shows: a run of calls gives what the methods give when they are run one
after another.
-/
namespace PackRpc

/-- What happens to one call on its way. -/
structure Delivery where
  /-- What the clock of the client shows. -/
  clock : Nat → Instant
  requestWrites : List WriteEvent := []
  requestFlushes : List (Option Fault) := []
  /-- How the bytes of a request arrive at the server. -/
  request : Bytes → List ReadEvent
  answerWrites : List WriteEvent := []
  answerFlushes : List (Option Fault) := []
  /-- How the bytes of an answer arrive at the client. -/
  answer : Bytes → List ReadEvent

/-- A delivery that loses nothing and is in time. -/
structure Delivery.Reliable (d : Delivery) (timeout : Duration) : Prop where
  requestSink : Sink.Reliable { writes := d.requestWrites, flushes := d.requestFlushes }
  answerSink : Sink.Reliable { writes := d.answerWrites, flushes := d.answerFlushes }
  request_payload : ∀ bytes, Source.payload (d.request bytes) = bytes
  request_sound : ∀ bytes, Source.Sound Connection.Tolerated (d.request bytes)
  answer_payload : ∀ bytes, Source.payload (d.answer bytes) = bytes
  answer_sound : ∀ bytes, Source.Sound Session.Interrupted (d.answer bytes)
  timely : ∃ deadline, (d.clock 0).after? timeout = some deadline ∧
    ∀ n, Session.expired timeout deadline (d.clock n) = false

/-- A session, and the server at the other end of its connection. -/
structure Line (σ : Type) where
  session : Session
  /-- The limits of the server. -/
  limits : Limits
  connection : Connection
  state : σ

structure Call where
  method : String
  args : List Value
  types : List Descriptor
  result : Descriptor

namespace Line

variable {σ : Type} (server : Server σ)

def start (session : Session) (limits : Limits) (state : σ) : Line σ :=
  ⟨session.disconnect, limits, .new limits, state⟩

/-- The connection at the server during the next call: a new one if the session has none. -/
def reached (l : Line σ) : Connection :=
  if l.session.isConnected then l.connection else .new l.limits

/-- The server after it has taken what a call sent. -/
def serve (d : Delivery) (l : Line σ) (sent : Bytes) : Connection × σ :=
  let sink : Sink := { writes := d.answerWrites, flushes := d.answerFlushes }
  Connection.serve server { l.reached with sink } l.state ⟨d.request sent, .silent⟩

def conditions (d : Delivery) (l : Line σ) : Conditions where
  clock := d.clock
  writes := d.requestWrites
  flushes := d.requestFlushes
  arrivals sent :=
    let c := (l.serve server d sent).1
    ⟨d.answer c.sink.taken, if c.isOpen then .silent else .closed⟩

def invoke (d : Delivery) : Invoke (StateT (Line σ) Option) := fun method params timeout l =>
  match l.session.invoke (l.conditions server d) method params timeout with
  | none => none
  | some x =>
    let (connection, state) := l.serve server d x.sent
    some (x.outcome, { l with session := x.session, connection, state })

def run (client : Client) :
    List (Call × Delivery) → StateT (Line σ) Option (List (Except CallError Value))
  | [] => pure []
  | (call, d) :: calls => do
    let outcome ← client.call (invoke server d) call.method call.args call.types call.result
    let outcomes ← run client calls
    return outcome :: outcomes

end Line

structure Call.Encodes (call : Call) (ws : List Packed) : Prop where
  arity : call.args.length = call.types.length
  each : List.Forall₂ (fun (arg : Value × Descriptor) w => arg.2.encode arg.1 = .ok w)
    (call.args.zip call.types) ws

def Call.outcome (call : Call) : Except Packed Packed → Except CallError Value
  | .ok w =>
    match call.result.decode w with
    | .ok v => .ok v
    | .error e => .error (.decode call.method call.result e)
  | .error w => .error (.remote ⟨call.method, w⟩)

/-- What is asked of a server, and what its method gives. -/
structure Turn where
  request : Request
  outcome : Except Packed Packed

/-- The turns that calls come to when their methods are run one after another, each on the state that the
ones before it left. -/
inductive Turns {σ : Type} (server : Server σ) (service : String) :
    UInt32 → σ → List Call → List Turn → σ → Prop
  | nil {id state} : Turns server service id state [] [] state
  | cons {id state call ws outcome after calls turns final} : call.Encodes ws →
      server.dispatch call.method (.str service :: ws) state = (outcome, after) →
      Turns server service (id + 1) after calls turns final →
      Turns server service id state (call :: calls)
        (⟨⟨id, call.method, .str service :: ws⟩, outcome⟩ :: turns) final

/-- Both messages of the turn are within the limits of both sides, and an error is not nil. -/
structure Turn.Carried (near far : Limits) (t : Turn) : Prop where
  request_near : (Message.request t.request.id t.request.method t.request.params).Within near
  request_far : (Message.request t.request.id t.request.method t.request.params).Within far
  answer_near : (Message.ofOutcome t.request.id t.outcome).Within near
  answer_far : (Message.ofOutcome t.request.id t.outcome).Within far
  full : ∀ w, t.outcome = .error w → w.isNil = false

theorem encodeArguments_eq_ok {method : String} {values : List Value} {types : List Descriptor}
    {ws : List Packed} (arity : values.length = types.length)
    (each : List.Forall₂ (fun (arg : Value × Descriptor) w => arg.2.encode arg.1 = .ok w)
      (values.zip types) ws) (i : Nat) :
    Client.encodeArguments method i values types = .ok ws := by
  induction values generalizing types ws i with
  | nil =>
      cases types with
      | nil =>
          cases each
          rfl
      | cons type types => cases arity
  | cons value values ih =>
      cases types with
      | nil => cases arity
      | cons type types =>
          cases each with
          | cons first others =>
              rw [Client.encodeArguments, first, ih (Nat.succ.inj arity) others]

/-- The parameters of a call are the service name and its encoded arguments. -/
theorem Call.Encodes.parameters {call : Call} {ws : List Packed} (h : call.Encodes ws) (client : Client) :
    client.parameters call.method call.args call.types = .ok (.str client.endpoint.name :: ws) := by
  rw [Client.parameters, if_neg (not_not_intro h.arity), encodeArguments_eq_ok h.arity h.each]
  rfl

theorem Call.outcome_seen (call : Call) (outcome : Except Packed Packed) :
    Client.outcome call.method call.result (Session.seen outcome) = call.outcome outcome := by
  cases outcome <;> rfl

namespace Line

variable {σ : Type} {server : Server σ} {l : Line σ}

def link (l : Line σ) : Link := l.session.link.getD ⟨.new l.session.limits, []⟩

/-- No call is under way: nothing is left over on either side. -/
structure Ready (l : Line σ) : Prop where
  near : StreamReader.Holds Session.Interrupted l.session.limits l.link.reader l.link.incoming []
  far : StreamReader.Holds Connection.Tolerated l.limits l.reached.reader [] []
  isOpen : l.reached.isOpen = true

theorem new_holds (soft : Fault → Prop) (limits : Limits) :
    StreamReader.Holds soft limits (.new limits) [] [] :=
  ⟨rfl, Buffer.ofBytes_resumable limits [], .nil, rfl⟩

theorem start_ready (session : Session) (limits : Limits) (state : σ) :
    (start session limits state).Ready :=
  ⟨new_holds _ _, new_holds _ _, rfl⟩

theorem connected_eq (d : Delivery) (l : Line σ) :
    Session.connected (l.conditions server d) l.session = .ok l.link := by
  unfold Session.connected link
  cases l.session.link <;> rfl

section
variable {d : Delivery} {timeout : Duration} {method : String} {params : List Packed}
  {outcome : Except Packed Packed} {after : σ}

theorem serve_turn (ready : l.Ready) (reliable : d.Reliable timeout) {id : UInt32}
    {request answer : Bytes} (accepted : Packed.ofBytes l.limits request =
      .ok (Message.request id method params).toPacked)
    (small : request.length ≤ l.limits.maxSize)
    (dispatched : server.dispatch method params l.state = (outcome, after))
    (encoded : (Message.ofOutcome id outcome).toPacked.toBytes = .ok answer)
    (sendable : answer.length ≤ l.limits.maxSize) :
    ∃ reader sink, StreamReader.Holds Connection.Tolerated l.limits reader [] [] ∧ sink.taken = answer ∧
      l.serve server d request =
        ({ reader, sink, isOpen := true, requests := ⟨id, method, params⟩ :: l.reached.requests },
          after) := by
  have holds : StreamReader.Holds Connection.Tolerated l.limits l.reached.reader (d.request request)
      request := by
    refine ⟨ready.far.limits_eq, ready.far.resumable, reliable.request_sound request, ?_⟩
    rw [ready.far.empty.1, List.nil_append, reliable.request_payload]
  obtain ⟨reader, sink, clean, taken, run⟩ := Connection.serve_request
    (c := { l.reached with sink := { writes := d.answerWrites, flushes := d.answerFlushes } })
    ready.isOpen holds accepted small reliable.answerSink dispatched encoded sendable
  exact ⟨reader, sink, clean, by rw [taken, List.nil_append], run⟩

/-- One call takes its turn, and leaves the line ready for the next. -/
theorem invoke_turn (ready : l.Ready) (reliable : d.Reliable timeout)
    (dispatched : server.dispatch method params l.state = (outcome, after))
    (carried : Turn.Carried l.session.limits l.limits ⟨⟨l.session.nextId, method, params⟩, outcome⟩) :
    ∃ next : Line σ, invoke server d method params timeout l = some (Session.seen outcome, next) ∧
      next.Ready ∧ next.session.isConnected = true ∧ next.session.limits = l.session.limits ∧
      next.session.nextId = l.session.nextId + 1 ∧ next.limits = l.limits ∧ next.state = after ∧
      next.connection.requests = ⟨l.session.nextId, method, params⟩ :: l.reached.requests := by
  obtain ⟨request, encoded, sendable⟩ := carried.request_near.encoded
  obtain ⟨answer, answered, fits⟩ := carried.answer_far.encoded
  obtain ⟨received, request_accepted⟩ := carried.request_far.accepted encoded
  obtain ⟨returned, answer_accepted⟩ := carried.answer_near.accepted answered
  obtain ⟨deadline, started, timely⟩ := reliable.timely
  obtain ⟨reader, sink, clean, taken, served⟩ :=
    serve_turn ready reliable request_accepted received dispatched answered fits
  have arrivals : ((l.conditions server d).arrivals request).events = d.answer answer := by
    simp only [conditions, served, taken]
  have payload : Source.payload ((l.conditions server d).arrivals request).events = answer := by
    rw [arrivals, reliable.answer_payload]
  obtain ⟨link, idle, invoked⟩ := Session.invoke_answered (connected_eq d l) ready.near started timely
    reliable.requestSink encoded sendable (by rw [arrivals]; exact reliable.answer_sound answer)
    (by rw [payload]; exact answer_accepted) (by rw [payload]; exact returned) carried.full
  let session := { l.session with nextId := l.session.nextId + 1, link := some link }
  let connection : Connection :=
    { reader, sink, isOpen := true, requests := ⟨l.session.nextId, method, params⟩ :: l.reached.requests }
  refine ⟨⟨session, l.limits, connection, after⟩, ?_, ⟨idle, clean, rfl⟩, rfl, rfl, rfl, rfl, rfl, rfl⟩
  simp only [invoke, invoked, served, session, connection]

end

theorem call_eq {client : Client} {d : Delivery} {call : Call} {ws : List Packed}
    {outcome : Except Packed Packed} {next : Line σ} (encodes : call.Encodes ws)
    (invoked : invoke server d call.method (.str client.endpoint.name :: ws) client.endpoint.timeout l =
      some (Session.seen outcome, next)) :
    client.call (invoke server d) call.method call.args call.types call.result l =
      some (call.outcome outcome, next) := by
  rw [Client.call, encodes.parameters client, ← call.outcome_seen]
  simp only [bind, StateT.bind, invoked]
  rfl

theorem run_turns {client : Client} {calls : List (Call × Delivery)} {turns : List Turn} {final : σ}
    (ready : l.Ready)
    (reference : Turns server client.endpoint.name l.session.nextId l.state (calls.map Prod.fst) turns final)
    (carried : ∀ t ∈ turns, t.Carried l.session.limits l.limits)
    (reliable : ∀ e ∈ calls, e.2.Reliable client.endpoint.timeout) :
    ∃ last : Line σ, run server client calls l =
        some (List.zipWith (fun e t => e.1.outcome t.outcome) calls turns, last) ∧
      last.Ready ∧ last.state = final ∧
      last.reached.requests = (turns.map Turn.request).reverse ++ l.reached.requests ∧
      (calls ≠ [] ∨ l.session.isConnected = true → last.session.isConnected = true) := by
  induction calls generalizing l turns with
  | nil =>
      cases reference
      exact ⟨l, rfl, ready, rfl, rfl, fun h => h.resolve_left fun no => no rfl⟩
  | cons e calls ih =>
      obtain ⟨call, d⟩ := e
      cases reference with
      | @cons _ _ _ ws outcome after _ turns _ encodes dispatched others =>
          obtain ⟨first, rest⟩ := List.forall_mem_cons.mp carried
          obtain ⟨delivered, deliveries⟩ := List.forall_mem_cons.mp reliable
          obtain ⟨next, invoked, clean, connected, near, id, far, state, requests⟩ :=
            invoke_turn ready delivered dispatched first
          rw [← id, ← state] at others
          rw [← near, ← far] at rest
          obtain ⟨last, ran, done, ended, all, kept⟩ := ih clean others rest deliveries
          refine ⟨last, ?_, done, ended, ?_, fun _ => kept (.inr connected)⟩
          · have called := call_eq encodes invoked
            simp only [run, bind, StateT.bind, called, Option.bind_some, ran]
            rfl
          · have same : next.reached = next.connection := if_pos connected
            rw [all, same, requests]
            simp

/-- Calls over a line give what their methods give. Every call has the outcome of its method on the state
that the calls before it left, decoded by its type or, if it is an error, as it is; the methods have run
once for each call and in order; and the connection of the first call still stands. -/
theorem run_eq_dispatch (client : Client) (session : Session) (limits : Limits)
    {calls : List (Call × Delivery)} {turns : List Turn} {state final : σ}
    (reference : Turns server client.endpoint.name session.nextId state (calls.map Prod.fst) turns final)
    (carried : ∀ t ∈ turns, t.Carried session.limits limits)
    (reliable : ∀ e ∈ calls, e.2.Reliable client.endpoint.timeout) :
    ∃ last : Line σ, run server client calls (start session limits state) =
        some (List.zipWith (fun e t => e.1.outcome t.outcome) calls turns, last) ∧
      last.state = final ∧ last.connection.requests.reverse = turns.map Turn.request ∧
      (calls ≠ [] → last.session.isConnected = true ∧ last.connection.isOpen = true) := by
  obtain ⟨last, ran, ready, ended, requests, connected⟩ :=
    run_turns (start_ready session limits state) reference carried reliable
  cases calls with
  | nil =>
      cases reference
      cases ran
      exact ⟨_, rfl, ended, rfl, fun h => absurd rfl h⟩
  | cons e calls =>
      have isConnected := connected (.inl (List.cons_ne_nil e calls))
      have same : last.reached = last.connection := if_pos isConnected
      have isOpen := ready.isOpen
      rw [same] at requests isOpen
      refine ⟨last, ran, ended, ?_, fun _ => ⟨isConnected, isOpen⟩⟩
      rw [requests, List.reverse_append, List.reverse_reverse]
      rfl

end Line

namespace Source

def bytewise (fault : Fault) (bytes : Bytes) : List ReadEvent :=
  bytes.flatMap fun b => [.fault fault, .data [b]]

theorem payload_bytewise (fault : Fault) (bytes : Bytes) : payload (bytewise fault bytes) = bytes := by
  induction bytes with
  | nil => rfl
  | cons b bytes ih => exact congrArg (b :: ·) ih

theorem bytewise_sound {soft : Fault → Prop} {fault : Fault} (h : soft fault) (bytes : Bytes) :
    Sound soft (bytewise fault bytes) where
  pieces piece member := by
    simp only [bytewise, List.mem_flatMap, List.mem_cons, List.not_mem_nil, or_false] at member
    obtain ⟨b, -, impossible | same⟩ := member
    · cases impossible
    · cases same
      exact List.cons_ne_nil b []
  faults other member := by
    simp only [bytewise, List.mem_flatMap, List.mem_cons, List.not_mem_nil, or_false] at member
    obtain ⟨b, -, same | impossible⟩ := member
    · cases same
      exact h
    · cases impossible

end Source

/-- One byte at a time in each direction, with a write that is interrupted and a read that fails before
every byte. -/
def Delivery.bytewise : Delivery where
  clock _ := ⟨0⟩
  requestWrites := [.accept 1, .fault (.ofKind .interrupted), .accept 2]
  request := Source.bytewise (.ofKind .timedOut)
  answerWrites := [.fault (.ofKind .interrupted), .accept 1]
  answer := Source.bytewise (.ofKind .interrupted)

theorem Delivery.bytewise_reliable : Delivery.bytewise.Reliable defaultTimeout where
  requestSink := ⟨by simp [bytewise, WriteEvent.Reliable, Fault.ofKind], nofun⟩
  answerSink := ⟨by simp [bytewise, WriteEvent.Reliable, Fault.ofKind], nofun⟩
  request_payload := Source.payload_bytewise _
  request_sound := Source.bytewise_sound (.inr rfl)
  answer_payload := Source.payload_bytewise _
  answer_sound := Source.bytewise_sound rfl
  timely := ⟨⟨10000000000⟩, rfl, fun _ => rfl⟩

/-- A server that counts how often it was asked, and has a method that fails. -/
def counting : Server Nat :=
  (Server.method {} "count" fun _ n => (.ok (.ofNat n), n + 1)).method "fail" fun _ n =>
    (.error (.str "no"), n + 10)

namespace Line

/-- Three calls of which the second fails and the third expects what it does not get; the numbers of the
requests wrap around. -/
theorem run_eq_dispatch_counting :
    let count : Call := ⟨"count", [], [], .int false .w8⟩
    let fail : Call := ⟨"fail", [.int (-1)], [.int true .w64], .unit⟩
    let misread : Call := ⟨"count", [], [], .string⟩
    let session : Session := { host := "", port := 0, connectTimeout := .zero, nextId := 0xffffffff }
    ∃ last : Line Nat, run counting ⟨{ name := "kv" }, true⟩
        [(count, .bytewise), (fail, .bytewise), (misread, .bytewise)] (start session .default 7) =
          some ([.ok (.uint 7), .error (.remote ⟨"fail", .str "no"⟩),
            .error (.decode "count" .string (.here (.kindMismatch .string .int)))], last) ∧
      last.state = 19 ∧
      last.connection.requests.reverse = [⟨0xffffffff, "count", [.str "kv"]⟩,
        ⟨0, "fail", [.str "kv", .int (.ofInt64 (-1))]⟩, ⟨1, "count", [.str "kv"]⟩] ∧
      last.session.isConnected = true ∧ last.connection.isOpen = true := by
  intro count fail misread session
  let turns : List Turn := [⟨⟨0xffffffff, "count", [.str "kv"]⟩, .ok (.ofNat 7)⟩,
    ⟨⟨0, "fail", [.str "kv", .int (.ofInt64 (-1))]⟩, .error (.str "no")⟩,
    ⟨⟨1, "count", [.str "kv"]⟩, .ok (.ofNat 18)⟩]
  have first : counting.dispatch "count" [.str "kv"] 7 = (.ok (.ofNat 7), 8) := by rfl
  have second : counting.dispatch "fail" [.str "kv", .int (.ofInt64 (-1))] 8 = (.error (.str "no"), 18) := by
    rfl
  have third : counting.dispatch "count" [.str "kv"] 18 = (.ok (.ofNat 18), 19) := by rfl
  have reference : Turns counting "kv" 0xffffffff 7 [count, fail, misread] turns 19 :=
    .cons ⟨rfl, .nil⟩ first (.cons ⟨rfl, .cons rfl .nil⟩ second (.cons ⟨rfl, .nil⟩ third .nil))
  have carried : ∀ t ∈ turns, t.Carried .default .default := by
    have within : ∀ (m : Message) bytes, m.toPacked.toBytes = .ok bytes →
        bytes.length ≤ defaultMaxSize → m.toPacked.depth ≤ defaultMaxDepth → m.Within .default :=
      fun _ bytes encoded small shallow => ⟨⟨bytes, encoded, small⟩, shallow⟩
    have each : ∀ t ∈ turns, (Message.request t.request.id t.request.method t.request.params).Within .default ∧
        (Message.ofOutcome t.request.id t.outcome).Within .default ∧
        ∀ w, t.outcome = .error w → w.isNil = false := by
      simp only [turns, List.forall_mem_cons]
      refine ⟨⟨within _ _ rfl (by decide) (by decide), within _ _ rfl (by decide) (by decide), nofun⟩,
        ⟨within _ _ rfl (by decide) (by decide), within _ _ rfl (by decide) (by decide), ?_⟩,
        ⟨within _ _ rfl (by decide) (by decide), within _ _ rfl (by decide) (by decide), nofun⟩, nofun⟩
      rintro w ⟨⟩
      rfl
    intro t member
    obtain ⟨request, answer, full⟩ := each t member
    exact ⟨request, request, answer, answer, full⟩
  have reliable : ∀ e ∈ [(count, Delivery.bytewise), (fail, .bytewise), (misread, .bytewise)],
      e.2.Reliable defaultTimeout := by
    simp only [List.forall_mem_cons]
    exact ⟨Delivery.bytewise_reliable, Delivery.bytewise_reliable, Delivery.bytewise_reliable, nofun⟩
  obtain ⟨last, ran, state, requests, kept⟩ := run_eq_dispatch ⟨{ name := "kv" }, true⟩ session .default
    reference carried reliable
  exact ⟨last, ran, state, requests, kept (List.cons_ne_nil _ _)⟩

end Line

end PackRpc
