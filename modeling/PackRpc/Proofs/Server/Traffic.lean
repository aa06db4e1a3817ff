import PackRpc.Proofs.Packed.Narrowing
import PackRpc.Proofs.Server.Connection
import Mathlib.Data.List.Forall2
/-!
# Mixed traffic on a connection

What a server owes to the messages of a stream is an answer for each request, in the order of the requests;
the state of the server goes through all of them. A connection gives what is owed, up to the first answer
that cannot be written.
-/
namespace PackRpc
open StreamReader (Holds load)

namespace Message

/-- The messages that values stand for, up to the first one that stands for none. -/
def leading : List Packed → List Message
  | [] => []
  | v :: vs =>
    match ofPacked v with
    | .ok m => m :: leading vs
    | .error _ => []

def request? : Message → Option Request
  | .request id method params => some ⟨id, method, params⟩
  | .response .. | .notification .. => none

def EncodesAs (m : Message) (bytes : Bytes) : Prop := m.toPacked.toBytes = .ok bytes

end Message

namespace Sink

inductive Sends (limits : Limits) : Sink → List Message → Sink → Prop
  | nil {s} : Sends limits s [] s
  | cons {s s' t m ms} : s.writeMessage limits m = (.ok (), s') → Sends limits s' ms t →
      Sends limits s (m :: ms) t

variable {limits : Limits} {s s' t : Sink} {m : Message} {ms later : List Message}

theorem Sends.append (first : Sends limits s ms s') (others : Sends limits s' later t) :
    Sends limits s (ms ++ later) t := by
  induction first with
  | nil => exact others
  | cons sent _ ih => exact .cons sent (ih others)

/-- What is sent are the encodings of the messages, in order and nothing else. -/
theorem Sends.taken (h : Sends limits s ms t) :
    ∃ pieces, List.Forall₂ Message.EncodesAs ms pieces ∧ t.taken = s.taken ++ pieces.flatten := by
  induction h with
  | nil => exact ⟨[], .nil, (List.append_nil _).symm⟩
  | cons sent _ ih =>
      obtain ⟨bytes, encoded, -, front⟩ := writeValue_sent sent
      obtain ⟨pieces, others, back⟩ := ih
      exact ⟨bytes :: pieces, .cons encoded others, by rw [back, front, List.flatten_cons, List.append_assoc]⟩

/-- If some messages can be sent, then each of them can be sent after those before it. -/
theorem Sends.middle (all : Sends limits s (ms ++ m :: later) t) (first : Sends limits s ms s') :
    (s'.writeMessage limits m).1 = .ok () := by
  induction first with
  | nil =>
      cases all with
      | cons sent _ => rw [sent]
  | cons sent _ ih =>
      cases all with
      | cons again others =>
          rw [sent] at again
          cases again
          exact ih others

end Sink

namespace Server

variable {σ : Type} (server : Server σ)

def answer (state : σ) (q : Request) : Message :=
  .ofOutcome q.id (server.dispatch q.method q.params state).1

def after (state : σ) : Message → σ
  | .request _ method params | .notification method params => (server.dispatch method params state).2
  | .response .. => state

def answers : σ → List Message → List Message
  | _, [] => []
  | state, m :: ms => (m.request?.map (server.answer state)).toList ++ answers (server.after state m) ms

theorem answers_append (state : σ) (ms later : List Message) :
    server.answers state (ms ++ later) =
      server.answers state ms ++ server.answers (ms.foldl server.after state) later := by
  induction ms generalizing state with
  | nil => rfl
  | cons m ms ih => rw [List.cons_append, answers, answers, ih, List.append_assoc, List.foldl_cons]

/-- There is one answer for each request, in the same order and with the same id. -/
theorem answers_requests (state : σ) (ms : List Message) :
    List.Forall₂ (fun (q : Request) m => ∃ outcome, m = .ofOutcome q.id outcome)
      (ms.filterMap Message.request?) (server.answers state ms) := by
  induction ms generalizing state with
  | nil => exact .nil
  | cons m ms ih =>
      cases m with
      | request id method params => exact .cons ⟨_, rfl⟩ (ih _)
      | response id error result | notification method params => exact ih _

end Server

namespace Connection

variable {σ : Type} {server : Server σ} {limits : Limits} {ending : Ending} {c mid served : Connection}
  {state between last : σ} {m : Message} {ms later : List Message}

/-- Messages have been dispatched one after another, and answered as far as they are requests. -/
structure Answered (server : Server σ) (limits : Limits) (c : Connection) (state : σ) (ms : List Message)
    (served : Connection) (last : σ) : Prop where
  state_eq : last = ms.foldl server.after state
  requests_eq : served.requests = (ms.filterMap Message.request?).reverse ++ c.requests
  sent : c.sink.Sends limits (server.answers state ms) served.sink
  written : ∃ pieces, List.Forall₂ Message.EncodesAs (server.answers state ms) pieces ∧
    served.sink.taken = c.sink.taken ++ pieces.flatten

/-- A request has been dispatched and its answer could not be written. If it was refused, nothing of it has
been sent. -/
inductive Unanswered (server : Server σ) (limits : Limits) (c : Connection) (state : σ) :
    Message → Connection → σ → Prop
  | mk {id method params e part} {served : Connection} :
      c.sink.writeMessage limits (server.answer state ⟨id, method, params⟩) = (.error e, served.sink) →
      (∀ refusal, e = .format refusal → served.sink = c.sink) →
      served.sink.taken = c.sink.taken ++ part →
      (∀ bytes, (server.answer state ⟨id, method, params⟩).EncodesAs bytes → part <+: bytes) →
      served.requests = ⟨id, method, params⟩ :: c.requests → served.isOpen = false →
      Unanswered server limits c state (.request id method params) served
        (server.dispatch method params state).2

theorem Answered.of_sent (state_eq : last = ms.foldl server.after state)
    (requests_eq : served.requests = (ms.filterMap Message.request?).reverse ++ c.requests)
    (sent : c.sink.Sends limits (server.answers state ms) served.sink) :
    Answered server limits c state ms served last :=
  ⟨state_eq, requests_eq, sent, sent.taken⟩

theorem Answered.none (requests : served.requests = c.requests) (sink : served.sink = c.sink) :
    Answered server limits c state [] served state :=
  .of_sent rfl requests (by rw [sink]; exact .nil)

theorem Answered.trans (first : Answered server limits c state ms mid between)
    (others : Answered server limits mid between later served last) :
    Answered server limits c state (ms ++ later) served last := by
  obtain ⟨rfl, requests, sent, -⟩ := first
  obtain ⟨rfl, requests', sent', -⟩ := others
  refine .of_sent List.foldl_append.symm ?_ ?_
  · rw [requests', requests, List.filterMap_append, List.reverse_append, List.append_assoc]
  · rw [server.answers_append]
    exact sent.append sent'

theorem Unanswered.closed (h : Unanswered server limits c state m served last) : served.isOpen = false := by
  cases h
  assumption

/-- How a connection may deal with one message, `reader` being what has read it. -/
inductive HandleLaw (server : Server σ) (reader : StreamReader) (c : Connection) (state : σ) (m : Message) :
    Connection × σ → Prop
  | answered {served : Connection} {last : σ} : Answered server reader.limits c state [m] served last →
      served.isOpen = true → served.reader = reader → HandleLaw server reader c state m (served, last)
  | unanswered {served : Connection} {last : σ} : Unanswered server reader.limits c state m served last →
      HandleLaw server reader c state m (served, last)

theorem handle_law (server : Server σ) (reader : StreamReader) (state : σ) (m : Message)
    (isOpen : c.isOpen = true) :
    HandleLaw server reader c state m (handle server { c with reader } state m) := by
  cases m with
  | notification method params | response id error result =>
      exact .answered (.of_sent rfl rfl .nil) isOpen rfl
  | request id method params =>
      simp only [handle]
      generalize write : c.sink.writeMessage reader.limits _ = sent
      obtain ⟨result, sink⟩ := sent
      cases result with
      | ok done => exact .answered (.of_sent rfl rfl (.cons write .nil)) rfl rfl
      | error e =>
          obtain ⟨kept, part, taken, within⟩ := Sink.writeValue_failed write
          exact .unanswered (.mk write kept taken within rfl rfl)

/-! ## A whole stream -/

/-- What a connection does with the messages of a stream: it answers them all, or up to one whose answer
cannot be written. -/
inductive Traffic (server : Server σ) (limits : Limits) (ending : Ending) (c : Connection) (state : σ)
    (ms : List Message) : Connection × σ → Prop
  | answered {served : Connection} {last : σ} : Answered server limits c state ms served last →
      (ending = .closed → served.isOpen = false) →
      Traffic server limits ending c state ms (served, last)
  | unanswered {before m later mid between} {served : Connection} {last : σ} : ms = before ++ m :: later →
      Answered server limits c state before mid between → Unanswered server limits mid between m served last →
      Traffic server limits ending c state ms (served, last)

theorem Traffic.cons {out : Connection × σ} (first : Answered server limits c state [m] mid between)
    (others : Traffic server limits ending mid between ms out) :
    Traffic server limits ending c state (m :: ms) out := by
  cases others with
  | answered all closes => exact .answered (first.trans all) closes
  | @unanswered before _ _ _ _ _ _ split some failed =>
      rw [split]
      exact .unanswered (List.cons_append ..).symm (first.trans some) failed

theorem Traffic.all_answered {sink : Sink} (h : Traffic server limits ending c state ms (served, last))
    (sendable : c.sink.Sends limits (server.answers state ms) sink) :
    Answered server limits c state ms served last := by
  cases h with
  | answered all => exact all
  | @unanswered before m later mid between _ _ split some failed =>
      subst split
      rw [server.answers_append, Server.answers, ← some.state_eq] at sendable
      cases failed with
      | mk broken =>
          have sent := sendable.middle some.sent
          rw [broken] at sent
          cases sent

theorem serveFrom_traffic (server : Server σ) (state : σ) (ending : Ending) {vs : List Packed}
    {pieces : List Bytes} {tail : Bytes} {events : List ReadEvent} {fuel : Nat}
    (each : List.Forall₂ (Packed.Admissible limits) vs pieces)
    (undecodable : ∀ front v, front <+: tail → Packed.ofBytes limits front ≠ .ok v)
    (h : Holds Tolerated limits c.reader events (pieces.flatten ++ tail)) (isOpen : c.isOpen = true)
    (enough : load c.reader events < fuel) :
    Traffic server limits ending c state (Message.leading vs)
      (serveFrom server fuel c state ⟨events, ending⟩) := by
  -- One value is received at a time; what has been answered so far is composed with what follows.
  induction each generalizing c state events fuel with
  | nil =>
      have law := serveFrom_tail server state ending h undecodable enough
      generalize serveFrom server fuel c state ⟨events, ending⟩ = out at law ⊢
      cases law with
      | ended | refused => exact .answered (.none rfl rfl) fun _ => rfl
      | waiting silent =>
          refine .answered (.none rfl rfl) fun closed => ?_
          rw [silent] at closed
          cases closed
  | @cons v piece vs pieces first others ih =>
      rw [List.flatten_cons, List.append_assoc] at h
      obtain ⟨reader, left, fuel', holds, enough', run⟩ :=
        serveFrom_front server state ending h enough first.accepted first.small
      rw [run, receive, Message.leading]
      cases Message.ofPacked v with
      | error e => exact .answered (.none rfl rfl) fun _ => rfl
      | ok m =>
          have law := handle_law server reader state m isOpen
          dsimp only
          generalize handle server _ state m = out at law ⊢
          cases law with
          | @answered served last answered still_open same =>
              simp only [if_pos still_open]
              rw [holds.limits_eq] at answered
              rw [← same] at holds enough'
              exact .cons answered (ih last holds still_open enough')
          | unanswered failed =>
              simp only [failed.closed]
              rw [holds.limits_eq] at failed
              exact .unanswered (List.nil_append _).symm (.none rfl rfl) failed

/-- A new connection is served on a stream of values that are each within its limits, in any spelling, with
any bytes behind them from which no value can be read. They come in pieces of any size among reads that take
too long. The messages before the first value that is none are dispatched one after another; each request
among them gets one answer with its id, in order, and nothing else is written. This goes on to the last of
these messages, or to the first answer that cannot be written; all answers are written if all can be. -/
theorem serve_traffic (server : Server σ) (sink : Sink) (state : σ) (ending : Ending) {vs : List Packed}
    {pieces : List Bytes} {tail : Bytes} {events : List ReadEvent}
    (each : List.Forall₂ (Packed.Admissible limits) vs pieces)
    (undecodable : ∀ front v, front <+: tail → Packed.ofBytes limits front ≠ .ok v)
    (sound : Source.Sound Tolerated events) (carried : Source.payload events = pieces.flatten ++ tail) :
    let c := { Connection.new limits with sink }
    let ms := Message.leading vs
    let out := c.serve server state ⟨events, ending⟩
    List.Forall₂ (fun (q : Request) m => ∃ outcome, m = .ofOutcome q.id outcome)
        (ms.filterMap Message.request?) (server.answers state ms) ∧
      Traffic server limits ending c state ms out ∧
      ∀ t, sink.Sends limits (server.answers state ms) t →
        Answered server limits c state ms out.1 out.2 := by
  intro c ms out
  have holds : Holds Tolerated limits c.reader events (pieces.flatten ++ tail) :=
    ⟨rfl, Buffer.ofBytes_resumable limits [], sound, carried⟩
  have traffic : Traffic server limits ending c state ms out := by
    simp only [out, serve]
    exact serveFrom_traffic server state ending each undecodable holds rfl (Nat.lt_succ_self _)
  exact ⟨server.answers_requests state ms, traffic, fun t sendable => traffic.all_answered sendable⟩

/-- Counts its calls. -/
def tally : Server Nat := Server.method {} "count" fun _ n => (.ok (.ofNat n), n + 1)

/-- Two requests among a notification and a stray answer, then a value that is no message, one more request
and a part of a value. The stream is cut inside of the first request, and the sink takes one byte first. -/
theorem serve_traffic_mixed :
    let limits : Limits := ⟨16, 2⟩
    let messages : List Message := [.request 7 "count" [], .notification "count" [], .ok 3 .nil,
      .request 8 "other" []]
    let vs := messages.map Message.toPacked ++ [.nil, (Message.request 9 "count" []).toPacked]
    let bytes := (vs.map Packed.encode).flatten ++ [0x94, 0x00]
    let events : List ReadEvent := [.fault .nothingThere, .data (bytes.take 3), .fault .nothingThere,
      .data (bytes.drop 3)]
    let c := { Connection.new limits with sink := { writes := [.accept 1] } }
    let out := c.serve tally 0 ⟨events, .closed⟩
    out.2 = 2 ∧ out.1.requests.reverse = [⟨7, "count", []⟩, ⟨8, "other", []⟩] ∧
      out.1.sink.taken = [0x94, 0x01, 0x07, 0xc0, 0x00] ++ [0x94, 0x01, 0x08, 0x01, 0xc0] := by
  intro limits messages vs bytes events c out
  have each : List.Forall₂ (Packed.Admissible limits) vs (vs.map Packed.encode) := by
    rw [List.forall₂_map_right_iff, List.forall₂_same]
    intro v member
    have fits : ∀ v ∈ vs, v.toBytes = .ok v.encode ∧ v.encode.length ≤ limits.maxSize ∧
        v.depth ≤ limits.maxDepth := by
      simp only [vs, messages, List.map_cons, List.map_nil, List.cons_append, List.nil_append, List.forall_mem_cons]
      exact ⟨⟨rfl, by decide, by decide⟩, ⟨rfl, by decide, by decide⟩, ⟨rfl, by decide, by decide⟩,
        ⟨rfl, by decide, by decide⟩, ⟨rfl, by decide, by decide⟩, ⟨rfl, by decide, by decide⟩, List.forall_mem_nil _⟩
    obtain ⟨encoded, small, shallow⟩ := fits v member
    exact .of_toBytes encoded small shallow
  have undecodable : ∀ front v, front <+: [0x94, 0x00] → Packed.ofBytes limits front ≠ .ok v := by
    rintro front v ⟨back, split⟩
    have whole : Packed.ofBytes limits ([0x94, 0x00] ++ [0x00, 0xa0, 0x90]) =
        .ok (Message.request 0 "" []).toPacked := by cbv
    have part : StreamReader.Part limits [0x94, 0x00] := .inr ⟨_, _, whole, List.cons_ne_nil _ _, by decide⟩
    exact part.incomplete split.symm
  have sound : Source.Sound Tolerated events := by
    constructor
    · intro piece member
      simp only [events, List.mem_cons, List.not_mem_nil, reduceCtorEq, ReadEvent.data.injEq, false_or,
        or_false] at member
      rcases member with rfl | rfl <;> exact List.ne_nil_of_length_pos (by decide)
    · intro fault member
      simp only [events, List.mem_cons, List.not_mem_nil, reduceCtorEq, ReadEvent.fault.injEq, false_or,
        or_false, or_self] at member
      rw [member]
      exact .inr rfl
  obtain ⟨-, -, served⟩ := serve_traffic tally { writes := [.accept 1] } 0 .closed each undecodable sound rfl
  have sendable : Sink.Sends limits { writes := [.accept 1] } (tally.answers 0 (Message.leading vs)) _ :=
    .cons rfl (.cons rfl .nil)
  obtain ⟨last, requests, -, encodings, encoded, taken⟩ := served _ sendable
  have owed : tally.answers 0 (Message.leading vs) = [.ok 7 (.ofNat 0), .err 8 (.ofNat 1)] := by rfl
  have first : (Message.ok 7 (.ofNat 0)).toPacked.toBytes = .ok [0x94, 0x01, 0x07, 0xc0, 0x00] := by rfl
  have second : (Message.err 8 (.ofNat 1)).toPacked.toBytes = .ok [0x94, 0x01, 0x08, 0x01, 0xc0] := by rfl
  rw [owed] at encoded
  rcases encoded with _ | ⟨one, _ | ⟨two, none⟩⟩
  rw [Message.EncodesAs, first] at one
  rw [Message.EncodesAs, second] at two
  cases one
  cases two
  cases none
  refine ⟨last, ?_, taken⟩
  rw [requests]
  rfl

end Connection

end PackRpc
