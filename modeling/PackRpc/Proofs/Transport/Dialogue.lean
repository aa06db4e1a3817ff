import PackRpc.Proofs.Transport.Session
/-!
# Whose answer a call gets

A peer answers the requests that it has received whole in order, each at most once and with its id, and puts
notifications where it likes. What it says may come late, in any pieces, or not at all, and the connection
may fail at any point. Requests are told apart by the numbers of their calls, since ids repeat after
`2 ^ 32` of them. A connection is kept only after the answer to the last request on it has been taken, or if
there was none; so whatever else it still brings is no answer, and a call gets its own one.
-/
namespace PackRpc
open scoped List
open StreamReader (Holds)

/-- What a peer says: the answer to the request of a call, or a notification. -/
inductive Reply where
  | answer (call : Nat) (id : UInt32) (error result : Packed)
  | notification (method : String) (params : List Packed)

namespace Reply

def message : Reply → Message
  | .answer _ id error result => .response id error result
  | .notification method params => .notification method params

/-- The call to which a reply is made, and the id that it gives. -/
def addressee? : Reply → Option (Nat × UInt32)
  | .answer call id _ _ => some (call, id)
  | .notification .. => none

end Reply

def Message.SpelledBy (m : Message) (bytes : Bytes) : Prop :=
  ∃ limits v, Packed.ofBytes limits bytes = .ok v ∧ Message.ofPacked v = .ok m

/-- What has passed on a connection. -/
structure Dialogue where
  /-- The requests that the peer has received whole: the numbers of their calls, and their ids. -/
  received : List (Nat × UInt32) := []
  /-- What the peer has said, and how it is spelled. -/
  replies : List (Reply × Bytes) := []
  /-- What has arrived of that. -/
  arrived : Bytes := []

namespace Dialogue

def addressees (replies : List (Reply × Bytes)) : List (Nat × UInt32) :=
  replies.filterMap fun r => r.1.addressee?

def spelling (replies : List (Reply × Bytes)) : Bytes :=
  replies.flatMap Prod.snd

/-- Requests are answered in order, each at most once and with its id, and what has been said arrives in
order. -/
structure Orderly (d : Dialogue) : Prop where
  spelled : ∀ r ∈ d.replies, r.1.message.SpelledBy r.2
  answers : addressees d.replies <+ d.received
  arrival : d.arrived <+: spelling d.replies

theorem addressees_append (first second : List (Reply × Bytes)) :
    addressees (first ++ second) = addressees first ++ addressees second :=
  List.filterMap_append

theorem spelling_append (first second : List (Reply × Bytes)) :
    spelling (first ++ second) = spelling first ++ spelling second :=
  List.flatMap_append

theorem spelling_cons (reply : Reply) (bytes : Bytes) (others : List (Reply × Bytes)) :
    spelling ((reply, bytes) :: others) = bytes ++ spelling others :=
  List.flatMap_cons

theorem spelling_concat (others : List (Reply × Bytes)) (reply : Reply) (bytes : Bytes) :
    spelling (others ++ [(reply, bytes)]) = spelling others ++ bytes := by
  rw [spelling_append, spelling_cons]
  exact congrArg (spelling others ++ ·) (List.append_nil bytes)

/-- The dialogue after a request has been received, more has been said and more has arrived. -/
def goOn (d : Dialogue) (request : Nat × UInt32) (said : List (Reply × Bytes)) (bytes : Bytes) : Dialogue :=
  ⟨d.received ++ [request], d.replies ++ said, d.arrived ++ bytes⟩

end Dialogue

namespace Session
open Dialogue (addressees spelling spelling_cons)

/-- One call of a sequence: what is asked, what it meets and what comes of it, and the dialogue on its
connection as it was before the call and as it is after it. -/
structure Attempt where
  before : Session
  conditions : Conditions
  method : String
  params : List Packed
  timeout : Duration
  exchange : Exchange
  opening : Dialogue
  dialogue : Dialogue

namespace Attempt

def request (a : Attempt) : Message := .request a.before.nextId a.method a.params

def arrivals (a : Attempt) : List ReadEvent := (a.conditions.arrivals a.exchange.sent).events

/-- What passes between a session and its peer during a call with this number. Only a request that has
been sent whole gets the peer to go on. -/
inductive Meets (number : Nat) (a : Attempt) : Prop
  | heard (said : List (Reply × Bytes)) : a.request.toPacked.toBytes = .ok a.exchange.sent →
      Source.Sound (fun _ => True) a.arrivals →
      a.dialogue = a.opening.goOn (number, a.before.nextId) said (Source.payload a.arrivals) →
      a.dialogue.Orderly → Meets number a
  | unheard : a.request.toPacked.toBytes ≠ .ok a.exchange.sent → a.dialogue = a.opening → Meets number a

/-- The outcome of a call is what the answer to its own request says, which was sent whole. The requests
before it on the connection were answered before, and behind it no answer is said. The answer is the last
thing that has been taken of what arrived. -/
inductive Answered (number : Nat) (outcome : Except Packed Packed) (a : Attempt) : Prop
  | intro (earlier later : List (Reply × Bytes)) (error result : Packed) (bytes : Bytes) (link : Link) :
      a.request.toPacked.toBytes = .ok a.exchange.sent →
      a.dialogue.replies = earlier ++ (.answer number a.before.nextId error result, bytes) :: later →
      outcome = Message.outcome error result →
      addressees earlier = a.opening.received → addressees later = [] →
      a.exchange.session.link = some link →
      a.dialogue.arrived =
        spelling earlier ++ bytes ++ (link.reader.buffer.bytes ++ Source.payload link.incoming) →
      Answered number outcome a

/-- Nothing has been sent, and the connection is as it was. -/
structure Withheld (a : Attempt) : Prop where
  sent : a.exchange.sent = []
  dialogue : a.dialogue = a.opening
  session : ∃ link, connected a.conditions a.before = .ok link ∧
    a.exchange.session = { a.before with nextId := a.before.nextId + 1, link := some link }

end Attempt

/-- Calls of a session one after another, the session after them, and the dialogue on its connection. On a
new connection a new dialogue begins. -/
inductive Run : List Attempt → Session → Dialogue → Prop
  | new {s : Session} : s.link = none → Run [] s {}
  | call {as : List Attempt} {s : Session} {d : Dialogue} {a : Attempt} : Run as s d → a.before = s →
      a.opening = (if s.isConnected then d else {}) →
      s.invoke a.conditions a.method a.params a.timeout = some a.exchange → a.Meets as.length →
      Run (as ++ [a]) a.exchange.session a.dialogue

/-- How sending a request and waiting for its answer may end. -/
inductive RoundTripLaw (c : Conditions) (s : Session) (link : Link) (id : UInt32) (request : Message)
    (timeout : Duration) (deadline : Instant) : Exchange → Prop
  /-- Nothing of the request has been sent, or a front of it. -/
  | dropped {e sent} : (sent = [] ∨ ∃ more, request.toPacked.toBytes = .ok (sent ++ more)) →
      RoundTripLaw c s link id request timeout deadline ⟨.error (.transport e), s.disconnect, sent⟩
  | refused {size max} :
      RoundTripLaw c s link id request timeout deadline
        ⟨.error (.tooLarge size max), { s with link := some link }, []⟩
  | awaited {sent ending fuel readings awaited} : request.toPacked.toBytes = .ok sent →
      await c timeout deadline id fuel readings link.reader
        ⟨link.incoming ++ (c.arrivals sent).events, ending⟩ = awaited →
      RoundTripLaw c s link id request timeout deadline ⟨awaited.1, { s with link := awaited.2 }, sent⟩

section
variable {c : Conditions} {s : Session} {timeout : Duration} {deadline : Instant} {limits : Limits}

theorem roundTrip_law (c : Conditions) (s : Session) (link : Link) (id : UInt32) (method : String)
    (params : List Packed) (timeout : Duration) (deadline : Instant) :
    RoundTripLaw c s link id (.request id method params) timeout deadline
      (roundTrip c s link id method params timeout deadline) := by
  unfold roundTrip
  split
  · exact .dropped (.inl rfl)
  · dsimp only
    have written := Sink.writeValue_law s.limits { writes := c.writes, flushes := c.flushes }
      (Message.request id method params).toPacked
    rw [← Sink.writeMessage] at written
    generalize Sink.writeMessage s.limits _ (Message.request id method params) = result at written ⊢
    cases written with
    | sent encoded taken =>
        rw [List.nil_append] at taken
        subst taken
        exact .awaited encoded rfl
    | @refused refusal =>
        cases refusal with
        | tooLarge size max => exact .refused
        | _ => exact .dropped (.inl rfl)
    | failed other encoded within taken =>
        obtain ⟨more, rfl⟩ := within
        split
        · next same =>
            cases same
            exact absurd rfl (other _)
        · next same =>
            cases same
            rw [List.nil_append] at taken
            exact .dropped (.inr ⟨more, taken ▸ encoded⟩)
        · next same => cases same

theorem receive_response (id : UInt32) (error result : Packed) :
    receive id (.response id error result) = .answer (seen (Message.outcome error result)) := by
  rw [receive, if_pos rfl]
  cases Message.outcome error result <;> rfl

/-- How waiting for an answer may end, `waiting` being what the peer has said and the session has not
taken, and `stream` what has arrived of that. -/
inductive AwaitLaw (limits : Limits) (number : Nat) (id : UInt32) (waiting : List (Reply × Bytes))
    (stream : Bytes) : Except InvokeError Packed × Option Link → Prop
  | dropped {e} : AwaitLaw limits number id waiting stream (.error (.transport e), none)
  | answered {notes error result bytes later link rest} :
      waiting = notes ++ (.answer number id error result, bytes) :: later → addressees notes = [] →
      addressees later = [] → stream = spelling notes ++ bytes ++ rest →
      Holds (fun _ => True) limits link.reader link.incoming rest →
      AwaitLaw limits number id waiting stream (seen (Message.outcome error result), some link)

theorem AwaitLaw.after_note {number : Nat} {id : UInt32} {method : String} {params : List Packed}
    {bytes stream : Bytes} {later : List (Reply × Bytes)}
    {awaited : Except InvokeError Packed × Option Link} (h : AwaitLaw limits number id later stream awaited) :
    AwaitLaw limits number id ((.notification method params, bytes) :: later) (bytes ++ stream) awaited := by
  cases h with
  | dropped => exact .dropped
  | @answered notes error result answer others link rest split quiet none_later arrived holds =>
      have said : (.notification method params, bytes) :: later =
          ((.notification method params, bytes) :: notes) ++
            (.answer number id error result, answer) :: others := by
        rw [split, List.cons_append]
      have before : bytes ++ stream =
          spelling ((.notification method params, bytes) :: notes) ++ answer ++ rest := by
        rw [spelling_cons, arrived]
        simp only [List.append_assoc]
      exact .answered said quiet none_later before holds

/-- If at most the answer to this request is still to come, no other one is taken. -/
theorem await_law {number : Nat} {id : UInt32} {waiting : List (Reply × Bytes)} {stream : Bytes}
    {reader : StreamReader} {events : List ReadEvent} (ending : Ending) (fuel readings : Nat)
    (spelled : ∀ r ∈ waiting, r.1.message.SpelledBy r.2)
    (only : addressees waiting <+ [(number, id)]) (arrived : stream <+: spelling waiting)
    (h : Holds (fun _ => True) limits reader events stream) :
    AwaitLaw limits number id waiting stream
      (await c timeout deadline id fuel readings reader ⟨events, ending⟩) := by
  induction fuel generalizing waiting stream reader events readings with
  | zero => exact .dropped
  | succ fuel ih =>
      have law := StreamReader.readValue_law (fun n => guard c timeout deadline (readings + n)) ending h
      simp only [await, StreamReader.readMessage]
      generalize reader.readValue (fun n => guard c timeout deadline (readings + n)) ⟨events, ending⟩ = p
        at law ⊢
      cases law with
      | refused | stopped | failed | exhausted => exact .dropped
      | @value v reader events front rest _ _ split read holds _ _ =>
          subst split
          cases waiting with
          | nil =>
              have none := List.prefix_nil.mp arrived
              exact absurd (List.append_eq_nil_iff.mp none).1 (Packed.ofBytes_eq_ok.mp read).ne_nil
          | cons reply later =>
              obtain ⟨reply, bytes⟩ := reply
              obtain ⟨⟨wide, w, accepted, message⟩, others⟩ := List.forall_mem_cons.mp spelled
              rw [spelling_cons] at arrived
              -- The value at the front of the stream is the next thing that the peer has said.
              obtain ⟨rfl, rfl⟩ := Packed.ofBytes_prefix_unique (List.prefix_append bytes _)
                ((List.prefix_append front rest).trans arrived) accepted read
              have arrived := (List.prefix_append_right_inj front).mp arrived
              simp only [StreamReader.asMessage, message]
              cases reply with
              | answer call found error result =>
                  obtain ⟨same, quiet⟩ : (call, found) = (number, id) ∧ addressees later = [] := by
                    have both : (call, found) :: addressees later <+ [(number, id)] := only
                    cases both with
                    | cons _ none => cases none
                    | cons_cons _ none => exact ⟨rfl, List.sublist_nil.mp none⟩
                  cases same
                  simp only [Reply.message, receive_response]
                  exact .answered (List.nil_append _).symm rfl quiet rfl holds
              | notification method params =>
                  exact (ih _ others only arrived holds).after_note

theorem seen_injective {first second : Except Packed Packed} (h : seen first = seen second) :
    first = second := by
  cases first <;> cases second <;> cases h <;> rfl

theorem seen_ne_transport (outcome : Except Packed Packed) (e : TransportError) :
    seen outcome ≠ .error (.transport e) := by
  cases outcome <;> exact nofun

theorem seen_ne_tooLarge (outcome : Except Packed Packed) (size max : Nat) :
    seen outcome ≠ .error (.tooLarge size max) := by
  cases outcome <;> exact nofun

/-- All requests on a connection have been answered and the answers have been taken, so that what the link
still holds or gets of what was said is no answer. -/
inductive CaughtUp (limits : Limits) (link : Link) (d : Dialogue) : Prop
  | intro (taken waiting : List (Reply × Bytes)) (stream : Bytes) :
      d.replies = taken ++ waiting → addressees taken = d.received →
      d.arrived = spelling taken ++ stream →
      Holds (fun _ => True) limits link.reader link.incoming stream → CaughtUp limits link d

structure Settled (s : Session) (d : Dialogue) : Prop where
  orderly : d.Orderly
  caught_up : ∀ link, s.link = some link → CaughtUp s.limits link d

theorem orderly_empty : Dialogue.Orderly {} :=
  ⟨List.forall_mem_nil _, List.Sublist.refl _, List.prefix_refl _⟩

theorem Settled.opening {d : Dialogue} (h : Settled s d) :
    (if s.isConnected then d else {}).Orderly ∧
      ∀ link, connected c s = .ok link → CaughtUp s.limits link (if s.isConnected then d else {}) := by
  unfold connected isConnected
  cases same : s.link with
  | some link =>
      refine ⟨h.orderly, fun found given => ?_⟩
      cases given
      exact h.caught_up link same
  | none =>
      refine ⟨orderly_empty, fun found given => ?_⟩
      cases dialled : c.dial with
      | error e =>
          rw [dialled] at given
          cases given
      | ok =>
          rw [dialled] at given
          cases given
          have holds : Holds (fun _ => True) s.limits (.new s.limits) [] [] :=
            ⟨rfl, Buffer.ofBytes_resumable s.limits [], Source.Sound.nil, rfl⟩
          exact .intro [] [] [] rfl rfl rfl holds

/-- After a new request at most its own answer is still to come. -/
theorem CaughtUp.goOn {link : Link} {d : Dialogue} {request : Nat × UInt32}
    {said : List (Reply × Bytes)} {events : List ReadEvent} (h : CaughtUp limits link d)
    (sound : Source.Sound (fun _ => True) events)
    (orderly : (d.goOn request said (Source.payload events)).Orderly) :
    ∃ taken waiting stream, d.replies ++ said = taken ++ waiting ∧ addressees taken = d.received ∧
      d.arrived ++ Source.payload events = spelling taken ++ stream ∧
      (∀ r ∈ waiting, r.1.message.SpelledBy r.2) ∧ addressees waiting <+ [request] ∧
      stream <+: spelling waiting ∧
      Holds (fun _ => True) limits link.reader (link.incoming ++ events) stream := by
  obtain ⟨taken, waiting, stream, replies, received, arrived, holds⟩ := h
  obtain ⟨spelled, answers, arrival⟩ := orderly
  have split : d.replies ++ said = taken ++ (waiting ++ said) := by
    rw [replies, List.append_assoc]
  have bytes : d.arrived ++ Source.payload events = spelling taken ++ (stream ++ Source.payload events) := by
    rw [arrived, List.append_assoc]
  simp only [Dialogue.goOn] at spelled answers arrival
  rw [split] at spelled answers arrival
  rw [Dialogue.addressees_append, received, List.append_sublist_append_left] at answers
  rw [bytes, Dialogue.spelling_append, List.prefix_append_right_inj] at arrival
  refine ⟨taken, waiting ++ said, stream ++ Source.payload events, split, received, bytes,
    fun r member => spelled r (List.mem_append_right _ member), answers, arrival, ?_⟩
  refine ⟨holds.limits_eq, holds.resumable, holds.sound.append sound, ?_⟩
  rw [Source.payload_append, ← List.append_assoc, holds.whole]

end

structure Attempt.Sure (number : Nat) (a : Attempt) : Prop where
  settled : Settled a.exchange.session a.dialogue
  answered : ∀ outcome, a.exchange.outcome = seen outcome → a.Answered number outcome
  withheld : ∀ size max, a.exchange.outcome = .error (.tooLarge size max) → a.Withheld

section
variable {number : Nat} {a : Attempt} {d : Dialogue}

theorem Attempt.Meets.orderly (h : a.Meets number) (opening : a.opening.Orderly) : a.dialogue.Orderly := by
  cases h with
  | heard _ _ _ _ orderly => exact orderly
  | unheard _ same => rwa [same]

theorem Attempt.sure_of_dropped {e : TransportError} (orderly : a.dialogue.Orderly)
    (outcome : a.exchange.outcome = .error (.transport e)) (closed : a.exchange.session.link = none) :
    a.Sure number where
  settled := by
    refine ⟨orderly, fun link given => ?_⟩
    rw [closed] at given
    cases given
  answered found same := absurd (same.symm.trans outcome) (seen_ne_transport found e)
  withheld size max same := by
    rw [outcome] at same
    cases same

theorem Attempt.sure_of_refused {link : Link} {size max : Nat} (begun : a.opening.Orderly)
    (connected : connected a.conditions a.before = .ok link)
    (caught_up : CaughtUp a.before.limits link a.opening) (meets : a.Meets number)
    (exchange : a.exchange = ⟨.error (.tooLarge size max),
      { a.before with nextId := a.before.nextId + 1, link := some link }, []⟩) : a.Sure number := by
  -- Nothing has been sent, so the peer has received nothing to go on with.
  have dialogue : a.dialogue = a.opening := by
    cases meets with
    | unheard _ same => exact same
    | heard _ sent =>
        rw [exchange] at sent
        exact absurd rfl (Packed.ne_nil_of_toBytes sent)
  refine ⟨⟨?_, fun next given => ?_⟩, fun found same => ?_, fun _ _ _ => ⟨?_, dialogue, link, connected, ?_⟩⟩
  · rwa [dialogue]
  · rw [exchange] at given ⊢
    cases given
    rwa [dialogue]
  · rw [exchange] at same
    exact absurd same.symm (seen_ne_tooLarge found size max)
  · rw [exchange]
  · rw [exchange]

theorem Attempt.sure_of_awaited {link : Link} {fuel readings : Nat} {ending : Ending} {deadline : Instant}
    {awaited : Except InvokeError Packed × Option Link} (caught_up : CaughtUp a.before.limits link a.opening)
    (meets : a.Meets number) {sent : Bytes} (encoded : a.request.toPacked.toBytes = .ok sent)
    (awaits : await a.conditions a.timeout deadline a.before.nextId fuel readings link.reader
      ⟨link.incoming ++ (a.conditions.arrivals sent).events, ending⟩ = awaited)
    (exchange : a.exchange =
      ⟨awaited.1, { a.before with nextId := a.before.nextId + 1, link := awaited.2 }, sent⟩) :
    a.Sure number := by
  obtain rfl : a.exchange.sent = sent := by rw [exchange]
  have outcome : a.exchange.outcome = awaited.1 := by rw [exchange]
  have session : a.exchange.session =
      { a.before with nextId := a.before.nextId + 1, link := awaited.2 } := by rw [exchange]
  cases meets with
  | unheard lost => exact absurd encoded lost
  | heard said _ sound dialogue orderly =>
      rw [dialogue] at orderly
      obtain ⟨taken, waiting, stream, replies, received, arrived, spelled, only, front, holds⟩ :=
        caught_up.goOn sound orderly
      have law : AwaitLaw a.before.limits number a.before.nextId waiting stream awaited := by
        rw [← awaits]
        exact await_law ending fuel readings spelled only front holds
      rw [← dialogue] at orderly
      cases law with
      | dropped => exact sure_of_dropped orderly outcome (by rw [session])
      | @answered notes error result bytes later link rest split quiet none_later bytes_split holds =>
          have said_before : a.dialogue.replies =
              (taken ++ notes) ++ (.answer number a.before.nextId error result, bytes) :: later := by
            rw [dialogue, Dialogue.goOn, replies, split, List.append_assoc]
          have arrived_before : a.dialogue.arrived = spelling (taken ++ notes) ++ bytes ++ rest := by
            rw [dialogue, Dialogue.goOn, arrived, bytes_split, Dialogue.spelling_append]
            simp only [List.append_assoc]
          have addressed : addressees (taken ++ notes) = a.opening.received := by
            rw [Dialogue.addressees_append, received, quiet, List.append_nil]
          refine ⟨⟨orderly, fun next given => ?_⟩, fun found same => ?_, fun size max same => ?_⟩
          · rw [session] at given ⊢
            cases given
            -- The answer is the last thing that has been taken; only notifications follow it.
            refine .intro ((taken ++ notes) ++ [(.answer number a.before.nextId error result, bytes)]) later
              rest ?_ ?_ ?_ holds
            · rw [said_before, List.append_assoc _ [_], List.singleton_append]
            · rw [Dialogue.addressees_append, addressed, dialogue]
              rfl
            · rw [arrived_before, Dialogue.spelling_concat]
          · have same : found = Message.outcome error result := seen_injective (same.symm.trans outcome)
            refine .intro (taken ++ notes) later error result bytes link encoded said_before same addressed
              none_later (by rw [session]) ?_
            rw [arrived_before, holds.whole]
          · exact absurd (outcome.symm.trans same) (seen_ne_tooLarge _ size max)

theorem Attempt.sure (settled : Settled a.before d)
    (opening : a.opening = if a.before.isConnected then d else {})
    (invoked : a.before.invoke a.conditions a.method a.params a.timeout = some a.exchange)
    (meets : a.Meets number) : a.Sure number := by
  obtain ⟨begun, caught_up⟩ := settled.opening (c := a.conditions)
  rw [← opening] at begun caught_up
  have orderly := meets.orderly begun
  unfold invoke at invoked
  cases reached : connected a.conditions a.before with
  | error e =>
      rw [reached] at invoked
      have exchange := Option.some.inj invoked
      refine sure_of_dropped orderly (by rw [← exchange]) ?_
      rw [← exchange]
      -- Only a session without a connection dials, so none is left over.
      cases link : a.before.link with
      | none => rfl
      | some link =>
          rw [connected, link] at reached
          cases reached
  | ok link =>
      rw [reached] at invoked
      dsimp only at invoked
      cases started : (a.conditions.clock 0).after? a.timeout with
      | none =>
          rw [started] at invoked
          cases invoked
      | some deadline =>
          rw [started] at invoked
          have law := roundTrip_law a.conditions { a.before with nextId := a.before.nextId + 1 } link
            a.before.nextId a.method a.params a.timeout deadline
          rw [Option.some.inj invoked] at law
          generalize same : a.exchange = exchange at law
          cases law with
          | dropped => exact sure_of_dropped orderly (by rw [same]) (by rw [same]; rfl)
          | refused => exact sure_of_refused begun reached (caught_up link reached) meets same
          | awaited encoded awaits =>
              exact sure_of_awaited (caught_up link reached) meets encoded awaits same

theorem Run.settled {as : List Attempt} {s : Session} (run : Run as s d) : Settled s d := by
  induction run with
  | new closed =>
      refine ⟨orderly_empty, fun link given => ?_⟩
      rw [closed] at given
      cases given
  | @call as s d a run before opening invoked meets ih =>
      subst before
      exact (Attempt.sure ih opening invoked meets).settled

/-- Of any calls of a session, the one with some number returns what the answer with that number says, if
it returns the outcome of an answer at all, and leaves everything as it was, if its request is too large. -/
theorem Run.calls_answered {as : List Attempt} {s : Session} (run : Run as s d) (made : as[number]? = some a) :
    (∀ outcome, a.exchange.outcome = seen outcome → a.Answered number outcome) ∧
      (∀ size max, a.exchange.outcome = .error (.tooLarge size max) → a.Withheld) := by
  induction run with
  | new closed => cases made
  | @call as s d last run before opening invoked meets ih =>
      by_cases within : number < as.length
      · rw [List.getElem?_append_left within] at made
        exact ih made
      · have last_made := List.getElem?_eq_some_iff.mp made
        obtain ⟨bound, found⟩ := last_made
        rw [List.length_append, List.length_singleton] at bound
        obtain rfl : number = as.length := by omega
        rw [List.getElem_concat_length rfl] at found
        subst found before
        have sure := Attempt.sure run.settled opening invoked meets
        exact ⟨sure.answered, sure.withheld⟩

def narrow (link : Option Link) (nextId : UInt32) : Session :=
  { host := "localhost", port := 7000, connectTimeout := .ofMillis 50, limits := ⟨16, 4⟩, link, nextId }

/-- A call with the last id there is, whose answer is cut off. -/
def lateCall : Attempt where
  before := narrow none 0xffffffff
  conditions := { arrivals := fun _ => ⟨[.data [0x94, 0x01, 0xce]], .silent⟩ }
  method := "a"
  params := []
  timeout := .ofMillis 50
  exchange := ⟨.error (.transport (.timeout (.ofMillis 50))), narrow none 0,
    [0x94, 0x00, 0xce, 0xff, 0xff, 0xff, 0xff, 0xa1, 0x61, 0x90]⟩
  opening := {}
  dialogue := ⟨[(0, 0xffffffff)], [(.answer 0 0xffffffff .nil (.ofNat 7),
    [0x94, 0x01, 0xce, 0xff, 0xff, 0xff, 0xff, 0xc0, 0x07])], [0x94, 0x01, 0xce]⟩

def largeCall : Attempt where
  before := narrow none 0
  conditions := { arrivals := fun _ => ⟨[], .closed⟩ }
  method := "a"
  params := [.str "0123456789ab"]
  timeout := .ofMillis 50
  exchange := ⟨.error (.tooLarge 19 16), narrow (some ⟨.new ⟨16, 4⟩, []⟩) 1, []⟩
  opening := {}
  dialogue := {}

/-- A call that gets its answer between two notifications, of which the second is cut off. -/
def quickCall : Attempt where
  before := narrow (some ⟨.new ⟨16, 4⟩, []⟩) 1
  conditions :=
    { writes := [.accept 2, .fault (.ofKind .interrupted)]
      arrivals := fun _ => ⟨[.data [0x93, 0x02, 0xa1], .fault (.ofKind .interrupted),
        .data [0x6e, 0x90, 0x94, 0x01, 0x01, 0xc0], .data [0x2a, 0x93]], .silent⟩ }
  method := "a"
  params := []
  timeout := .ofMillis 50
  exchange := ⟨.ok (.ofNat 42), narrow (some ⟨⟨⟨16, 4⟩, .ofBytes [0x93]⟩, []⟩) 2,
    [0x94, 0x00, 0x01, 0xa1, 0x61, 0x90]⟩
  opening := {}
  dialogue := ⟨[(2, 1)],
    [(.notification "n" [], [0x93, 0x02, 0xa1, 0x6e, 0x90]),
      (.answer 2 1 .nil (.ofNat 42), [0x94, 0x01, 0x01, 0xc0, 0x2a]),
      (.notification "n" [], [0x93, 0x02, 0xa1, 0x6e, 0x90])],
    [0x93, 0x02, 0xa1, 0x6e, 0x90, 0x94, 0x01, 0x01, 0xc0, 0x2a, 0x93]⟩

/-- The last of these calls is answered, the ids having begun again in between, and the one before it has
changed nothing. -/
theorem Run.calls_answered_after_timeout :
    Run [lateCall, largeCall, quickCall] quickCall.exchange.session quickCall.dialogue ∧
      quickCall.Answered 2 (.ok (.ofNat 42)) ∧ largeCall.Withheld := by
  have late : lateCall.Meets 0 := by
    have sound : Source.Sound (fun _ => True) lateCall.arrivals :=
      ⟨by simp [Attempt.arrivals, lateCall], fun _ _ => trivial⟩
    have spelled : ∀ r ∈ lateCall.dialogue.replies, r.1.message.SpelledBy r.2 := by
      simp only [lateCall, List.mem_singleton, forall_eq]
      exact ⟨⟨16, 4⟩, _, rfl, rfl⟩
    have arrival : lateCall.dialogue.arrived <+: spelling lateCall.dialogue.replies :=
      ⟨[0xff, 0xff, 0xff, 0xff, 0xc0, 0x07], rfl⟩
    exact .heard lateCall.dialogue.replies (by cbv) sound rfl ⟨spelled, .refl _, arrival⟩
  have large : largeCall.Meets 1 := .unheard (by cbv; simp) rfl
  have quick : quickCall.Meets 2 := by
    have sound : Source.Sound (fun _ => True) quickCall.arrivals :=
      ⟨by simp [Attempt.arrivals, quickCall], fun _ _ => trivial⟩
    have note : (Reply.notification "n" []).message.SpelledBy [0x93, 0x02, 0xa1, 0x6e, 0x90] :=
      ⟨⟨16, 4⟩, .array [.ofNat 2, .str "n", .array []], by cbv, by cbv⟩
    have answer : (Reply.answer 2 1 .nil (.ofNat 42)).message.SpelledBy [0x94, 0x01, 0x01, 0xc0, 0x2a] :=
      ⟨⟨16, 4⟩, .array [.ofNat 1, .ofNat 1, .nil, .ofNat 42], by cbv, by cbv⟩
    have spelled : ∀ r ∈ quickCall.dialogue.replies, r.1.message.SpelledBy r.2 := by
      simp only [quickCall, List.forall_mem_cons]
      exact ⟨note, answer, note, List.forall_mem_nil _⟩
    have arrival : quickCall.dialogue.arrived <+: spelling quickCall.dialogue.replies :=
      ⟨[0x02, 0xa1, 0x6e, 0x90], by simp [quickCall, spelling]⟩
    exact .heard quickCall.dialogue.replies (by cbv) sound rfl ⟨spelled, .refl _, arrival⟩
  have run : Run [lateCall, largeCall, quickCall] quickCall.exchange.session quickCall.dialogue :=
    .call (.call (.call (.new rfl) rfl rfl (by cbv) late) rfl rfl (by cbv) large) rfl rfl (by cbv) quick
  have second : [lateCall, largeCall, quickCall][1]? = some largeCall := rfl
  exact ⟨run, (run.calls_answered rfl).1 _ rfl, (run.calls_answered second).2 _ _ rfl⟩

end

end Session

end PackRpc
