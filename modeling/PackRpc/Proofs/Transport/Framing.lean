import PackRpc.Proofs.Server.Traffic
import PackRpc.Proofs.Transport.Dialogue

namespace PackRpc.Session

/-- A call that is to be made, and what it will meet. -/
structure Task where
  conditions : Conditions
  method : String
  params : List Packed
  timeout : Duration

namespace Task

def reaches (task : Task) (s : Session) : Bool :=
  s.isConnected || task.conditions.dial.toBool

def request (task : Task) (s : Session) : Message := .request s.nextId task.method task.params

end Task

/-- A call that has been made, and the number of the connection that the session then had or would open. -/
structure Step where
  before : Session
  task : Task
  exchange : Exchange
  connection : Nat

namespace Step

def reached (a : Step) : Bool := a.task.reaches a.before

def request (a : Step) : Message := a.task.request a.before

def drops (a : Step) : Bool := a.reached && !a.exchange.session.isConnected

end Step

/-- Calls one after another, up to one whose deadline cannot be told. Such a call stops its caller, which is
the only one here, so that there is no later call to see the connection and the id that it left. The session
has or opens the connection with this number, and the next number is up once that is lost. -/
def steps (s : Session) (number : Nat) : List Task → List Step
  | [] => []
  | task :: tasks =>
    match s.invoke task.conditions task.method task.params task.timeout with
    | none => []
    | some x =>
      let a : Step := ⟨s, task, x, number⟩
      a :: x.session.steps (if a.drops then number + 1 else number) tasks

def onConnection (number : Nat) (as : List Step) : List Step :=
  as.filter fun a => a.reached && a.connection == number

def sentOn (number : Nat) (as : List Step) : Bytes :=
  (onConnection number as).flatMap fun a => a.exchange.sent

/-- The calls on a connection from an id on, the requests that they have sent whole, and what has been sent
of one that was cut short. -/
inductive Framed : UInt32 → List Step → List Bytes → Bytes → Prop
  | nil {id} : Framed id [] [] []
  | answered {a as pieces part outcome} : a.exchange.outcome = seen outcome →
      a.request.EncodesAs a.exchange.sent → Framed (a.before.nextId + 1) as pieces part →
      Framed a.before.nextId (a :: as) (a.exchange.sent :: pieces) part
  | refused {a as pieces part size max} : a.exchange.outcome = .error (.tooLarge size max) →
      a.exchange.sent = [] → Framed (a.before.nextId + 1) as pieces part →
      Framed a.before.nextId (a :: as) pieces part
  /-- The request has been sent, and no answer has been got. -/
  | unanswered {a e} : a.exchange.outcome = .error (.transport e) →
      a.request.EncodesAs a.exchange.sent → Framed a.before.nextId [a] [a.exchange.sent] []
  | cut {a e more} : a.exchange.outcome = .error (.transport e) → more ≠ [] →
      a.request.EncodesAs (a.exchange.sent ++ more) → Framed a.before.nextId [a] [] a.exchange.sent
  | unsent {a e} : a.exchange.outcome = .error (.transport e) → a.exchange.sent = [] →
      Framed a.before.nextId [a] [] []

theorem Framed.bytes {id : UInt32} {as : List Step} {pieces : List Bytes} {part : Bytes}
    (h : Framed id as pieces part) : (as.flatMap fun a => a.exchange.sent) = pieces.flatten ++ part := by
  induction h with
  | nil => rfl
  | answered _ _ _ ih => rw [List.flatMap_cons, ih, List.flatten_cons, List.append_assoc]
  | refused _ none _ ih => rw [List.flatMap_cons, ih, none, List.nil_append]
  | unanswered => simp only [List.flatMap_singleton, List.flatten_singleton, List.append_nil]
  | cut => simp only [List.flatMap_singleton, List.flatten_nil, List.nil_append]
  | unsent _ none => rw [List.flatMap_singleton, none, List.flatten_nil, List.append_nil]

/-! ## One call -/

/-- How a call may end, and what has been sent then. -/
inductive InvokeLaw (s : Session) (task : Task) : Exchange → Prop
  | unreached {e} : s.isConnected = false → task.reaches s = false →
      InvokeLaw s task ⟨.error (.transport e), s, []⟩
  | answered {outcome sent link} : task.reaches s = true → (task.request s).EncodesAs sent →
      InvokeLaw s task ⟨seen outcome, { s with nextId := s.nextId + 1, link := some link }, sent⟩
  | refused {size max link} : task.reaches s = true →
      InvokeLaw s task ⟨.error (.tooLarge size max), { s with nextId := s.nextId + 1, link := some link }, []⟩
  | failed {e sent} : task.reaches s = true →
      (sent = [] ∨ ∃ more, (task.request s).EncodesAs (sent ++ more)) →
      InvokeLaw s task ⟨.error (.transport e), { s with nextId := s.nextId + 1, link := none }, sent⟩

theorem await_ends (c : Conditions) (timeout : Duration) (deadline : Instant) (id : UInt32)
    (fuel readings : Nat) (reader : StreamReader) (source : Source) :
    (∃ e, await c timeout deadline id fuel readings reader source = (.error (.transport e), none)) ∨
      ∃ outcome link, await c timeout deadline id fuel readings reader source = (seen outcome, some link) := by
  induction fuel generalizing readings reader source with
  | zero => exact .inl ⟨_, rfl⟩
  | succ fuel ih =>
      simp only [await]
      generalize reader.readMessage _ source = p
      cases p.result with
      | error e => exact .inl ⟨_, rfl⟩
      | ok m =>
          cases m with
          | notification method params => exact ih _ _ _
          | request found method params => exact .inl ⟨_, rfl⟩
          | response found error result =>
              by_cases same : found = id
              · subst same
                simp only [receive_response]
                exact .inr ⟨_, _, rfl⟩
              · simp only [receive, if_neg same]
                exact .inl ⟨_, rfl⟩

variable {s : Session} {task : Task} {tasks : List Task} {x : Exchange} {a : Step} {as : List Step}
  {number : Nat} {id : UInt32}

theorem connected_reaches (task : Task) (s : Session) :
    (connected task.conditions s).toBool = task.reaches s := by
  unfold connected Task.reaches isConnected
  cases s.link with
  | some link => rfl
  | none => cases task.conditions.dial <;> rfl

theorem invoke_law (invoked : s.invoke task.conditions task.method task.params task.timeout = some x) :
    InvokeLaw s task x := by
  have reaches := connected_reaches task s
  unfold invoke at invoked
  cases reached : connected task.conditions s with
  | error e =>
      rw [reached] at invoked reaches
      cases invoked
      have closed := reaches.symm
      rw [Task.reaches, Except.toBool, Bool.or_eq_false_iff] at closed
      exact .unreached closed.1 reaches.symm
  | ok link =>
      rw [reached] at invoked reaches
      dsimp only at invoked
      cases started : (task.conditions.clock 0).after? task.timeout with
      | none =>
          rw [started] at invoked
          cases invoked
      | some deadline =>
          rw [started] at invoked
          have law := roundTrip_law task.conditions { s with nextId := s.nextId + 1 } link s.nextId task.method
            task.params task.timeout deadline
          rw [Option.some.inj invoked] at law
          cases law with
          | dropped part => exact .failed reaches.symm part
          | refused => exact .refused reaches.symm
          | @awaited sent ending fuel readings awaited encoded waits =>
              obtain ⟨e, ends⟩ | ⟨outcome, next, ends⟩ := await_ends task.conditions task.timeout deadline
                s.nextId fuel readings link.reader ⟨link.incoming ++ (task.conditions.arrivals sent).events, ending⟩
              · rw [← waits, ends]
                exact .failed reaches.symm (.inr ⟨[], by rw [List.append_nil]; exact encoded⟩)
              · rw [← waits, ends]
                exact .answered reaches.symm encoded

/-- A connection is kept by the outcome of an answer and by the refusal of a request. -/
theorem InvokeLaw.isConnected (h : InvokeLaw s task x) : x.session.isConnected = true ↔
    task.reaches s = true ∧ ((∃ w, x.outcome = .ok w) ∨ (∃ w, x.outcome = .error (.remote w)) ∨
      ∃ size max, x.outcome = .error (.tooLarge size max)) := by
  cases h with
  | unreached closed unreached => simp [closed, unreached]
  | answered reached => cases ‹Except Packed Packed› <;> simp [reached, seen, Session.isConnected]
  | refused reached => simp [reached, Session.isConnected]
  | failed reached => simp [reached, Session.isConnected]

/-- A call that fails below its answer leaves what it has sent as the last thing on its connection. -/
theorem framed_failed {e : TransportError} (outcome : a.exchange.outcome = .error (.transport e))
    (sent : a.exchange.sent = [] ∨ ∃ more, a.request.EncodesAs (a.exchange.sent ++ more)) :
    ∃ pieces part, Framed a.before.nextId [a] pieces part := by
  obtain none | ⟨more, encoded⟩ := sent
  · exact ⟨_, _, .unsent outcome none⟩
  · by_cases whole : more = []
    · rw [whole, List.append_nil] at encoded
      exact ⟨_, _, .unanswered outcome encoded⟩
    · exact ⟨_, _, .cut outcome whole encoded⟩

/-! ## Many calls -/

/-- Connections with lower numbers are gone, the one with this number is used from an id on, and those with
higher ones come later. -/
structure Lines (number : Nat) (id : UInt32) (as : List Step) : Prop where
  past : ∀ k < number, onConnection k as = []
  current : ∃ pieces part, Framed id (onConnection number as) pieces part
  future : ∀ k, number < k → ∃ id pieces part, Framed id (onConnection k as) pieces part

theorem lines_nil (number : Nat) (id : UInt32) : Lines number id [] :=
  ⟨fun _ _ => rfl, ⟨[], [], .nil⟩, fun _ _ => ⟨id, [], [], .nil⟩⟩

theorem onConnection_self (reached : a.reached = true) (same : a.connection = number) :
    onConnection number (a :: as) = a :: onConnection number as := by
  have used : (a.reached && a.connection == number) = true := by simp [reached, same]
  exact List.filter_cons_of_pos used

theorem onConnection_other (other : a.reached = false ∨ a.connection ≠ number) :
    onConnection number (a :: as) = onConnection number as := by
  have unused : ¬ (a.reached && a.connection == number) = true := by
    rintro used
    simp only [Bool.and_eq_true, beq_iff_eq] at used
    rcases other with unreached | other
    · rw [used.1] at unreached
      cases unreached
    · exact other used.2
  exact List.filter_cons_of_neg unused

theorem Lines.unreached (h : Lines number id as) (unreached : a.reached = false) : Lines number id (a :: as) := by
  have same : ∀ k, onConnection k (a :: as) = onConnection k as := fun k => onConnection_other (.inl unreached)
  constructor
  · simpa only [same] using h.past
  · simpa only [same] using h.current
  · simpa only [same] using h.future

theorem Lines.keep {next : UInt32} (h : Lines number next as) (reached : a.reached = true)
    (same : a.connection = number)
    (framed : ∀ as pieces part, Framed next as pieces part → ∃ pieces part, Framed id (a :: as) pieces part) :
    Lines number id (a :: as) := by
  have other : ∀ k, k ≠ number → onConnection k (a :: as) = onConnection k as := fun k ne =>
    onConnection_other (.inr (same ▸ ne.symm))
  constructor
  · intro k less
    rw [other k less.ne]
    exact h.past k less
  · obtain ⟨pieces, part, later⟩ := h.current
    rw [onConnection_self reached same]
    exact framed _ pieces part later
  · intro k greater
    rw [other k greater.ne']
    exact h.future k greater

/-- A call that loses the connection: nothing comes after it there. -/
theorem Lines.drop {next : UInt32} (h : Lines (number + 1) next as) (reached : a.reached = true)
    (same : a.connection = number) (framed : ∃ pieces part, Framed id [a] pieces part) :
    Lines number id (a :: as) := by
  have other : ∀ k, k ≠ number → onConnection k (a :: as) = onConnection k as := fun k ne =>
    onConnection_other (.inr (same ▸ ne.symm))
  constructor
  · intro k less
    rw [other k less.ne]
    exact h.past k (Nat.lt_succ_of_lt less)
  · rw [onConnection_self reached same, h.past number (Nat.lt_succ_self number)]
    exact framed
  · intro k greater
    rw [other k greater.ne']
    obtain rfl | later := Nat.eq_or_lt_of_le (Nat.succ_le_of_lt greater)
    · exact ⟨next, h.current⟩
    · exact h.future k later

theorem InvokeLaw.lines (law : InvokeLaw s task x)
    (later : Lines (if (Step.mk s task x number).drops then number + 1 else number) x.session.nextId as) :
    Lines number s.nextId (⟨s, task, x, number⟩ :: as) := by
  rw [Step.drops, Step.reached] at later
  cases law with
  | unreached _ unreached =>
      rw [unreached] at later
      exact later.unreached unreached
  | answered reached encoded =>
      rw [reached] at later
      exact later.keep reached rfl fun _ _ _ others =>
        ⟨_, _, .answered (a := ⟨s, task, _, number⟩) rfl encoded others⟩
  | refused reached =>
      rw [reached] at later
      exact later.keep reached rfl fun _ _ _ others =>
        ⟨_, _, .refused (a := ⟨s, task, _, number⟩) rfl rfl others⟩
  | failed reached sent =>
      rw [reached] at later
      exact later.drop reached rfl (framed_failed (a := ⟨s, task, _, number⟩) rfl sent)

theorem steps_lines (s : Session) (number : Nat) (tasks : List Task) :
    Lines number s.nextId (s.steps number tasks) := by
  induction tasks generalizing s number with
  | nil => exact lines_nil number s.nextId
  | cons task tasks ih =>
      rw [steps]
      cases invoked : s.invoke task.conditions task.method task.params task.timeout with
      | none => exact lines_nil number s.nextId
      | some x =>
          apply (invoke_law invoked).lines
          apply ih

theorem steps_lawful (s : Session) (number : Nat) (tasks : List Task) :
    ∀ a ∈ s.steps number tasks, InvokeLaw a.before a.task a.exchange := by
  induction tasks generalizing s number with
  | nil => exact List.forall_mem_nil _
  | cons task tasks ih =>
      rw [steps]
      cases invoked : s.invoke task.conditions task.method task.params task.timeout with
      | none => exact List.forall_mem_nil _
      | some x => exact List.forall_mem_cons.mpr ⟨invoke_law invoked, ih _ _⟩

/-- Whatever the calls of a session meet, each of its connections carries whole requests of consecutive ids
and at most one cut short at its end, and is kept after a call exactly when there was one for the call and
its outcome is a result, an error of the server or the refusal of its request. -/
theorem steps_framed (e : Endpoint) (limits : Limits) (tasks : List Task) :
    (∀ number, ∃ id pieces part,
      Framed id (onConnection number ((ofEndpoint e limits).steps 0 tasks)) pieces part ∧
        sentOn number ((ofEndpoint e limits).steps 0 tasks) = pieces.flatten ++ part) ∧
      ∀ a ∈ (ofEndpoint e limits).steps 0 tasks, (a.exchange.session.isConnected = true ↔
        a.reached = true ∧ ((∃ w, a.exchange.outcome = .ok w) ∨ (∃ w, a.exchange.outcome = .error (.remote w)) ∨
          ∃ size max, a.exchange.outcome = .error (.tooLarge size max))) := by
  obtain ⟨-, current, future⟩ := steps_lines (ofEndpoint e limits) 0 tasks
  constructor
  · intro number
    have framed : ∃ id pieces part,
        Framed id (onConnection number ((ofEndpoint e limits).steps 0 tasks)) pieces part := by
      obtain rfl | later := Nat.eq_zero_or_pos number
      · exact ⟨_, current⟩
      · exact future number later
    obtain ⟨id, pieces, part, framed⟩ := framed
    exact ⟨id, pieces, part, framed, framed.bytes⟩
  · intro a made
    exact (steps_lawful _ _ _ a made).isConnected

def counted (id : UInt8) (writes : List WriteEvent) : Task where
  conditions := { writes, arrivals := fun _ => ⟨[.data [0x94, 0x01, id, 0xc0, 0x2a]], .silent⟩ }
  method := "a"
  params := []
  timeout := .ofMillis 50

/-- A request that is too large, one that is answered, one that is cut short, a call that finds nobody, and
one on a new connection. -/
def troubled : List Task :=
  [{ counted 0 [] with params := [.str "0123456789ab"] }, counted 1 [.accept 4],
    counted 2 [.accept 3, .fault (.ofKind .connectionReset)],
    { counted 3 [] with conditions := { dial := .error .disconnected, arrivals := fun _ => ⟨[], .closed⟩ } },
    counted 3 []]

/-- The first connection ends with three bytes of its third request, which were never followed by more. -/
theorem steps_framed_troubled :
    let as := (ofEndpoint .default ⟨16, 4⟩).steps 0 troubled
    as.map (fun a => a.exchange.session.isConnected) = [true, true, false, false, true] ∧
      sentOn 0 as = [0x94, 0x00, 0x01, 0xa1, 0x61, 0x90, 0x94, 0x00, 0x02] ∧
      sentOn 1 as = [0x94, 0x00, 0x03, 0xa1, 0x61, 0x90] ∧
      ∃ id pieces part, Framed id (onConnection 0 as) pieces part ∧ sentOn 0 as = pieces.flatten ++ part := by
  obtain ⟨framed, -⟩ := steps_framed .default ⟨16, 4⟩ troubled
  refine ⟨?_, ?_, ?_, framed 0⟩
  · cbv
  · cbv
  · cbv

end PackRpc.Session
