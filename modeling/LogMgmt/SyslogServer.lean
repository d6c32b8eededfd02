import LogMgmt.SyslogParser
import LogMgmt.Lib.Utf8
import LogMgmt.Lib.BoundedQueue
import LogMgmt.Link

/-!
# The syslog server

`ingest/syslog_server.py`: TCP connections and the UDP endpoint put events on one bounded queue, which one task
writes to the database. A step of the server is what one task does between two points at which it waits.
-/

namespace LogMgmt
open Utf8 (Byte)
open BoundedQueue (Entry)

/-! ### Messages -/

/-- The readings of the clock for one message: for the year of its timestamp, and for the fallback event. -/
structure Clock where
  parsing : DateTime
  fallback : DateTime

/-- `raw.decode("utf-8", errors="replace").rstrip("\n")` -/
def decodeLine (raw : List Byte) : Str := (Utf8.decode raw).rdropWhile (· == chr '\n')

/-- What the loop of `handle_tcp_connection` does after `readline`. -/
inductive Framed where
  | close
  | skip
  | put (e : NormalizedEvent)

section
variable (py : Py) (u : Unicode) (tenant : Str)

def handleMessage (line : Str) (clock : Clock) : Except PyExc NormalizedEvent :=
  match parseSyslogLine u line clock.parsing with
  | .ok envelope =>
    normalize py (.str (sourceHintFromFields envelope.fields)) (.envelope envelope) (.str tenant) clock.fallback
  | .error (.valueError _) => normalize py (.str (str "unknown")) (.text line) (.str tenant) clock.fallback
  | .error exc => .error exc

/-- The loop body of `handle_tcp_connection`, up to `queue.put` -/
def tcpLine (raw : List Byte) (clock : Clock) : Except PyExc Framed :=
  if raw = [] then .ok .close
  else
    let line := decodeLine raw
    if line = [] then .ok .skip
    else match handleMessage py u tenant line clock with
      | .ok e => .ok (.put e)
      | .error exc => .error exc

/-- `SyslogUDPProtocol.datagram_received`, up to `queue.put_nowait` -/
def udpMessage (data : List Byte) (clock : Clock) : Except PyExc NormalizedEvent :=
  handleMessage py u tenant (decodeLine data) clock

/-- The events that `datagram_received` offers to the queue. -/
def datagramEvents (data : List Byte) (clock : Clock) : List NormalizedEvent :=
  (udpMessage py u tenant data clock).toOption.toList

end

/-- A message is handled whatever its line. -/
theorem handleMessage_isOk {py : Py} {u : Unicode} (tenant line : Str) {clock : Clock}
    (hclock : clock.parsing.Current) : (handleMessage py u tenant line clock).isOk := by
  have hnormalize : ∀ (hint : Str) (payload : Payload),
      (normalize py (.str hint) payload (.str tenant) clock.fallback).isOk := fun hint payload =>
    (normalize_isOk_iff py _ payload _ _).2 ⟨fun _ => rfl, rfl⟩
  unfold handleMessage
  split
  · exact hnormalize _ _
  · exact hnormalize _ _
  · rename_i exc hne hparse
    have hvalue := parseSyslogLine_error hclock hparse
    cases exc with
    | valueError arg => exact absurd rfl (hne arg)
    | _ => cases hvalue

/-! ### The tasks -/

inductive Producer where
  | udp
  | tcp (connection : Nat)
deriving DecidableEq

abbrev EventQueue := BoundedQueue.State Producer NormalizedEvent (Except Exn Unit)

structure SyslogServer where
  queue : EventQueue := {}
  /-- what `readline` has returned on each connection, with the clock at that time -/
  lines : Nat → List (List Byte × Clock) := fun _ => []
  /-- the connections whose loop has ended -/
  closed : Nat → Bool := fun _ => false
  /-- the connection of `writer_loop` -/
  session : Session

namespace SyslogServer

inductive Action where
  /-- `readline` returns on a connection, or raises. -/
  | readline (connection : Nat) (answer : Option (List Byte)) (clock : Clock)
  /-- A connection that waits in `queue.put` goes on. -/
  | resume (connection : Nat)
  | datagram (data : List Byte) (clock : Clock)
  /-- `queue.get` of `writer_loop` returns. -/
  | get
  /-- `write_event_async` ends, the exception logged. -/
  | write

section
variable (pg : Pg) (py : Py) (u : Unicode) (tenant : Str) (maxsize : Int)

def close (s : SyslogServer) (c : Nat) : SyslogServer := { s with closed := Function.update s.closed c true }

/-- Nothing happens on a connection that does not wait for a line. -/
def readline (s : SyslogServer) (c : Nat) (answer : Option (List Byte)) (clock : Clock) : SyslogServer :=
  if s.closed c || (s.queue.pending (.tcp c)).isSome then s
  else match answer with
    | none => s.close c
    | some raw =>
      let s := { s with lines := Function.update s.lines c (s.lines c ++ [(raw, clock)]) }
      match tcpLine py u tenant raw clock with
      | .ok (.put e) => { s with queue := s.queue.put maxsize (.tcp c) e }
      | .ok .skip => s
      | _ => s.close c

def datagram (s : SyslogServer) (data : List Byte) (clock : Clock) : SyslogServer :=
  match udpMessage py u tenant data clock with
  | .ok e => { s with queue := s.queue.putNowait maxsize .udp e }
  | .error _ => s

def write (s : SyslogServer) : SyslogServer :=
  match s.queue.serving with
  | none => s
  | some e =>
    let r := (writeEvent e.value).run (handle pg) s.session
    { s with session := r.2, queue := s.queue.finish fun _ => r.1 }

def step (s : SyslogServer) : Action → SyslogServer
  | .readline c answer clock => s.readline py u tenant maxsize c answer clock
  | .resume c => { s with queue := s.queue.resume maxsize (.tcp c) }
  | .datagram data clock => s.datagram py u tenant maxsize data clock
  | .get => { s with queue := s.queue.take }
  | .write => s.write pg

def run (s : SyslogServer) (actions : List Action) : SyslogServer :=
  actions.foldl (step pg py u tenant maxsize) s

def Action.datagramEvents : Action → List NormalizedEvent
  | .datagram data clock => LogMgmt.datagramEvents py u tenant data clock
  | _ => []

/-- The event of a line, if the loop puts one. -/
def event (line : List Byte × Clock) : Option NormalizedEvent :=
  match tcpLine py u tenant line.1 line.2 with
  | .ok (.put e) => some e
  | _ => none

end

/-! ### The queue through a run -/

/-- A connection hands over the events of its lines in order, and never one that is dropped. -/
structure Inv (py : Py) (u : Unicode) (tenant : Str) (maxsize : Int) (s : SyslogServer) : Prop where
  queue : s.queue.Inv maxsize
  udp : s.queue.pending .udp = none
  dropped : ∀ e ∈ s.queue.dropped, e.producer = .udp
  offered : ∀ c, s.queue.offered (.tcp c) = (s.lines c).filterMap (event py u tenant)

section
variable {pg : Pg} {py : Py} {u : Unicode} {tenant : Str} {maxsize : Int} {s : SyslogServer} {c c' : Nat}

/-- What the server does is a step of the queue, or none. -/
theorem step_queue (h : s.Inv py u tenant maxsize) (a : Action) :
    (s.step pg py u tenant maxsize a).queue = s.queue ∨
      BoundedQueue.Step maxsize s.queue (s.step pg py u tenant maxsize a).queue := by
  cases a with
  | readline c answer clock =>
    simp only [step, readline]
    split
    · exact .inl rfl
    rename_i hwaits
    rw [Bool.or_eq_true, not_or, Option.not_isSome_iff_eq_none] at hwaits
    split
    · exact .inl rfl
    split
    · exact .inr (.put s.queue (.tcp c) _ hwaits.2)
    · exact .inl rfl
    · exact .inl rfl
  | resume c => exact .inr (.resume s.queue (.tcp c))
  | datagram data clock =>
    simp only [step, datagram]
    split
    · exact .inr (.putNowait s.queue .udp _ h.udp)
    · exact .inl rfl
  | get => exact .inr (.take s.queue)
  | write =>
    simp only [step, write]
    split
    · exact .inl rfl
    · exact .inr (.finish s.queue _)

theorem init (py : Py) (u : Unicode) (tenant : Str) (maxsize : Int) (session : Session) :
    Inv py u tenant maxsize { session } where
  queue := .init maxsize
  udp := rfl
  dropped _ he := absurd he List.not_mem_nil
  offered _ := List.filterMap_nil.symm

/-- Nobody puts anything back that has come over UDP. -/
theorem pending_udp_step (s : SyslogServer) (a : Action) :
    (s.step pg py u tenant maxsize a).queue.pending .udp = s.queue.pending .udp := by
  cases a with
  | readline c answer clock =>
    simp only [step, readline]
    split
    · rfl
    split
    · rfl
    split
    · exact BoundedQueue.State.pending_put_of_ne _ _ nofun
    · rfl
    · rfl
  | resume c => exact BoundedQueue.State.pending_resume_of_ne _ nofun
  | datagram data clock =>
    simp only [step, datagram]
    split
    · rw [BoundedQueue.State.pending_putNowait]
    · rfl
  | get => simp only [step, BoundedQueue.State.pending_take]
  | write =>
    simp only [step, write]
    split
    · rfl
    · rw [BoundedQueue.State.pending_finish]

/-- Only a datagram drops anything. -/
theorem dropped_udp_step (h : ∀ e ∈ s.queue.dropped, e.producer = .udp) (a : Action) :
    ∀ e ∈ (s.step pg py u tenant maxsize a).queue.dropped, e.producer = .udp := by
  cases a with
  | readline c answer clock =>
    simp only [step, readline]
    split
    · exact h
    split
    · exact h
    split
    · simpa only [BoundedQueue.State.dropped_put] using h
    · exact h
    · exact h
  | resume c => simpa only [step, BoundedQueue.State.dropped_resume] using h
  | datagram data clock =>
    simp only [step, datagram]
    split
    · intro e he
      rcases BoundedQueue.State.mem_dropped_putNowait he with he | rfl
      · exact h e he
      · rfl
    · exact h
  | get => simpa only [step, BoundedQueue.State.dropped_take] using h
  | write =>
    simp only [step, write]
    split
    · exact h
    · simpa only [BoundedQueue.State.dropped_finish] using h

/-- What a line adds to what its connection has handed over. -/
theorem offered_readline (h : s.queue.offered (.tcp c') = (s.lines c').filterMap (event py u tenant)) (c : Nat)
    (answer : Option (List Byte)) (clock : Clock) :
    (s.readline py u tenant maxsize c answer clock).queue.offered (.tcp c') =
      ((s.readline py u tenant maxsize c answer clock).lines c').filterMap (event py u tenant) := by
  unfold readline
  split
  · exact h
  split
  · exact h
  rename_i raw
  have hskip (hline : event py u tenant (raw, clock) = none) : s.queue.offered (.tcp c') =
      (Function.update s.lines c (s.lines c ++ [(raw, clock)]) c').filterMap (event py u tenant) := by
    by_cases hc : c' = c
    · rw [hc, Function.update_self, List.filterMap_append, ← hc, ← h]
      simp [hline]
    · rw [Function.update_of_ne hc, h]
  split
  · rename_i e he
    simp only [BoundedQueue.State.offered_put]
    by_cases hc : c' = c
    · subst hc
      rw [Function.update_self, Function.update_self, List.filterMap_append, ← h]
      simp [event, he]
    · rw [Function.update_of_ne hc, Function.update_of_ne (by simpa using hc), h]
  · rename_i hempty
    exact hskip (by simp [event, hempty])
  · rename_i hnone _
    refine hskip ?_
    unfold event
    split
    · rename_i e he
      exact absurd he (hnone e)
    · rfl

theorem offered_tcp_step (h : s.queue.offered (.tcp c) = (s.lines c).filterMap (event py u tenant)) (a : Action) :
    (s.step pg py u tenant maxsize a).queue.offered (.tcp c) =
      ((s.step pg py u tenant maxsize a).lines c).filterMap (event py u tenant) := by
  cases a with
  | readline c answer clock => exact offered_readline h c answer clock
  | resume c => simpa only [step, BoundedQueue.State.offered_resume] using h
  | datagram data clock =>
    simp only [step, datagram]
    split
    · rw [BoundedQueue.State.offered_putNowait]
      exact h
    · exact h
  | get => simpa only [step, BoundedQueue.State.offered_take] using h
  | write =>
    simp only [step, write]
    split
    · exact h
    · rw [BoundedQueue.State.offered_finish]
      exact h

theorem Inv.step (h : s.Inv py u tenant maxsize) (a : Action) :
    (s.step pg py u tenant maxsize a).Inv py u tenant maxsize where
  queue := by
    rcases step_queue h a with heq | hs
    · rw [heq]
      exact h.queue
    · exact h.queue.step hs
  udp := (pending_udp_step s a).trans h.udp
  dropped := dropped_udp_step h.dropped a
  offered _ := offered_tcp_step (h.offered _) a

theorem Inv.run (h : s.Inv py u tenant maxsize) (actions : List Action) :
    (s.run pg py u tenant maxsize actions).Inv py u tenant maxsize := by
  induction actions generalizing s with
  | nil => exact h
  | cons a actions ih => exact ih (h.step a)

end

/-! ### The fate of an event -/

section
variable {pg : Pg} {py : Py} {u : Unicode} {tenant : Str} {maxsize : Int} {s : SyslogServer}
  {e : Entry Producer NormalizedEvent}

end

end SyslogServer

def Clock.sample : Clock := ⟨⟨0, some 0⟩, ⟨0, some 0⟩⟩

end LogMgmt
