import LogMgmt.Engine
import LogMgmt.Storage

/-!
# A connection that the server closes

The syslog server and the alert engine open one connection before their loops (`connect_async`) and keep it.
`Link` is such a connection with the point at which the server closes it: from then on psycopg raises on every
use, and nothing in the two programs opens another one.
-/

namespace LogMgmt
open Prog

/-! ### Lines -/

inductive Line where
  /-- The server answers `n` more commands. The next one it carries out or not, and closes the connection. -/
  | up (n : Nat) (carried : Bool)
  | closed
deriving DecidableEq

structure Link where
  session : Session
  line : Line

/-- The command is not carried out. -/
def Session.skip (s : Session) (c : Cmd) : Session := s.interfere.answered c (.error .operational)

/-- The server drops the open transaction of a connection that is gone. -/
def Session.abandon (s : Session) : Session :=
  { s with conn := s.conn.endTx, pending := [], log := s.log.endTx false }

/-- The use of a connection. -/
def Cmd.onLine : Cmd → Bool
  | sendWebhook _ _ => false
  | _ => true

def handleLink (pg : Pg) : Prog.Handler Cmd.Answer Link := fun c l =>
  if c.onLine then
    match l.line with
    | .up (n + 1) carried => ((handle pg c l.session).1, ⟨(handle pg c l.session).2, .up n carried⟩)
    | .up 0 carried =>
      (.error .operational, ⟨((if carried then (handle pg c l.session).2 else l.session.skip c)).abandon, .closed⟩)
    | .closed => (.error .operational, ⟨(l.session.skip c).abandon, .closed⟩)
  else ((handle pg c l.session).1, ⟨(handle pg c l.session).2, l.line⟩)

section
variable {pg : Pg} {α : Type} {l l' : Link}

theorem handleLink_closed {c : Cmd} (h : l.line = .closed) : (handleLink pg c l).2.line = .closed := by
  unfold handleLink
  split
  · simp [h]
  · exact h

theorem handleLink_raises {c : Cmd} (hc : c.onLine) (h : l.line = .closed) :
    handleLink pg c l = (.error .operational, ⟨(l.session.skip c).abandon, .closed⟩) := by
  simp [handleLink, hc, h]

theorem handleLink_open {c : Cmd} (h : (handleLink pg c l).2.line ≠ .closed) :
    (handleLink pg c l).1 = (handle pg c l.session).1 ∧ (handleLink pg c l).2.session = (handle pg c l.session).2 := by
  unfold handleLink at h ⊢
  split at h
  · split at h
    · exact ⟨by simp [*], by simp [*]⟩
    · exact absurd rfl h
    · exact absurd rfl h
  · exact ⟨by simp [*], by simp [*]⟩

theorem run_closed (p : App α) (h : l.line = .closed) : (p.run (handleLink pg) l).2.line = .closed := by
  induction p generalizing l with
  | ret a => exact h
  | raise e => exact h
  | call c k ih => exact ih _ (handleLink_closed h)

/-- A program that leaves the line open has run as on any connection. -/
theorem run_open (p : App α) (h : (p.run (handleLink pg) l).2.line ≠ .closed) :
    (p.run (handleLink pg) l).1 = (p.run (handle pg) l.session).1 ∧
      (p.run (handleLink pg) l).2.session = (p.run (handle pg) l.session).2 := by
  induction p generalizing l with
  | ret a => exact ⟨rfl, rfl⟩
  | raise e => exact ⟨rfl, rfl⟩
  | call c k ih =>
    have hopen : (handleLink pg c l).2.line ≠ .closed := fun hc => h (run_closed (k (handleLink pg c l).1) hc)
    obtain ⟨hanswer, hsession⟩ := handleLink_open hopen
    have hk := ih (handleLink pg c l).1 h
    rw [hsession, hanswer] at hk
    show (run (handleLink pg) (k (handleLink pg c l).1) (handleLink pg c l).2).1 = _ ∧
      (run (handleLink pg) (k (handleLink pg c l).1) (handleLink pg c l).2).2.session = _
    rw [hanswer]
    exact hk

end

/-! ### The programs -/

/-- The loop body of `writer_loop` -/
def tryWriteEvent (e : NormalizedEvent) : App Unit := tryCatch (writeEvent e) fun _ => return ()

/-- `writer_loop` on the events it takes from the queue -/
def writerLoop (events : List NormalizedEvent) : App Unit := events.forM tryWriteEvent

/-- The loop body of the engine's `main` -/
def tick (webhookUrl : Option Str) : App Unit := tryCatch (runOnce webhookUrl) fun _ => return ()

/-- The engine's `main` for `n` ticks -/
def engineLoop (webhookUrl : Option Str) : Nat → App Unit
  | 0 => return ()
  | n + 1 => do
    engineLoop webhookUrl n
    tick webhookUrl

end LogMgmt
