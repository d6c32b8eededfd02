import LogMgmt.Link
import LogMgmt.Webhooks

/-!
# After the connection is lost

Once the server has closed the connection of the syslog server, no event is stored any more; once it has closed that
of the alert engine, no tenant is evaluated any more.
-/

namespace LogMgmt
open Prog

/-! ### The syslog server -/

/-- The link after the writer has taken these events from the queue. -/
def Link.after (pg : Pg) (l : Link) (events : List NormalizedEvent) : Link :=
  ((writerLoop events).run (handleLink pg) l).2

/-- The event that the writer takes next is stored. -/
def Link.Stores (pg : Pg) (l : Link) (e : NormalizedEvent) : Prop :=
  Stored e (((writeEvent e).run (handleLink pg) l).1, ((writeEvent e).run (handleLink pg) l).2.session)

section
variable {pg : Pg} {l : Link} {e : NormalizedEvent}

theorem after_cons (pg : Pg) (l : Link) (e : NormalizedEvent) (events : List NormalizedEvent) :
    l.after pg (e :: events) = Link.after pg ((writeEvent e).run (handleLink pg) l).2 events := by
  show (run (handleLink pg) (tryWriteEvent e >>= fun _ => writerLoop events) l).2 = _
  rw [run_bind, tryWriteEvent, run_ignore]
  rfl

theorem after_append (pg : Pg) (l : Link) (events more : List NormalizedEvent) :
    l.after pg (events ++ more) = (l.after pg events).after pg more := by
  induction events generalizing l with
  | nil => rfl
  | cons e events ih => rw [List.cons_append, after_cons, after_cons, ih]

theorem after_closed (h : l.line = .closed) (events : List NormalizedEvent) : (l.after pg events).line = .closed :=
  run_closed _ h

theorem not_stores_of_closed (h : l.line = .closed) : ¬l.Stores pg e := by
  have hraises : ((writeEvent e).run (handleLink pg) l).1 = .error .operational := by
    unfold writeEvent transaction
    rw [run_bind, run_exec, handleLink_raises rfl h]
  unfold Link.Stores
  rw [hraises]
  exact id

theorem Session.Calm.handleLink (pg : Pg) (c : Cmd) (h : l.session.Calm) : (handleLink pg c l).2.session.Calm := by
  unfold LogMgmt.handleLink
  split
  · split
    · exact h.handle pg c
    · split
      · exact h.handle pg c
      · exact fun n => h (n + 1)
    · exact fun n => h (n + 1)
  · exact h.handle pg c

theorem Session.Calm.run_link {α : Type} (pg : Pg) (p : App α) (h : l.session.Calm) :
    (p.run (LogMgmt.handleLink pg) l).2.session.Calm := by
  induction p generalizing l with
  | ret a => exact h
  | raise e => exact h
  | call c k ih => exact ih _ (h.handleLink pg c)

/-- While the connection is there, what the table takes is stored. -/
theorem stores_of_open (hcalm : l.session.Calm) (hacc : e.accepted) (hopen : (l.after pg [e]).line ≠ .closed) :
    l.Stores pg e := by
  rw [after_cons] at hopen
  obtain ⟨hanswer, hsession⟩ := run_open (writeEvent e) hopen
  unfold Link.Stores
  rw [hanswer, hsession]
  exact (stored_iff hcalm).2 hacc

end

/-- The event in whose write the connection turns out to be closed is the last one: every acceptable event after it
is stored exactly if there is none. Those before it are stored. -/
theorem stored_after_closure_iff (pg : Pg) (l : Link) (before : List NormalizedEvent) (e : NormalizedEvent)
    (later : List NormalizedEvent) (hopen : (l.after pg before).line ≠ .closed)
    (hclosed : (l.after pg (before ++ [e])).line = .closed) :
    ((∀ done e' rest, later = done ++ e' :: rest → e'.accepted → (l.after pg (before ++ e :: done)).Stores pg e') ↔
        ∀ e' ∈ later, e'.accepted = false) ∧
      (l.session.Calm → ∀ done e' rest, before = done ++ e' :: rest → e'.accepted → (l.after pg done).Stores pg e') := by
  refine ⟨⟨fun h e' he' => ?_, fun h done e' rest hlater hacc => ?_⟩, fun hcalm done e' rest hbefore hacc => ?_⟩
  · by_contra hacc
    obtain ⟨done, rest, rfl⟩ := List.append_of_mem he'
    have hline : (l.after pg (before ++ e :: done)).line = .closed := by
      rw [← List.singleton_append, ← List.append_assoc, after_append]
      exact after_closed hclosed done
    exact not_stores_of_closed hline (h done e' rest rfl (by simpa using hacc))
  · have hmem : e' ∈ later := by simp [hlater]
    rw [h e' hmem] at hacc
    cases hacc
  · refine stores_of_open (hcalm.run_link pg (writerLoop done)) hacc fun hc => hopen ?_
    have hsplit : before = (done ++ [e']) ++ rest := by simp [hbefore]
    rw [hsplit, after_append, after_append]
    exact after_closed hc rest

theorem stored_after_closure_sample :
    let l : Link := ⟨.fresh, .up 4 false⟩
    ((∀ done e' rest, [NormalizedEvent.sample] = done ++ e' :: rest → e'.accepted →
        (l.after World.sample.pg ([NormalizedEvent.sample] ++ NormalizedEvent.sample :: done)).Stores World.sample.pg e') ↔
      ∀ e' ∈ [NormalizedEvent.sample], e'.accepted = false) ∧
      (l.session.Calm → ∀ done e' rest, [NormalizedEvent.sample] = done ++ e' :: rest → e'.accepted →
        (l.after World.sample.pg done).Stores World.sample.pg e') :=
  stored_after_closure_iff World.sample.pg _ [.sample] .sample [.sample] (by decide) (by decide)

/-- The connection is closed before the first event; the second is acceptable and not stored. -/
theorem writer_never_recovers :
    let l : Link := ⟨.fresh, .up 0 false⟩
    (l.after World.sample.pg [.sample]).line = .closed ∧ NormalizedEvent.sample.accepted ∧
      ¬(l.after World.sample.pg [.sample]).Stores World.sample.pg .sample :=
  ⟨by decide, by decide, not_stores_of_closed (by decide)⟩

/-! ### The alert engine -/

/-- The link after `n` ticks. -/
def Link.ticks (pg : Pg) (url : Option Str) (l : Link) (n : Nat) : Link :=
  ((engineLoop url n).run (handleLink pg) l).2

/-- The next tick evaluates the tenant: it sends the tenant's `SET_TENANT_SQL`. -/
def Link.Evaluates (pg : Pg) (url : Option Str) (l : Link) (tenant : Str) : Prop :=
  ¬Along (handleLink pg) (fun c _ => c ≠ .sql (.setTenant tenant)) (tick url) l

/-- The address meets the tenant's rule and is past its cooldown. -/
def Db.Due (pg : Pg) (db : Db) (now : Time) (tenant : Str) (ip : Inet) : Prop :=
  ∃ rule, db.ruleOf tenant = some rule ∧ ip ∈ (db.detected tenant pg rule now).map (·.srcIp) ∧
    pastCooldown db.alerts tenant rule now ip

section
variable {pg : Pg} {url : Option Str} {l : Link}

theorem tick_closed (pg : Pg) (url : Option Str) (h : l.line = .closed) :
    (tick url).run (handleLink pg) l = (.ok (), ⟨(l.session.skip (.sql .discoverTenants)).abandon, .closed⟩) := by
  unfold tick runOnce
  rw [run_tryCatch, run_bind, sql, run_exec, handleLink_raises rfl h]
  rfl

theorem not_evaluates_of_closed (h : l.line = .closed) (tenant : Str) : ¬l.Evaluates pg url tenant := by
  refine not_not.2 ⟨nofun, ?_⟩
  rw [handleLink_raises rfl h]
  trivial

theorem run_engineLoop {σ : Type} (h : Prog.Handler Cmd.Answer σ) (url : Option Str) (n : Nat) (s : σ) :
    ((engineLoop url n).run h s).1 = .ok () := by
  induction n with
  | zero => rfl
  | succ n ih =>
    rw [engineLoop, run_bind]
    rcases hn : (engineLoop url n).run h s with ⟨_ | _, s'⟩ <;> rw [hn] at ih
    · exact ih
    · exact congrArg Prod.fst (run_ignore (runOnce url))

theorem ticks_succ (pg : Pg) (url : Option Str) (l : Link) (n : Nat) :
    l.ticks pg url (n + 1) = ((tick url).run (handleLink pg) (l.ticks pg url n)).2 := by
  have hok := run_engineLoop (handleLink pg) url n l
  unfold Link.ticks
  rw [engineLoop, run_bind]
  rcases hn : (engineLoop url n).run (handleLink pg) l with ⟨_ | ⟨⟨⟩⟩, _⟩
  · rw [hn] at hok
    cases hok
  · rfl

end

/-- Once the connection is closed, the next tick evaluates every tenant of `users` exactly if there is none, and every
address that is due gets its alert exactly if none is. -/
theorem evaluated_after_closure_iff (pg : Pg) (url : Option Str) (l : Link) (n : Nat)
    (hclosed : (l.ticks pg url n).line = .closed) :
    let l' := l.ticks pg url n
    let db := l'.session.interfere.db
    let db' := (l.ticks pg url (n + 1)).session.db
    ((∀ tenant ∈ db.users.map (·.tenant), l'.Evaluates pg url tenant) ↔ db.users = []) ∧
      ((∀ tenant ∈ db.users.map (·.tenant), ∀ ip, db.Due pg (l'.session.nature 0).now tenant ip →
          ∃ a ∈ db'.alerts, a ∉ db.alerts ∧ a.tenant = tenant ∧ a.srcIp = ip) ↔
        ∀ tenant ∈ db.users.map (·.tenant), ∀ ip, ¬db.Due pg (l'.session.nature 0).now tenant ip) := by
  intro l' db db'
  have hdb : db' = db := by
    show (l.ticks pg url (n + 1)).session.db = _
    rw [ticks_succ, tick_closed pg url hclosed]
    rfl
  refine ⟨⟨fun h => ?_, fun h => by simp [h]⟩,
    ⟨fun h tenant ht ip hdue => ?_, fun h tenant ht ip hdue => absurd hdue (h tenant ht ip)⟩⟩
  · by_contra hne
    obtain ⟨u, hu⟩ := List.exists_mem_of_ne_nil _ hne
    exact not_evaluates_of_closed hclosed _ (h u.tenant (List.mem_map_of_mem hu))
  · obtain ⟨a, ha, hnew, -⟩ := h tenant ht ip hdue
    rw [hdb] at ha
    exact hnew ha

theorem evaluated_after_closure_sample :
    let l' : Link := Link.ticks World.sample.pg none ⟨{ Session.fresh with db := .sample }, .up 0 false⟩ 1
    (∀ tenant ∈ l'.session.interfere.db.users.map (·.tenant), l'.Evaluates World.sample.pg none tenant) ↔
      l'.session.interfere.db.users = [] :=
  (evaluated_after_closure_iff World.sample.pg none ⟨{ Session.fresh with db := .sample }, .up 0 false⟩ 1 (by decide)).1

/-- The connection is closed in the first tick. The second one evaluates nobody, though an address is due. -/
theorem engine_never_recovers :
    let l' : Link := Link.ticks World.sample.pg none ⟨{ Session.fresh with db := .sample }, .up 0 false⟩ 1
    str "demoA" ∈ l'.session.interfere.db.users.map (·.tenant) ∧
      l'.session.interfere.db.Due World.sample.pg (l'.session.nature 0).now (str "demoA") (.v4 0x0A000001 32) ∧
      ¬l'.Evaluates World.sample.pg none (str "demoA") ∧
      (Link.ticks World.sample.pg none ⟨{ Session.fresh with db := .sample }, .up 0 false⟩ 2).session.db.alerts = [] :=
  ⟨by decide, ⟨⟨1, 1, 300, 900⟩, by decide, by decide, by decide⟩, not_evaluates_of_closed (by decide) _, by decide⟩

end LogMgmt
