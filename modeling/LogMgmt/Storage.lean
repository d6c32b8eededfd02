import LogMgmt.Api
import LogMgmt.Dispatcher
import LogMgmt.Transactions

/-!
# Storing a normalized event

`write_event` on a working connection stores the event that `normalize` returned exactly when what it
copied out of its input is `storable`.
-/

namespace LogMgmt
open Prog

/-- The write has returned, and the event is a committed row. -/
def Stored (e : NormalizedEvent) : Except Exn Unit × Session → Prop
  | (.ok _, s) => ∃ cols, EventColumns.ofParams e = .ok cols ∧ ∃ row ∈ s.db.events, row.toEventFields = cols
  | (.error _, _) => False

section
variable {pg : Pg} {s : Session} {e : NormalizedEvent}

/-- The table takes the event: its columns have values, and the CHECK constraints hold. -/
def EventFields.accepted (e : NormalizedEvent) : Bool := (EventColumns.ofParams e).toOption.any (·.checked)

theorem EventFields.accepted_iff : e.accepted ↔ ∃ cols, EventColumns.ofParams e = .ok cols ∧ cols.checked := by
  unfold EventFields.accepted
  cases EventColumns.ofParams e <;> simp [Except.toOption]

/-- The columns take the event's time as it is. -/
theorem ofParams_clock {cols : EventColumns} (h : EventColumns.ofParams e = .ok cols) (now : DateTime) :
    cols.eventTime = e.eventTime.instant ∧
      EventColumns.ofParams { e with eventTime := now } = .ok { cols with eventTime := now.instant } := by
  have htexts : EventFields.texts { e with eventTime := now } = e.texts := rfl
  unfold EventColumns.ofParams at h ⊢
  rw [htexts]
  dsimp only
  cases ht : e.texts.all textOk <;> rw [ht] at h
  · cases h
  cases hj : jsonbOk (.dict e.raw) <;> rw [hj] at h
  · cases h
  cases hstatus : e.statusCode.all int4Ok <;> rw [hstatus] at h
  · cases h
  cases h
  exact ⟨rfl, rfl⟩

theorem accepted_clock (e : NormalizedEvent) (now : DateTime) :
    EventFields.accepted { e with eventTime := now } = e.accepted := by
  cases h : EventColumns.ofParams e with
  | ok cols => simp [EventFields.accepted, h, (ofParams_clock h now).2, Except.toOption, EventFields.checked]
  | error err =>
    cases h' : EventColumns.ofParams { e with eventTime := now } with
    | error err' => simp [EventFields.accepted, h, h', Except.toOption]
    | ok cols =>
      have := (ofParams_clock h' e.eventTime).2
      rw [h] at this
      cases this

theorem EventFields.textOk_of_accepted (h : e.accepted) : textOk e.tenant := by
  obtain ⟨cols, hcols, -⟩ := EventFields.accepted_iff.1 h
  unfold EventColumns.ofParams at hcols
  cases htexts : e.texts.all textOk with
  | false =>
    rw [htexts] at hcols
    cases hcols
  | true => exact List.all_eq_true.1 htexts _ (by simp [EventFields.texts])

theorem exec_insertEvent_ok {ctx : Ctx} {db : Db} {ws : List Write}
    (h : (Stmt.insertEvent e).exec pg ctx db = .ok ((), ws)) : ∃ row : EventRow,
      EventColumns.ofParams e = .ok row.toEventFields ∧ row.checked ∧ ws = [.insertEvent row] := by
  simp only [Stmt.exec] at h
  split at h
  · cases h
  · rename_i cols hcols
    split_ifs at h with hrls hchecked
    cases h
    exact ⟨_, hcols, by simpa using hchecked, rfl⟩

/-- Under the tenant's setting INSERT takes what the table takes. -/
theorem exec_insertEvent_isOk {ctx : Ctx} {db : Db} (hctx : ctx.tenant = some e.tenant) :
    ((Stmt.insertEvent e).exec pg ctx db).isOk = e.accepted := by
  unfold EventFields.accepted
  simp only [Stmt.exec, hctx]
  cases EventColumns.ofParams e with
  | error err => rfl
  | ok cols => cases hc : cols.checked <;> simp [rls, Except.toOption, Except.isOk, Except.toBool, hc]

/-- In the transaction of `write_event`, after `n` commands. -/
structure Writing (s₀ : Session) (n : Nat) (ws : List Write) (s : Session) : Prop where
  status : s.conn.status = .inTx
  pending : s.pending = ws
  nature : ∀ k, s.nature k = s₀.nature (n + k)

namespace Writing
variable {s₀ s' : Session} {n : Nat} {ws : List Write}

theorem opened (s₀ : Session) : Writing s₀ 1 [] s₀.opened where
  status := rfl
  pending := rfl
  nature k := by
    rw [Nat.add_comm]
    rfl

theorem ran (h : Writing s₀ n ws s) (stmt : Stmt) (r : stmt.Resp) (ws' : List Write) :
    Writing s₀ (n + 1) (ws ++ ws') (s.ran stmt r ws') where
  status := Session.ran_status h.status stmt r ws'
  pending := congrArg (· ++ ws') h.pending
  nature k := by
    show s.nature (k + 1) = _
    rw [h.nature]
    congr 1
    omega

/-- A statement that can be carried out raises only if the command fails. -/
theorem fault_of_error (h : Writing s₀ n ws s) {stmt : Stmt} {err : Exn} (hh : handle pg (.sql stmt) s = (.error err, s'))
    (hok : (stmt.exec pg s.interfere.ctx s.interfere.view).isOk) : (s₀.nature n).fault = true := by
  have hfault : (s.nature 0).fault = (s₀.nature n).fault := by rw [h.nature, Nat.add_zero]
  obtain ⟨⟨r, w⟩, hx⟩ := exists_of_isOk hok
  rw [← hfault]
  cases hf : (s.nature 0).fault with
  | true => rfl
  | false =>
    rw [Session.handle_sql hf h.status hx] at hh
    cases hh

theorem no_fault (h : Writing s₀ n ws s) (hf : (s.nature 0).fault = false) : (s₀.nature n).fault = false := by
  rw [← hf, h.nature, Nat.add_zero]

theorem commit {row : EventRow} (pg : Pg) (rows : List EventRow) (h : Writing s₀ n [.insertEvent row] s) :
    Ends
      (fun _ t => (s₀.nature n).fault = false ∧ (∀ k, t.1.nature k = s₀.nature (n + 1 + k)) ∧ t.1.conn.status = .idle ∧
        row ∈ t.1.db.events ∧ t.2 = rows ++ [row])
      (fun _ t => (s₀.nature n).fault = true ∧ t.2 = rows) (handleAdded pg .commit (s, rows)) := by
  have hfault : (s.nature 0).fault = (s₀.nature n).fault := by rw [h.nature, Nat.add_zero]
  cases hf : (s.nature 0).fault with
  | true =>
    rw [handleAdded_of_eq (Session.handle_commit_fault pg hf h.status) rfl, ends_error]
    exact ⟨hfault.symm.trans hf, rfl⟩
  | false =>
    have hview : s.committed.db.events = s.interfere.db.events ++ [row] := by
      show s.interfere.view.events = _
      rw [Session.view, Session.interfere_pending, h.pending]
      rfl
    rw [handleAdded_of_append (Session.handle_commit pg hf h.status) hview, ends_ok]
    refine ⟨hfault.symm.trans hf, fun k => ?_, rfl, by rw [hview]; simp, rfl⟩
    show s.nature (k + 1) = _
    rw [h.nature]
    congr 1
    omega

end Writing

theorem Session.Raised.events {s' : Session} {stmt : Stmt} {err : Exn} (h : s.Raised stmt err s') :
    s'.db.events = s.interfere.db.events := by
  rcases h.db with hdb | hdb <;> rw [hdb]

/-- `write_event` commits the row, in four commands, or it raises: one of them fails, or the table rejects the event. -/
theorem wp_writeEvent_added (pg : Pg) (e : NormalizedEvent) (s : Session) (rows : List EventRow) :
    wp (handleAdded pg) (writeEvent e)
      (fun _ t => (∀ n < 4, (s.nature n).fault = false) ∧ (∀ k, t.1.nature k = s.nature (4 + k)) ∧
        t.1.conn.status = .idle ∧ ∃ row : EventRow, EventColumns.ofParams e = .ok row.toEventFields ∧ row.checked ∧
          row ∈ t.1.db.events ∧ t.2 = rows ++ [row])
      (fun _ t => (e.accepted → ∃ n < 4, (s.nature n).fault = true) ∧ t.2 = rows) (s, rows) := by
  unfold writeEvent
  rw [wp_transaction]
  cases hf₀ : (s.nature 0).fault with
  | true =>
    rw [handleAdded_of_eq (Session.handle_begin_fault pg hf₀) rfl, ends_error]
    exact ⟨fun _ => ⟨0, by decide, hf₀⟩, rfl⟩
  | false =>
  rw [handleAdded_of_eq (Session.handle_begin pg hf₀) rfl, ends_ok, wp_withConn, wp_bind, wp_sql]
  have h₁ := Writing.opened s
  have hrollback : ∀ s' : Session, (handleAdded pg .rollback (s', rows)).2.2 = rows := fun s' => by
    have h : handleAdded pg .rollback (s', rows) = ((handle pg .rollback s').1, (handle pg .rollback s').2, rows) :=
      handleAdded_of_eq rfl rfl
    rw [h]
  rcases Session.handle_sql_cases pg h₁.status (.setTenant e.tenant) with ⟨r, ws, hf₁, hx, hh⟩ | ⟨err, s', hh, hr⟩
  swap
  · rw [handleAdded_of_eq hh hr.events, ends_error]
    refine ⟨fun hacc => ⟨1, by decide, h₁.fault_of_error hh ?_⟩, hrollback s'⟩
    have hx : (Stmt.setTenant e.tenant).exec pg s.opened.interfere.ctx s.opened.interfere.view = .ok ((), []) :=
      if_pos (EventFields.textOk_of_accepted hacc)
    rw [hx]
    rfl
  obtain rfl : ws = [] := by
    cases Stmt.exec_writes hx
    rfl
  rw [handleAdded_of_eq hh rfl, ends_ok, wp_sql]
  have h₂ := h₁.ran (.setTenant e.tenant) r []
  have hset : (s.opened.ran (.setTenant e.tenant) r []).conn.tenant = some e.tenant := rfl
  have hf₁' := h₁.no_fault hf₁
  revert h₂ hset
  generalize s.opened.ran (.setTenant e.tenant) r [] = s₂
  intro h₂ hset
  rcases Session.handle_sql_cases pg h₂.status (.insertEvent e) with ⟨r, ws, hf₂, hx, hh⟩ | ⟨err, s', hh, hr⟩
  swap
  · rw [handleAdded_of_eq hh hr.events, ends_error]
    exact ⟨fun hacc => ⟨2, by decide, h₂.fault_of_error hh ((exec_insertEvent_isOk hset).trans hacc)⟩, hrollback s'⟩
  obtain ⟨row, hrow, hchecked, rfl⟩ := exec_insertEvent_ok hx
  rw [handleAdded_of_eq hh rfl, ends_ok]
  have h₃ := (h₂.ran (.insertEvent e) r [.insertEvent row]).commit pg rows
  have hf₂' := h₂.no_fault hf₂
  revert h₃
  rcases handleAdded pg .commit (s₂.ran (.insertEvent e) r [.insertEvent row], rows) with ⟨_ | _, t⟩
  · rintro ⟨hfault, hrows⟩
    exact ⟨fun _ => ⟨3, by decide, hfault⟩, hrows⟩
  · rintro ⟨hf₃, hnature, hidle, hmem, hrows⟩
    refine ⟨fun n hn => ?_, hnature, hidle, row, hrow, hchecked, hmem, hrows⟩
    have hcases : n = 0 ∨ n = 1 ∨ n = 2 ∨ n = 3 := by omega
    rcases hcases with rfl | rfl | rfl | rfl
    · exact hf₀
    · exact hf₁'
    · exact hf₂'
    · exact hf₃

/-- `write_event` commits the row or raises; on a connection that works it raises only where the table rejects
the event. -/
theorem wp_writeEvent (pg : Pg) (e : NormalizedEvent) (s : Session) :
    wp (handle pg) (writeEvent e)
      (fun _ s' => s'.conn.status = .idle ∧ ∃ row : EventRow, EventColumns.ofParams e = .ok row.toEventFields ∧
        row.checked ∧ row ∈ s'.db.events ∧ (s.Alone → s'.db.events = s.db.events ++ [row]))
      (fun _ s' => (s.Calm → e.accepted = false) ∧ (s.Alone → s'.db.events = s.db.events)) s := by
  have halone : wp (handleAdded pg) (writeEvent e) (fun _ t => s.Alone → t.1.db.events = s.db.events ++ t.2)
      (fun _ t => s.Alone → t.1.db.events = s.db.events ++ t.2) (s, []) := by
    by_cases h : s.Alone
    · exact wp_mono (h.wp_added pg (writeEvent e)) (fun _ _ ht _ => ht) fun _ _ ht _ => ht
    · exact wp_mono (wp_writeEvent_added pg e s []) (fun _ _ _ hs => absurd hs h) fun _ _ _ hs => absurd hs h
  refine (wp_recorded (t := (s, []))).1 (wp_mono (wp_and (wp_writeEvent_added pg e s []) halone) ?_ ?_)
  · rintro _ t ⟨⟨-, -, hidle, row, hrow, hchecked, hmem, hrows⟩, hevents⟩
    exact ⟨hidle, row, hrow, hchecked, hmem, fun hs => by rw [hevents hs, hrows, List.nil_append]⟩
  · rintro _ t ⟨⟨hfault, hrows⟩, hevents⟩
    refine ⟨fun hcalm => Bool.eq_false_iff.2 fun hacc => ?_, fun hs => ?_⟩
    · obtain ⟨n, -, hn⟩ := hfault hacc
      rw [hcalm] at hn
      cases hn
    · rw [hevents hs, hrows, List.append_nil]

/-- On a connection that works, a write is stored exactly when the table takes the event. -/
theorem stored_iff (hcalm : s.Calm) : Stored e ((writeEvent e).run (handle pg) s) ↔ e.accepted := by
  have h := wp_writeEvent pg e s
  unfold wp at h
  rcases hr : (writeEvent e).run (handle pg) s with ⟨_ | _, s'⟩ <;> rw [hr] at h
  · exact iff_of_false id (by rw [h.1 hcalm]; decide)
  · obtain ⟨-, row, hrow, hchecked, hmem, -⟩ := h
    exact iff_of_true ⟨_, hrow, row, hmem, rfl⟩ (EventFields.accepted_iff.2 ⟨_, hrow, hchecked⟩)

/-- The table takes what `normalize` returned for a non-empty tenant exactly when its input is storable. -/
theorem accepted_normalized (pg : Pg) {py : Py} (hpy : py.Lawful) {hint : PyVal} {payload : Payload} {tenant : PyVal}
    {now : DateTime} (h : normalize py hint payload tenant now = .ok e) (hne : e.tenant ≠ []) :
    e.accepted = storable py hint payload tenant := by
  have hisOk : ((Stmt.insertEvent e).exec pg ⟨0, some e.tenant, .stable⟩ {}).isOk = storable py hint payload tenant :=
    insertEvent_normalized hpy h hne rfl
  rw [← hisOk, exec_insertEvent_isOk rfl]

/-- What `normalize` returned for a non-empty tenant is stored exactly when its input is storable. -/
theorem write_normalized_iff {py : Py} (hpy : py.Lawful) (hint : PyVal) (payload : Payload) (tenant : PyVal)
    (now : DateTime) (h : normalize py hint payload tenant now = .ok e) (hne : e.tenant ≠ [])
    (hcalm : s.Calm) : Stored e ((writeEvent e).run (handle pg) s) ↔ storable py hint payload tenant := by
  rw [stored_iff hcalm, accepted_normalized pg hpy h hne]

/-- A connection of the batch loader on an empty database. -/
def Session.fresh : Session where
  db := {}
  conn := { autocommit := true }
  nature _ := {}

/-- An event of the source `api` with more keys. -/
def Payload.sample (more : PyDict) : Payload :=
  .dict ([(some (str "@timestamp"), .str (str "2025-08-20T07:20:00Z")),
    (some (str "event_type"), .str (str "app_login_failed"))] ++ more)

theorem exists_sample (more : PyDict) : ∃ e, normalize Py.sample (.str (str "api")) (.sample more)
    (.str (str "demoA")) ⟨0, some 0⟩ = .ok e ∧ e.tenant ≠ [] := by
  obtain ⟨e, he⟩ : ∃ e, normalize Py.sample (.str (str "api")) (.sample more) (.str (str "demoA")) ⟨0, some 0⟩ =
      .ok e := by
    rcases normalize_cases Py.sample (.str (str "api")) (.sample more) (.str (str "demoA")) ⟨0, some 0⟩ with
      ⟨source, _, hn, hok, _⟩ | ⟨_, _, reason, _, hn⟩ | ⟨_, hh, _⟩
    · rw [hn]
      cases hs : source.normalize Py.sample (.sample more) (.str (str "demoA")) with
      | ok e => exact ⟨e, rfl⟩
      | error exc => rw [hs] at hok; cases hok
    · rw [hn]; exact ⟨_, rfl⟩
    · cases hh
  refine ⟨e, he, fun h => ?_⟩
  have ht := EventArgs.strField_eq_some.1 (normalize_tenant he)
  rw [h] at ht
  exact absurd (PyVal.str.inj ht) (by decide)

/-- The event is stored. -/
theorem write_api_event : ∃ e,
    normalize Py.sample (.str (str "api")) (.sample []) (.str (str "demoA")) ⟨0, some 0⟩ = .ok e ∧
    Stored e ((writeEvent e).run (handle World.sample.pg) .fresh) := by
  obtain ⟨e, he, hne⟩ := exists_sample []
  exact ⟨e, he, (write_normalized_iff Py.sample_lawful _ _ _ _ he hne fun _ => rfl).2 (by decide)⟩

/-- The same event with U+0000 in a field that only `raw` keeps: `normalize` returns it, INSERT rejects it. -/
theorem write_nul_event : ∃ e,
    normalize Py.sample (.str (str "api")) (.sample [(some (str "note"), .str [0])]) (.str (str "demoA"))
      ⟨0, some 0⟩ = .ok e ∧ e.tenant ≠ [] ∧
    ¬ Stored e ((writeEvent e).run (handle World.sample.pg) .fresh) := by
  obtain ⟨e, he, hne⟩ := exists_sample [(some (str "note"), .str [0])]
  refine ⟨e, he, hne, fun h => ?_⟩
  rw [stored_iff fun _ => rfl, accepted_normalized World.sample.pg Py.sample_lawful he hne] at h
  exact absurd h (by decide)

end

end LogMgmt
