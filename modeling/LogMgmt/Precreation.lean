import LogMgmt.Daily

/-!
# Creating partitions ahead

A call of `create_daily_partitions` reaches every day of its range unless an earlier event of a day without a
partition lies in `events_default`, and from then on no call whose range has that day succeeds.
-/

namespace LogMgmt
namespace EventsTable
variable [SessionZone] {t t' : EventsTable} {days : List Int} {day today daysBack daysAhead : Int}

/-- The call succeeds, and then every day of its range has its partition. -/
def Covers (t : EventsTable) (today daysBack daysAhead : Int) : Prop :=
  ∃ t', t.createDailyPartitions today daysBack daysAhead = .ok t' ∧
    ∀ day, today - daysBack ≤ day → day ≤ today + daysAhead → t'.Has day

/-- Each day of the range has its partition, or has its name unused and no row in `events_default`. -/
structure Open (t : EventsTable) (start stop : Int) : Prop where
  startOk : timestampOk start
  stopOk : timestampOk stop
  each : ∀ day, start ≤ day → day ≤ stop → t.Has day ∨ ¬t.hasName (partitionName day) ∧ t.Free day
  names : Set.InjOn partitionName {day | start ≤ day ∧ day ≤ stop}

theorem Daily.open_of_covers (h : t.Daily days) (hcov : t.Covers today daysBack daysAhead) :
    t.Open (today - daysBack) (today + daysAhead) := by
  obtain ⟨t', hok, hhas⟩ := hcov
  obtain ⟨new, rfl, hd, hnew⟩ := h.createDailyPartitions hok
  have hmem : ∀ day, today - daysBack ≤ day → day ≤ today + daysAhead → day ∈ days ++ new :=
    fun day hlo hhi => hd.has.1 (hhas day hlo hhi)
  have hstart : timestampOk (today - daysBack) && timestampOk (today + daysAhead) := by
    by_contra hstart
    rw [EventsTable.createDailyPartitions, if_pos (by rw [Bool.not_eq_true', Bool.eq_false_iff.2 hstart])] at hok
    cases hok
  rw [Bool.and_eq_true] at hstart
  refine ⟨hstart.1, hstart.2, fun day hlo hhi => ?_, fun day hday day' hday' hname => ?_⟩
  · rcases List.mem_append.1 (hmem day hlo hhi) with hday | hday
    · exact .inl (h.has.2 hday)
    · refine .inr ⟨fun hname => ?_, (hnew day hday).2⟩
      have hdisj := List.disjoint_of_nodup_append (List.map_append ▸ hd.names)
      exact hdisj (h.hasName.1 hname) (List.mem_map_of_mem hday)
  · exact hd.eq_of_name (hmem day hday.1 hday.2) (hmem day' hday'.1 hday'.2) hname

theorem Daily.covers_of_open (h : t.Daily days) (hopen : t.Open (today - daysBack) (today + daysAhead)) :
    t.Covers today daysBack daysAhead := by
  have hrange : ∀ day ∈ series (today - daysBack) (today + daysAhead),
      partitionName day ∈ days.map partitionName ∨ t.Free day := by
    intro day hday
    rw [mem_series] at hday
    rcases hopen.each day hday.1 hday.2 with hhas | ⟨-, hfree⟩
    · exact .inl (List.mem_map_of_mem (h.has.1 hhas))
    · exact .inr hfree
  obtain ⟨t', hok⟩ := h.createDays_isOk hrange
  refine ⟨t', ?_, fun day hlo hhi => ?_⟩
  · rw [EventsTable.createDailyPartitions, if_neg (by rw [hopen.startOk, hopen.stopOk]; decide), hok]
  · obtain ⟨new, rfl, hd, hnew, hnames⟩ := h.createDays_ok hok
    obtain ⟨day', hday', hname⟩ := List.mem_map.1 (hnames day (mem_series.2 ⟨hlo, hhi⟩))
    rw [hd.has]
    rcases List.mem_append.1 hday' with hday' | hday'
    · -- the name is taken, so the day has its partition already
      have htaken : t.hasName (partitionName day) := h.hasName.2 (hname ▸ List.mem_map_of_mem hday')
      rcases hopen.each day hlo hhi with hhas | ⟨hfree, -⟩
      · exact List.mem_append_left _ (h.has.1 hhas)
      · exact absurd htaken hfree
    · have : day' = day := hopen.names (mem_series.1 (hnew day' hday').1) ⟨hlo, hhi⟩ hname
      exact this ▸ List.mem_append_right _ hday'

theorem Daily.covers_iff (h : t.Daily days) : t.Covers today daysBack daysAhead ↔
    t.Open (today - daysBack) (today + daysAhead) :=
  ⟨h.open_of_covers, h.covers_of_open⟩

/-- In every state reached, a call covers its range exactly if the range is open. -/
theorem create_covers_iff (actions : List Action) (today daysBack daysAhead : Int) :
    (run {} actions).Covers today daysBack daysAhead ↔
      (run {} actions).Open (today - daysBack) (today + daysAhead) := by
  obtain ⟨days, h, -⟩ := Daily.empty.run actions
  exact h.covers_iff

/-- An event whose source has its clock eight days ahead. -/
def skewedEvent : EventRow where
  id := 1
  tenant := str "acme"
  eventTime := SessionZone.utc.midnight 20353
  source := str "api"
  eventType := str "login"
  ingestedAt := SessionZone.utc.midnight 20345

omit [SessionZone] in
/-- The event falls on the day after the range of the last call, and keeps the next day's call from succeeding. -/
theorem create_blocked : letI : SessionZone := .utc
    ¬(run {} [.create 20345 1 7, .insert skewedEvent]).Covers 20346 1 7 := by
  have herr : (letI : SessionZone := .utc
      (run {} [.create 20345 1 7, .insert skewedEvent]).createDailyPartitions 20346 1 7) = .error .defaultViolated := rfl
  rintro ⟨t, hok, -⟩
  cases herr.symm.trans hok

/-! ### From then on -/

/-- The day has no partition, and `events_default` has a row of it. -/
structure Blocked (t : EventsTable) (day : Int) : Prop where
  not_has : ¬t.Has day
  row : ∃ e ∈ t.defaultRows, dayOf e.eventTime = day

theorem Blocked.not_open (h : t.Blocked day) {start stop : Int} (hlo : start ≤ day) (hhi : day ≤ stop) :
    ¬t.Open start stop := by
  intro hopen
  obtain ⟨e, he, hday⟩ := h.row
  rcases hopen.each day hlo hhi with hhas | ⟨-, hfree⟩
  · exact h.not_has hhas
  · exact hfree.rows e he hday

theorem Blocked.step (h : t.Blocked day) (hd : t.Daily days) (a : Action) : (t.step a).Blocked day := by
  obtain ⟨e, he, hday⟩ := h.row
  obtain ⟨days', hd', hfrom, hrows⟩ := hd.step a
  refine ⟨fun hhas => ?_, e, hrows e he, hday⟩
  rcases hfrom day (hd'.has.1 hhas) with hmem | ⟨-, hfree⟩
  · exact h.not_has (hd.has.2 hmem)
  · exact hfree.rows e he hday

theorem Blocked.run (h : t.Blocked day) (hd : t.Daily days) (actions : List Action) :
    (t.run actions).Blocked day := by
  induction actions generalizing t days with
  | nil => exact h
  | cons a actions ih =>
    obtain ⟨days', hd', -⟩ := hd.step a
    exact ih (h.step hd a) hd'

/-- A blocked day stays blocked, whatever is called: neither function moves a row out of `events_default`. -/
theorem create_blocked_forever {earlier : List Action} (h : (run {} earlier).Blocked day) (later : List Action)
    (hlo : today - daysBack ≤ day) (hhi : day ≤ today + daysAhead) :
    ¬((run {} earlier).run later).Covers today daysBack daysAhead := by
  obtain ⟨days, hd, -⟩ := Daily.empty.run earlier
  obtain ⟨days', hd', -⟩ := hd.run later
  exact fun hcov => (h.run hd later).not_open hlo hhi (hd'.open_of_covers hcov)

/-! ### From the year 1 on -/

/-- Where no call has asked for a date before Christ, only rows of `events_default` stand in the way. -/
theorem create_covers_iff_rows {actions : List Action} (had : ∀ a ∈ actions, ∀ day, a.Asks day → -719162 ≤ day)
    (hstart : -719162 ≤ today - daysBack) (hstop : timestampOk (today + daysAhead + 1)) (hback : 0 ≤ daysBack)
    (hahead : 0 ≤ daysAhead) : (run {} actions).Covers today daysBack daysAhead ↔
      ∀ day, today - daysBack ≤ day → day ≤ today + daysAhead →
        (run {} actions).Has day ∨ ∀ e ∈ (run {} actions).defaultRows, dayOf e.eventTime ≠ day := by
  have hok : ∀ day, today - daysBack ≤ day → day ≤ today + daysAhead + 1 → timestampOk day := by
    intro day hlo hhi
    simp only [timestampOk, Bool.and_eq_true, decide_eq_true_eq] at hstop ⊢
    omega
  obtain ⟨days, h, -⟩ := Daily.empty.run actions
  rw [h.covers_iff]
  constructor
  · intro hopen day hlo hhi
    rcases hopen.each day hlo hhi with hhas | ⟨-, hfree⟩
    · exact .inl hhas
    · exact .inr hfree.rows
  · intro hrows
    refine ⟨hok _ le_rfl (by omega), hok _ (by omega) (by omega), fun day hlo hhi => ?_, ?_⟩
    · by_cases hhas : (run {} actions).Has day
      · exact .inl hhas
      · refine .inr ⟨fun hn => hhas ((hasName_iff_has had (hstart.trans hlo)).1 hn), ?_, ?_, ?_⟩
        · exact hok day hlo (by omega)
        · exact hok (day + 1) (by omega) (by omega)
        · exact (hrows day hlo hhi).resolve_left hhas
    · intro day hday day' hday' heq
      exact partitionName_injOn (hstart.trans hday.1) (hstart.trans hday'.1) heq

end EventsTable

end LogMgmt
