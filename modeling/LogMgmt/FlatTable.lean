import LogMgmt.Retention
import LogMgmt.Paging

/-!
# One table

To every other program `events` is one table. `FlatTable` is that table with the days that have a partition: a row is
added whatever its time, a call creates days of which there is no row, and a call drops whole days with all their rows.
The partitioned table of `Partitions` refines it (`partitions_flat`), so what a query selects does not depend on where
the rows lie.
-/

namespace LogMgmt

/-! ### The table without partitions -/

structure FlatTable where
  days : List Int := []
  rows : List EventRow := []

namespace FlatTable
variable [SessionZone]

/-- The rows that do not fall on one of the days. -/
def without (f : FlatTable) (gone : List Int) : FlatTable where
  days := f.days.filter (· ∉ gone)
  rows := f.rows.filter fun e => dayOf e.eventTime ∉ gone

/-- What a call may do. -/
inductive Step (f : FlatTable) : EventsTable.Action → FlatTable → Prop where
  | insert (e : EventRow) : Step f (.insert e) { f with rows := f.rows ++ [e] }
  | create (today daysBack daysAhead : Int) (new : List Int) (hnodup : (f.days ++ new).Nodup)
    (hnew : ∀ day ∈ new, (today - daysBack ≤ day ∧ day ≤ today + daysAhead) ∧ ∀ e ∈ f.rows, dayOf e.eventTime ≠ day) :
    Step f (.create today daysBack daysAhead) { f with days := f.days ++ new }
  | drop (today retainDays : Int) (gone : List Int) (hgone : ∀ day ∈ gone, day ∈ f.days ∧ day < today - retainDays) :
    Step f (.drop today retainDays) (f.without gone)

inductive Run : List EventsTable.Action → FlatTable → Prop where
  | nil : Run [] {}
  | snoc {actions : List EventsTable.Action} {f f' : FlatTable} {a : EventsTable.Action} (h : Run actions f)
    (hs : f.Step a f') : Run (actions ++ [a]) f'

theorem without_nil (f : FlatTable) : f.without [] = f := by
  simp [without]

end FlatTable

/-! ### Refinement -/

namespace EventsTable
variable [SessionZone]

/-- The partitioned table has the days and the rows of the flat one; the rows of a day with a partition are all in it. -/
structure Refines (t : EventsTable) (f : FlatTable) : Prop where
  daily : t.Daily f.days
  placed : t.Placed
  rows : t.rows.Perm f.rows
  elsewhere : ∀ e ∈ t.defaultRows, dayOf e.eventTime ∉ f.days

section
variable {t : EventsTable} {f : FlatTable} {days : List Int}

theorem Daily.contains_iff (h : t.Daily days) {p : Partition} (hp : p ∈ t.partitions) (time : Time) :
    p.contains time ↔ PartitionDef.ofDay (dayOf time) = p.toPartitionDef := by
  obtain ⟨day, -, hday⟩ := h.mem hp
  have hdaily : (PartitionDef.daily (partitionName day) day).contains time ↔ dayOf time = day := PartitionDef.contains_daily
  rw [← hday, PartitionDef.ofDay_injective.eq_iff]
  exact hdaily

theorem Daily.contains_any (h : t.Daily days) (time : Time) : t.partitions.any (·.contains time) ↔ dayOf time ∈ days := by
  rw [List.any_eq_true, ← h.has, Has, EventsTable.catalog, List.mem_map]
  constructor
  · rintro ⟨p, hp, hc⟩
    exact ⟨p, hp, ((h.contains_iff hp time).1 hc).symm⟩
  · rintro ⟨p, hp, hday⟩
    exact ⟨p, hp, (h.contains_iff hp time).2 hday.symm⟩

/-- No two partitions take a row of one time. -/
theorem Daily.contains_once (h : t.Daily days) (time : Time) :
    t.partitions.Pairwise fun p q => ¬(p.contains time ∧ q.contains time) := by
  have hnodup : t.catalog.Nodup := by
    rw [h.catalog, List.nodup_map_iff PartitionDef.ofDay_injective]
    exact h.names.of_map _
  rw [EventsTable.catalog, List.Nodup, List.pairwise_map] at hnodup
  refine hnodup.imp_of_mem fun {p q} hp hq hne hboth => hne ?_
  rw [← (h.contains_iff hp time).1 hboth.1, (h.contains_iff hq time).1 hboth.2]

omit [SessionZone] in
/-- A row that goes to the one partition that takes it. -/
theorem flatMap_insert_perm {partitions : List Partition} {e : EventRow}
    (honce : partitions.Pairwise fun p q => ¬(p.contains e.eventTime ∧ q.contains e.eventTime))
    (hany : partitions.any (·.contains e.eventTime)) :
    ((partitions.map fun p => if p.contains e.eventTime then { p with rows := p.rows ++ [e] } else p).flatMap
      (·.rows)).Perm (partitions.flatMap (·.rows) ++ [e]) := by
  induction partitions with
  | nil => cases hany
  | cons p partitions ih =>
    rw [List.pairwise_cons] at honce
    rw [List.map_cons, List.flatMap_cons, List.flatMap_cons]
    by_cases hp : p.contains e.eventTime
    · have hrest : (partitions.map fun p => if p.contains e.eventTime then { p with rows := p.rows ++ [e] } else p) =
          partitions := (List.map_congr_left fun q hq => if_neg fun hc => honce.1 q hq ⟨hp, hc⟩).trans (List.map_id _)
      rw [if_pos hp, hrest, List.append_assoc, List.append_assoc]
      exact List.Perm.append_left _ List.perm_append_comm
    · rw [if_neg hp, List.append_assoc]
      rw [List.any_cons, Bool.eq_false_iff.2 hp, Bool.false_or] at hany
      exact (ih honce.2 hany).append_left _

omit [SessionZone] in
theorem filter_flatMap_eq {α β : Type} {l : List α} {g : α → List β} {p : β → Bool} {q : α → Bool}
    (h : ∀ a ∈ l, ∀ b ∈ g a, p b = q a) : (l.flatMap g).filter p = (l.filter q).flatMap g := by
  induction l with
  | nil => rfl
  | cons a l ih =>
    have hall := h a List.mem_cons_self
    rw [List.flatMap_cons, List.filter_append, ih fun b hb => h b (List.mem_cons_of_mem _ hb)]
    cases hq : q a with
    | true =>
      rw [List.filter_cons_of_pos hq, List.flatMap_cons, List.filter_eq_self.2 fun b hb => (hall b hb).trans hq]
    | false =>
      rw [List.filter_cons_of_neg (Bool.eq_false_iff.1 hq), List.filter_eq_nil_iff.2 fun b hb =>
        Bool.eq_false_iff.1 ((hall b hb).trans hq), List.nil_append]

theorem Refines.insert (h : t.Refines f) (e : EventRow) : (t.insert e).Refines { f with rows := f.rows ++ [e] } where
  daily := h.daily.insert e
  placed := h.placed.insert e
  rows := by
    refine List.Perm.trans ?_ (h.rows.append_right [e])
    unfold EventsTable.insert EventsTable.rows
    split
    · rename_i hany
      rw [List.append_assoc]
      exact (flatMap_insert_perm (h.daily.contains_once e.eventTime) hany).append_left _
    · dsimp only
      rw [List.append_assoc, List.append_assoc]
      exact List.perm_append_comm.append_left _
  elsewhere e' he' := by
    unfold EventsTable.insert at he'
    split at he'
    · exact h.elsewhere e' he'
    · rename_i hany
      rcases List.mem_append.1 he' with he' | he'
      · exact h.elsewhere e' he'
      · rw [List.mem_singleton.1 he']
        exact fun hday => hany ((h.daily.contains_any e.eventTime).2 hday)

/-- The day of a row is that of its partition, or has none. -/
theorem Refines.mem_rows (h : t.Refines f) {e : EventRow} (he : e ∈ f.rows) :
    dayOf e.eventTime ∈ f.days ∨ e ∈ t.defaultRows := by
  rcases List.mem_append.1 (h.rows.mem_iff.2 he) with he | he
  · exact .inr he
  · obtain ⟨p, hp, he⟩ := List.mem_flatMap.1 he
    exact .inl ((h.daily.contains_any e.eventTime).1 (List.any_eq_true.2 ⟨p, hp, h.placed p hp e he⟩))

theorem Refines.create (h : t.Refines f) {today daysBack daysAhead : Int} {t' : EventsTable}
    (hok : t.createDailyPartitions today daysBack daysAhead = .ok t') :
    ∃ f', f.Step (.create today daysBack daysAhead) f' ∧ t'.Refines f' := by
  obtain ⟨new, rfl, hd, hnew⟩ := h.daily.createDailyPartitions hok
  have hnodup : (f.days ++ new).Nodup := hd.names.of_map _
  have hdisjoint := List.disjoint_of_nodup_append hnodup
  refine ⟨{ f with days := f.days ++ new }, .create today daysBack daysAhead new hnodup fun day hday => ⟨(hnew day hday).1,
    fun e he heq => ?_⟩, hd, h.placed.addDays new, ?_, fun e he hday => ?_⟩
  · rcases h.mem_rows he with hmem | hmem
    · exact hdisjoint (heq ▸ hmem) hday
    · exact (hnew day hday).2.rows e hmem heq
  · rw [rows_addDays]
    exact h.rows
  · rcases List.mem_append.1 hday with hday | hday
    · exact h.elsewhere e he hday
    · exact (hnew _ hday).2.rows e he rfl

/-- Dropping partitions is deleting the rows of their days. -/
theorem Refines.rows_dropped (h : t.Refines f) (keep : List Char → Bool) {gone : List Int}
    (hgone : ∀ day ∈ f.days, day ∈ gone ↔ ¬ keep (partitionName day)) (hsub : ∀ day ∈ gone, day ∈ f.days) :
    (t.defaultRows ++ (t.partitions.filter fun p => keep p.name).flatMap (·.rows)).Perm
      (f.rows.filter fun e => dayOf e.eventTime ∉ gone) := by
  refine List.Perm.trans (List.Perm.of_eq ?_) (h.rows.filter _)
  have hdefault : t.defaultRows.filter (fun e => dayOf e.eventTime ∉ gone) = t.defaultRows :=
    List.filter_eq_self.2 fun e he => decide_eq_true fun hday => h.elsewhere e he (hsub _ hday)
  rw [EventsTable.rows, List.filter_append, hdefault]
  refine congrArg _ (filter_flatMap_eq fun p hp e he => ?_).symm
  have hcontains := h.placed p hp e he
  have hday := (h.daily.contains_any e.eventTime).1 (List.any_eq_true.2 ⟨p, hp, hcontains⟩)
  have hname : p.name = partitionName (dayOf e.eventTime) :=
    (congrArg PartitionDef.name ((h.daily.contains_iff hp _).1 hcontains)).symm
  rw [Bool.eq_iff_iff, decide_eq_true_iff, hgone _ hday, hname, not_not]

theorem Refines.drop (h : t.Refines f) {today retainDays : Int} {t' : EventsTable}
    (hok : t.dropOldPartitions today retainDays = .ok t') :
    ∃ f', f.Step (.drop today retainDays) f' ∧ t'.Refines f' := by
  obtain ⟨rfl, hvalid⟩ := dropOldPartitions_eq hok
  set gone := f.days.filter fun day => Expired today retainDays (partitionName day) with hgone
  have hmem : ∀ day ∈ f.days, day ∈ gone ↔ ¬ !Expired today retainDays (partitionName day) := fun day hday => by
    rw [hgone, List.mem_filter, Bool.not_eq_true', Bool.not_eq_false]
    exact and_iff_right hday
  have hold : ∀ day ∈ gone, day ∈ f.days ∧ day < today - retainDays := by
    intro day hday
    obtain ⟨hday, hexp⟩ := List.mem_filter.1 hday
    obtain ⟨p, hp, hofDay⟩ := List.mem_map.1 (h.daily.has.2 hday)
    have hname : p.name = partitionName day := congrArg PartitionDef.name hofDay
    obtain ⟨date, hdate, hlt⟩ := (Option.any_eq_true _ _).1 hexp
    have hle := le_day_of_partitionDate hdate (hvalid p hp date (hname ▸ hdate))
    exact ⟨hday, hle.trans_lt (of_decide_eq_true hlt)⟩
  have hkept : f.days.filter (fun day => !Expired today retainDays (partitionName day)) = f.days.filter (· ∉ gone) :=
    List.filter_congr fun day hday => by rw [Bool.eq_iff_iff, decide_eq_true_iff, hmem day hday, not_not]
  refine ⟨f.without gone, .drop today retainDays gone hold, ?_, fun p hp => h.placed p (List.mem_of_mem_filter hp),
    h.rows_dropped (fun name => !Expired today retainDays name) hmem fun day hday => (hold day hday).1, fun e he hday => ?_⟩
  · rw [FlatTable.without, ← hkept]
    exact h.daily.filter fun name => !Expired today retainDays name
  · exact h.elsewhere e he (List.mem_of_mem_filter hday)

/-- A call that fails is one that creates or drops nothing. -/
theorem Refines.step (h : t.Refines f) (a : Action) : ∃ f', f.Step a f' ∧ (t.step a).Refines f' := by
  cases a with
  | insert e => exact ⟨_, .insert e, h.insert e⟩
  | create today daysBack daysAhead =>
    rw [EventsTable.step]
    cases hok : t.createDailyPartitions today daysBack daysAhead with
    | ok t' => exact h.create hok
    | error err =>
      refine ⟨{ f with days := f.days ++ [] }, .create today daysBack daysAhead [] ?_ (by simp), ?_⟩
      · rw [List.append_nil]
        exact h.daily.names.of_map _
      · rw [List.append_nil]
        exact h
  | drop today retainDays =>
    rw [EventsTable.step]
    cases hok : t.dropOldPartitions today retainDays with
    | ok t' => exact h.drop hok
    | error err =>
      refine ⟨f.without [], .drop today retainDays [] (by simp), ?_⟩
      rw [FlatTable.without_nil]
      exact h

theorem Refines.empty : Refines {} {} where
  daily := Daily.empty
  placed p hp := by cases hp
  rows := List.Perm.nil
  elsewhere e he := by cases he

theorem refines_run (actions : List Action) : ∃ f, FlatTable.Run actions f ∧ (run {} actions).Refines f := by
  induction actions using List.reverseRecOn with
  | nil => exact ⟨{}, .nil, Refines.empty⟩
  | append_singleton actions a ih =>
    obtain ⟨f, hrun, href⟩ := ih
    obtain ⟨f', hstep, href'⟩ := href.step a
    refine ⟨f', hrun.snoc hstep, ?_⟩
    rw [EventsTable.run, List.foldl_append]
    exact href'

end

/-- Every run of inserts and maintenance calls is one of the flat table, with the same days and the same rows: a search
matches the same events, in whichever partitions they lie. A call of `drop_old_partitions` that succeeds drops all the
days that are too old. -/
theorem partitions_flat (actions : List Action) :
    ∃ f, FlatTable.Run actions f ∧ (run {} actions).rows.Perm f.rows ∧ (∀ day, (run {} actions).Has day ↔ day ∈ f.days) ∧
      (∀ w claims filter (db : Db), (matchingEvents w claims { db with events := (run {} actions).rows } filter).Perm
        (matchingEvents w claims { db with events := f.rows } filter)) ∧
      ∀ today retainDays t', (run {} actions).dropOldPartitions today retainDays = .ok t' →
        ∀ day, NamedYear day → (t'.Has day ↔ day ∈ f.days ∧ today - retainDays ≤ day) := by
  obtain ⟨f, hrun, h⟩ := refines_run actions
  refine ⟨f, hrun, h.rows, fun day => h.daily.has, fun w claims filter db => ?_, fun today retainDays t' hok day hyear => ?_⟩
  · unfold matchingEvents
    split
    · exact (h.rows.filter _).filter _
    · exact List.Perm.nil
  · obtain ⟨rfl, -⟩ := dropOldPartitions_eq hok
    have hkept := h.daily.filter fun name => !Expired today retainDays name
    rw [hkept.has, List.mem_filter, Expired, partitionDate_of_year hyear.1 hyear.2, Option.any_some, day_civil,
      Bool.not_eq_true', decide_eq_false_iff_not, not_lt]

end EventsTable

end LogMgmt
