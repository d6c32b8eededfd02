import LogMgmt.Daily

/-!
# Routing and access to partitions

Where a row goes and what a read by the name of a partition shows, in every table that a run reaches.
-/

namespace LogMgmt

/-! ### Reading a table -/

/-- What a role reads of a table; the policies bind the owner only if row security is forced. -/
def RowSecurity.reads (s : RowSecurity) (owner : Bool) (setting : Option Str) (rows : List EventRow) : List EventRow :=
  if s.enabled && (s.forced || !owner) then rows.filter fun e => s.policies.any fun _ => rls setting e.tenant else rows

theorem RowSecurity.mem_reads {owner : Bool} {tenant : Str} {rows : List EventRow} {e : EventRow}
    (he : e ∈ (applyTenantRls {}).reads owner (some tenant) rows) : e.tenant = tenant := by
  have he : e ∈ rows.filter fun e => ["tenant_isolation"].any fun _ => rls (some tenant) e.tenant := he
  have hrls := List.of_mem_filter he
  rw [List.any_cons, List.any_nil, Bool.or_false, rls, beq_iff_eq] at hrls
  exact (Option.some.inj hrls).symm

namespace EventsTable
variable [SessionZone] {t : EventsTable} {days : List Int} {day : Int} {time : Time}

/-- `SELECT * FROM name` -/
def readByName (t : EventsTable) (name : List Char) (owner : Bool) (setting : Option Str) : List EventRow :=
  if name = "events_default".toList then t.defaultSecurity.reads owner setting t.defaultRows
  else match t.partitions.find? (·.name = name) with
    | some p => p.security.reads owner setting p.rows
    | none => []

/-- The partitions that take rows of this time, `events_default` apart. -/
def homes (t : EventsTable) (time : Time) : List (List Char) := (t.partitions.filter (·.contains time)).map (·.name)

/-! ### The invariant -/

theorem Daily.ofDay (h : t.Daily days) {p : Partition} (hp : p ∈ t.partitions) :
    ∃ day, p.toPartitionDef = .ofDay day := by
  obtain ⟨day, -, hday⟩ := h.mem hp
  exact ⟨day, hday.symm⟩

theorem Daily.nodup (h : t.Daily days) : days.Nodup := h.names.of_map _

theorem Daily.pairwise (h : t.Daily days) :
    t.catalog.Pairwise fun p q => p.name ≠ q.name ∧ ¬p.overlaps q := by
  rw [h.catalog, List.pairwise_map]
  refine (List.pairwise_map.1 h.names).imp fun {day day'} hname => ⟨hname, fun hover => ?_⟩
  have hover : (PartitionDef.ofDay day).overlaps (.daily (partitionName day') day') := hover
  exact hname (congrArg partitionName (PartitionDef.overlaps_daily.1 hover))

/-- The days of the partitions that take rows of a day. -/
theorem Daily.homes (h : t.Daily days) (time : Time) :
    t.homes time = (days.filter (· = dayOf time)).map partitionName := by
  have hcat : t.homes time = (t.catalog.filter (·.contains time)).map (·.name) := by
    rw [EventsTable.catalog, List.filter_map, List.map_map]
    rfl
  have hcontains : ∀ day ∈ days, (PartitionDef.ofDay day).contains time = decide (day = dayOf time) := fun day _ => by
    have hiff : (PartitionDef.daily (partitionName day) day).contains time ↔ dayOf time = day :=
      PartitionDef.contains_daily
    rw [Bool.eq_iff_iff, decide_eq_true_eq]
    exact hiff.trans eq_comm
  rw [hcat, h.catalog, List.filter_map, List.map_map]
  exact congrArg (List.map partitionName) (List.filter_congr hcontains)

theorem Daily.homes_of_has (h : t.Daily days) (hhas : t.Has (dayOf time)) :
    t.homes time = [partitionName (dayOf time)] := by
  have hmem := h.has.1 hhas
  rw [h.homes, List.filter_eq, List.count_eq_one_of_mem h.nodup hmem]
  rfl

theorem Daily.homes_of_not_has (h : t.Daily days) (hhas : ¬t.Has (dayOf time)) : t.homes time = [] := by
  have hnone : days.filter (· = dayOf time) = [] := List.filter_eq_nil_iff.2 fun day hday heq =>
    hhas (h.has.2 (of_decide_eq_true heq ▸ hday))
  rw [h.homes, hnone, List.map_nil]

theorem Daily.readByName (h : t.Daily days) {name : List Char} {owner : Bool} {tenant : Str} {e : EventRow}
    (he : e ∈ t.readByName name owner (some tenant)) : e.tenant = tenant := by
  unfold EventsTable.readByName at he
  split at he
  · rw [h.security] at he
    exact RowSecurity.mem_reads he
  · split at he
    · rename_i p hp
      obtain ⟨day, hday⟩ := h.ofDay (List.mem_of_find?_eq_some hp)
      have hsec : p.security = RowSecurity.applyTenantRls {} := congrArg PartitionDef.security hday
      rw [hsec] at he
      exact RowSecurity.mem_reads he
    · cases he

/-- In every state reached: the partitions are those of some days, with their names, ranges and row security; a row goes
to the partition of its day, or to `events_default` if there is none; a read by name shows one tenant; and where no call
has asked for a date before Christ, a day whose name is in use has its partition. -/
theorem partitions_daily (actions : List Action) :
    (∀ p ∈ (run {} actions).partitions, ∃ day, p.name = partitionName day ∧ p.lower = midnight day ∧
      p.upper = midnight (day + 1)) ∧
    (run {} actions).catalog.Pairwise (fun p q => p.name ≠ q.name ∧ ¬p.overlaps q) ∧
    (∀ time, ((run {} actions).Has (dayOf time) → (run {} actions).homes time = [partitionName (dayOf time)]) ∧
      (¬(run {} actions).Has (dayOf time) → (run {} actions).homes time = [])) ∧
    (∀ s ∈ (run {} actions).defaultSecurity :: (run {} actions).partitions.map (·.security),
      s = { enabled := true, forced := true, policies := ["tenant_isolation"] }) ∧
    (∀ name owner tenant, ∀ e ∈ (run {} actions).readByName name owner (some tenant), e.tenant = tenant) ∧
    ((∀ a ∈ actions, ∀ day, a.Asks day → -719162 ≤ day) → ∀ day, -719162 ≤ day →
      ((run {} actions).hasName (partitionName day) ↔ (run {} actions).Has day)) := by
  obtain ⟨days, h, -⟩ := Daily.empty.run actions
  refine ⟨fun p hp => ?_, h.pairwise, fun time => ⟨h.homes_of_has, h.homes_of_not_has⟩, ?_, fun _ _ _ _ => h.readByName,
    fun had day => hasName_iff_has had⟩
  · obtain ⟨day, hday⟩ := h.ofDay hp
    exact ⟨day, congrArg PartitionDef.name hday, congrArg PartitionDef.lower hday, congrArg PartitionDef.upper hday⟩
  · rintro s (_ | ⟨_, hs⟩)
    · exact h.security
    · obtain ⟨p, hp, rfl⟩ := List.mem_map.1 hs
      obtain ⟨day, hday⟩ := h.ofDay hp
      exact congrArg PartitionDef.security hday

/-! ### Years before Christ -/

omit [SessionZone] in
/-- After a call that goes back to 31 December of the year 1 BC there is one partition of its name, and that is the name
of 31 December of the year 1 too. -/
theorem one_name_two_days : letI : SessionZone := .utc
    ¬∀ actions time,
    ((run {} actions).hasName (partitionName (dayOf time)) → (run {} actions).homes time = [partitionName (dayOf time)]) ∧
      (¬(run {} actions).hasName (partitionName (dayOf time)) → (run {} actions).homes time = []) := by
  let _ := SessionZone.utc
  intro hclaim
  have hfree : ∀ day ∈ series (20345 - 739508) (20345 + 0), Free {} day := fun day hday => by
    rw [mem_series] at hday
    refine ⟨?_, ?_, fun e he => by cases he⟩ <;> simp only [timestampOk, Bool.and_eq_true, decide_eq_true_eq] <;> omega
  obtain ⟨t, hok⟩ := Daily.empty.createDays_isOk fun day hday => .inr (hfree day hday)
  have hrun : run {} [.create 20345 739508 0] = t := by
    have hcreate : ({} : EventsTable).createDailyPartitions 20345 739508 0 = .ok t := by
      rw [createDailyPartitions, if_neg (by decide), hok]
    rw [run, List.foldl_cons, List.foldl_nil, EventsTable.step, hcreate]
    rfl
  obtain ⟨days, -, h, -, hnames⟩ := Daily.empty.createDays_ok hok
  have hmem : ∀ day, -719163 ≤ day → day ≤ 20345 → day ∈ [] ++ days := fun day hlo hhi => by
    have hname := hnames day (mem_series.2 ⟨by omega, by omega⟩)
    have hhomes := (hclaim [.create 20345 739508 0] (midnight day)).1
    rw [hrun, dayOf_midnight] at hhomes
    have hhomes := hhomes (h.hasName.2 hname)
    rw [h.homes, dayOf_midnight] at hhomes
    by_contra hday
    have hnone : ([] ++ days).filter (· = day) = [] := List.filter_eq_nil_iff.2 fun day' hday' heq =>
      hday (of_decide_eq_true heq ▸ hday')
    rw [hnone] at hhomes
    cases hhomes
  have hname : partitionName (-719163) = partitionName (-718798) := by decide
  exact absurd (h.eq_of_name (hmem _ (by decide) (by decide)) (hmem _ (by decide) (by decide)) hname) (by decide)

end EventsTable

end LogMgmt
