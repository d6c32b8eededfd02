import LogMgmt.Partitions

/-!
# The partitions of a run

Every partition of a reachable table is the one of its day: its name, its range and its row security are
those of `PartitionDef.ofDay`. The specification of `create_daily_partitions` follows from that; that of
`drop_old_partitions` is in terms of the names (`Expired`).
-/

namespace LogMgmt

/-! ### Days -/

section
variable [SessionZone]

theorem midnight_le {day day' : Int} (h : day ≤ day') : midnight day ≤ midnight day' := by
  rcases Int.le_iff_lt_or_eq.1 h with h | rfl
  · exact Int.le_of_lt (SessionZone.midnight_ascends h)
  · exact Int.le_refl _

theorem midnight_lt {day day' : Int} : midnight day < midnight day' ↔ day < day' :=
  ⟨fun h => Int.not_le.1 fun hle => absurd (midnight_le hle) (Int.not_le.2 h), SessionZone.midnight_ascends⟩

theorem midnight_injective : Function.Injective midnight := by
  intro day day' h
  rcases Int.lt_trichotomy day day' with hlt | rfl | hgt
  · exact absurd h (Int.ne_of_lt (midnight_lt.2 hlt))
  · rfl
  · exact absurd h.symm (Int.ne_of_lt (midnight_lt.2 hgt))

theorem lt_midnight_iff {day : Int} {time : Time} : time < midnight day ↔ dayOf time < day := by
  obtain ⟨hle, hlt⟩ := SessionZone.dayOf_spec time
  constructor
  · exact fun h => midnight_lt.1 (lt_of_le_of_lt hle h)
  · exact fun h => lt_of_lt_of_le hlt (midnight_le h)

theorem midnight_iff (day : Int) (t : Time) : midnight day ≤ t ∧ t < midnight (day + 1) ↔ dayOf t = day := by
  rw [← not_lt, lt_midnight_iff, lt_midnight_iff]
  omega

theorem dayOf_midnight (day : Int) : dayOf (midnight day) = day :=
  (midnight_iff day _).1 ⟨le_rfl, midnight_lt.2 (Int.lt_add_one_of_le le_rfl)⟩

end

theorem mem_series {start stop day : Int} : day ∈ EventsTable.series start stop ↔ start ≤ day ∧ day ≤ stop := by
  unfold EventsTable.series
  rw [List.mem_map]
  constructor
  · rintro ⟨n, hn, rfl⟩
    rw [List.mem_range] at hn
    omega
  · intro h
    exact ⟨(day - start).toNat, List.mem_range.2 (by omega), by omega⟩

/-! ### Names -/

theorem ofDigitChars_padded (width n : Nat) : Nat.ofDigitChars 10 (padded width n) 0 = n := by
  rw [padded, List.leftpad, Nat.ofDigitChars_append, Nat.ofDigitChars_replicate_zero, Nat.mul_zero,
    Nat.ofDigitChars_ten_toDigits]

theorem padded_injective (width : Nat) : Function.Injective (padded width) := by
  intro n n' h
  rw [← ofDigitChars_padded width n, h, ofDigitChars_padded]

theorem length_padded_two {n : Nat} (h : n < 100) : (padded 2 n).length = 2 := by
  have : (Nat.toDigits 10 n).length ≤ 2 := (Nat.length_toDigits_le_iff (by decide) (by decide)).2 h
  rw [padded, List.length_leftpad]
  omega

theorem partitionName_injOn : Set.InjOn partitionName {day | -719162 ≤ day} := by
  intro day hday day' hday' h
  have hm := civil_month day
  have hm' := civil_month day'
  have hd := civil_mday day
  have hd' := civil_mday day'
  have h := List.append_cancel_left h
  obtain ⟨hyear, h⟩ := List.append_inj' h (by
    simp only [List.length_append, List.length_cons]
    rw [length_padded_two (by omega), length_padded_two (by omega), length_padded_two (by omega),
      length_padded_two (by omega)])
  obtain ⟨hmonth, hmday⟩ := List.append_inj' h (by
    simp only [List.length_cons]
    rw [length_padded_two (by omega), length_padded_two (by omega)])
  have hyear := padded_injective 4 hyear
  have hmonth := padded_injective 2 (List.cons.inj hmonth).2
  have hmday := padded_injective 2 (List.cons.inj hmday).2
  have hy := (civil_year_pos day).2 hday
  have hy' := (civil_year_pos day').2 hday'
  rw [charYear, charYear, if_neg (by omega), if_neg (by omega)] at hyear
  apply civil_injective
  ext <;> omega

/-! ### The invariant -/

namespace PartitionDef
variable [SessionZone]

/-- The partition of a day. -/
def ofDay (day : Int) : PartitionDef := { daily (partitionName day) day with security := RowSecurity.applyTenantRls {} }

theorem ofDay_injective : Function.Injective ofDay := fun _ _ h => midnight_injective (congrArg lower h)

theorem contains_daily {name : List Char} {day : Int} {t : Time} : (daily name day).contains t ↔ dayOf t = day := by
  rw [contains, Bool.and_eq_true, decide_eq_true_eq, decide_eq_true_eq]
  exact midnight_iff day t

theorem overlaps_daily {name : List Char} {day day' : Int} : (ofDay day).overlaps (daily name day') ↔ day = day' := by
  rw [overlaps, Bool.and_eq_true, decide_eq_true_eq, decide_eq_true_eq]
  constructor
  · rintro ⟨h, h'⟩
    have h : day < day' + 1 := midnight_lt.1 h
    have h' : day' < day + 1 := midnight_lt.1 h'
    omega
  · rintro rfl
    exact ⟨midnight_lt.2 (Int.lt_add_one_of_le le_rfl), midnight_lt.2 (Int.lt_add_one_of_le le_rfl)⟩

end PartitionDef

namespace EventsTable
variable [SessionZone] {t t' : EventsTable} {days : List Int} {day : Int}

def catalog (t : EventsTable) : List PartitionDef := t.partitions.map (·.toPartitionDef)

/-- The day has its partition. -/
def Has (t : EventsTable) (day : Int) : Prop := PartitionDef.ofDay day ∈ t.catalog

/-- The table's partitions are those of `days`. -/
structure Daily (days : List Int) (t : EventsTable) : Prop where
  catalog : t.catalog = days.map PartitionDef.ofDay
  names : (days.map partitionName).Nodup
  security : t.defaultSecurity = RowSecurity.applyTenantRls {}

/-- Nothing but its name can keep the partition of the day from being created. -/
structure Free (t : EventsTable) (day : Int) : Prop where
  lower : timestampOk day
  upper : timestampOk (day + 1)
  rows : ∀ e ∈ t.defaultRows, dayOf e.eventTime ≠ day

/-- The table with new partitions. -/
def addDays (t : EventsTable) (days : List Int) : EventsTable :=
  { t with partitions := t.partitions ++ days.map fun day => { toPartitionDef := .ofDay day } }

theorem Daily.empty : Daily [] {} where
  catalog := rfl
  names := List.nodup_nil
  security := rfl

theorem Daily.mem (h : t.Daily days) {p : Partition} (hp : p ∈ t.partitions) :
    ∃ day ∈ days, PartitionDef.ofDay day = p.toPartitionDef :=
  List.mem_map.1 (h.catalog ▸ List.mem_map_of_mem hp)

theorem Daily.has (h : t.Daily days) : t.Has day ↔ day ∈ days := by
  rw [Has, h.catalog, List.mem_map_of_injective PartitionDef.ofDay_injective]

theorem Daily.hasName (h : t.Daily days) {name : List Char} :
    t.hasName name ↔ name ∈ days.map partitionName := by
  have : days.map partitionName = t.catalog.map (·.name) := by
    rw [h.catalog, List.map_map]
    rfl
  rw [this, EventsTable.catalog, List.map_map, EventsTable.hasName, List.any_eq_true, List.mem_map]
  simp only [decide_eq_true_eq, Function.comp_apply]

theorem Daily.eq_of_name (h : t.Daily days) {day' : Int} (hday : day ∈ days) (hday' : day' ∈ days)
    (hname : partitionName day = partitionName day') : day = day' :=
  List.inj_on_of_nodup_map h.names hday hday' hname

/-! ### `apply_tenant_rls` -/

theorem Daily.applyTenantRls (h : t.Daily days) (name : List Char) : t.applyTenantRls name = t := by
  have hp : ∀ p ∈ t.partitions, (if p.name = name then
      { p with security := p.security.applyTenantRls } else p) = p := by
    intro p hp
    obtain ⟨day, -, hday⟩ := h.mem hp
    have hsec : p.security.applyTenantRls = p.security := by
      rw [← hday]
      rfl
    split
    · rw [hsec]
    · rfl
  rw [EventsTable.applyTenantRls, List.map_congr_left hp, List.map_id']

/-! ### `create_daily_partitions` -/

theorem Daily.addDay (h : t.Daily days) (hday : partitionName day ∉ days.map partitionName) :
    (t.addDays [day]).Daily (days ++ [day]) where
  catalog := by
    rw [EventsTable.catalog, addDays, List.map_append, List.map_append, ← h.catalog]
    rfl
  names := by
    rw [List.map_append, List.nodup_append]
    refine ⟨h.names, List.nodup_singleton _, ?_⟩
    rintro _ hname _ hname' rfl
    exact hday (List.mem_singleton.1 hname' ▸ hname)
  security := h.security

theorem Daily.not_overlaps (h : t.Daily days) {name : List Char} (hday : day ∉ days) :
    ¬t.partitions.any (·.overlaps (.daily name day)) := by
  intro hany
  obtain ⟨p, hp, ho⟩ := List.any_eq_true.1 hany
  obtain ⟨day', hday', hp⟩ := h.mem hp
  rw [← hp, PartitionDef.overlaps_daily] at ho
  exact hday (ho ▸ hday')

/-- The partition of a day without one is created unless `events_default` has a row of the day. -/
theorem Daily.createPartition (h : t.Daily days) {name : List Char} (hday : day ∉ days) :
    t.createPartition (.daily name day) = if ∃ e ∈ t.defaultRows, dayOf e.eventTime = day then
      .error .defaultViolated else .ok { t with partitions := t.partitions ++ [⟨.daily name day, []⟩] } := by
  rw [EventsTable.createPartition, if_neg (h.not_overlaps hday)]
  have : (t.defaultRows.any fun e => (PartitionDef.daily name day).contains e.eventTime) ↔
      ∃ e ∈ t.defaultRows, dayOf e.eventTime = day := by
    simp only [List.any_eq_true, PartitionDef.contains_daily]
  simp only [this]

theorem Daily.applyTenantRls_daily (h : t.Daily days) :
    ({ t with partitions := t.partitions ++ [⟨.daily (partitionName day) day, []⟩] } : EventsTable).applyTenantRls
      (partitionName day) = t.addDays [day] := by
  have hp : (t.partitions.map fun p => if p.name = partitionName day then
      { p with security := p.security.applyTenantRls } else p) = t.partitions :=
    congrArg partitions (h.applyTenantRls (partitionName day))
  unfold EventsTable.applyTenantRls addDays
  dsimp only
  rw [List.map_append, hp]
  have hnew : ∀ p : Partition, p.name = partitionName day →
      ([p].map fun p => if p.name = partitionName day then { p with security := p.security.applyTenantRls } else p) =
        [{ p with security := p.security.applyTenantRls }] := fun p hp => by
    rw [List.map_singleton, if_pos hp]
  rw [hnew _ rfl]
  rfl

theorem Daily.createDay_cases (h : t.Daily days) (day : Int) :
    (partitionName day ∈ days.map partitionName ∧ t.createDay day = .ok t) ∨
    (partitionName day ∉ days.map partitionName ∧ ¬t.Free day ∧ ∃ err, t.createDay day = .error err) ∨
    (partitionName day ∉ days.map partitionName ∧ t.Free day ∧ t.createDay day = .ok (t.addDays [day])) := by
  by_cases hname : partitionName day ∈ days.map partitionName
  · have hok : t.createTable (partitionName day) day = .ok t := if_pos (h.hasName.2 hname)
    refine .inl ⟨hname, ?_⟩
    rw [createDay, hok]
    exact congrArg Except.ok (h.applyTenantRls _)
  have hday : day ∉ days := fun hday => hname (List.mem_map_of_mem hday)
  have hhas : ¬t.hasName (partitionName day) := fun hhas => hname (h.hasName.1 hhas)
  by_cases hok : timestampOk day && timestampOk (day + 1)
  swap
  · refine .inr (.inl ⟨hname, fun hfree => hok ?_, .outOfRange, ?_⟩)
    · rw [hfree.lower, hfree.upper]
      rfl
    · rw [createDay, createTable, if_neg hhas, if_pos (by rw [Bool.not_eq_true', Bool.eq_false_iff.2 hok])]
      rfl
  rw [createDay, createTable, if_neg hhas, if_neg (by rw [hok]; decide), h.createPartition hday]
  rw [Bool.and_eq_true] at hok
  by_cases hrows : ∃ e ∈ t.defaultRows, dayOf e.eventTime = day
  · rw [if_pos hrows]
    obtain ⟨e, he, hin⟩ := hrows
    exact .inr (.inl ⟨hname, fun hfree => hfree.rows e he hin, .defaultViolated, rfl⟩)
  · rw [if_neg hrows]
    refine .inr (.inr ⟨hname, ⟨hok.1, hok.2, fun e he hin => hrows ⟨e, he, hin⟩⟩, ?_⟩)
    exact congrArg Except.ok (h.applyTenantRls_daily)

theorem Daily.createDays_ok (h : t.Daily days) {range : List Int} (hok : range.foldlM createDay t = .ok t') :
    ∃ new, t' = t.addDays new ∧ t'.Daily (days ++ new) ∧ (∀ day ∈ new, day ∈ range ∧ t.Free day) ∧
      ∀ day ∈ range, partitionName day ∈ (days ++ new).map partitionName := by
  induction range generalizing t days with
  | nil =>
    cases hok
    refine ⟨[], ?_, ?_, ?_, ?_⟩
    · rw [addDays, List.map_nil, List.append_nil]
    · rwa [List.append_nil]
    · intro day hday
      cases hday
    · intro day hday
      cases hday
  | cons day range ih =>
    rw [List.foldlM_cons] at hok
    rcases h.createDay_cases day with ⟨hname, hday⟩ | ⟨-, -, err, hday⟩ | ⟨hname, hfree, hday⟩
    · rw [hday] at hok
      obtain ⟨new, ht, hd, hnew, hnames⟩ := ih h hok
      refine ⟨new, ht, hd, fun d hd => ⟨List.mem_cons_of_mem _ (hnew d hd).1, (hnew d hd).2⟩, ?_⟩
      rintro d (_ | ⟨_, hd⟩)
      · rw [List.map_append]
        exact List.mem_append_left _ hname
      · exact hnames d hd
    · rw [hday] at hok
      cases hok
    · rw [hday] at hok
      obtain ⟨new, ht, hd, hnew, hnames⟩ := ih (h.addDay hname) hok
      rw [List.append_assoc] at hd hnames
      refine ⟨day :: new, ?_, hd, ?_, ?_⟩
      · rw [ht, addDays, addDays, addDays]
        dsimp only
        rw [List.append_assoc]
        rfl
      · rintro d (_ | ⟨_, hd⟩)
        · exact ⟨List.mem_cons_self, hfree⟩
        · exact ⟨List.mem_cons_of_mem _ (hnew d hd).1, (hnew d hd).2.lower, (hnew d hd).2.upper, (hnew d hd).2.rows⟩
      · rintro d (_ | ⟨_, hd⟩)
        · exact List.mem_map_of_mem (List.mem_append_right _ List.mem_cons_self)
        · exact hnames d hd

theorem Daily.createDays_isOk (h : t.Daily days) {range : List Int}
    (hrange : ∀ day ∈ range, partitionName day ∈ days.map partitionName ∨ t.Free day) :
    ∃ t', range.foldlM createDay t = .ok t' := by
  induction range generalizing t days with
  | nil => exact ⟨t, rfl⟩
  | cons day range ih =>
    have htail := fun d (hd : d ∈ range) => hrange d (List.mem_cons_of_mem _ hd)
    rw [List.foldlM_cons]
    rcases h.createDay_cases day with ⟨-, hday⟩ | ⟨hname, hfree, -⟩ | ⟨hname, -, hday⟩
    · rw [hday]
      exact ih h htail
    · exact absurd (hrange day List.mem_cons_self) (by simp [hname, hfree])
    · rw [hday]
      refine ih (h.addDay hname) fun d hd => ?_
      rcases htail d hd with hd | hd
      · rw [List.map_append]
        exact .inl (List.mem_append_left _ hd)
      · exact .inr ⟨hd.lower, hd.upper, hd.rows⟩

theorem Daily.createDailyPartitions (h : t.Daily days) {today daysBack daysAhead : Int}
    (hok : t.createDailyPartitions today daysBack daysAhead = .ok t') :
    ∃ new, t' = t.addDays new ∧ t'.Daily (days ++ new) ∧
      ∀ day ∈ new, (today - daysBack ≤ day ∧ day ≤ today + daysAhead) ∧ t.Free day := by
  rw [EventsTable.createDailyPartitions] at hok
  split at hok
  · cases hok
  · obtain ⟨new, ht, hd, hnew, -⟩ := h.createDays_ok hok
    exact ⟨new, ht, hd, fun day hday => ⟨mem_series.1 (hnew day hday).1, (hnew day hday).2⟩⟩

/-! ### Inserts -/

omit [SessionZone] in
theorem catalog_insert (t : EventsTable) (e : EventRow) : (t.insert e).catalog = t.catalog := by
  unfold insert
  split
  · rw [catalog, List.map_map]
    refine List.map_congr_left fun p _ => ?_
    rw [Function.comp_apply]
    split <;> rfl
  · rfl

theorem Daily.insert (h : t.Daily days) (e : EventRow) : (t.insert e).Daily days where
  catalog := (catalog_insert t e).trans h.catalog
  names := h.names
  security := by
    rw [EventsTable.insert]
    split <;> exact h.security

omit [SessionZone] in
theorem defaultRows_insert {e e' : EventRow} (he : e' ∈ t.defaultRows) : e' ∈ (t.insert e).defaultRows := by
  unfold insert
  split
  · exact he
  · exact List.mem_append_left _ he

/-! ### `drop_old_partitions` -/

section
variable {today retainDays : Int}

/-- The name is read as a date before the retained days. -/
def Expired (today retainDays : Int) (name : List Char) : Bool :=
  (partitionDate name).any fun date => date.day < today - retainDays

/-- The table without the expired tables among `names`. -/
def without (t : EventsTable) (today retainDays : Int) (names : List (List Char)) : EventsTable :=
  { t with partitions := t.partitions.filter fun p => !(p.name ∈ names && Expired today retainDays p.name) }

omit [SessionZone] in
theorem dropIfOld_eq {name : List Char} (hok : t.dropIfOld today retainDays name = .ok t') :
    t' = t.without today retainDays [name] ∧ ∀ date ∈ partitionDate name, date.Valid := by
  have hkeep : ¬Expired today retainDays name → t = t.without today retainDays [name] := fun hexp => by
    have hall : ∀ p ∈ t.partitions, !(p.name ∈ [name] && Expired today retainDays p.name) := fun p _ => by
      by_cases hp : p.name = name
      · rw [hp, Bool.eq_false_iff.2 hexp, Bool.and_false]
        rfl
      · simp [hp]
    rw [without, List.filter_eq_self.2 hall]
  unfold dropIfOld at hok
  split at hok
  · rename_i hnone
    cases hok
    refine ⟨hkeep (by rw [Expired, hnone]; exact Bool.false_ne_true), fun date hdate => ?_⟩
    rw [hnone] at hdate
    cases hdate
  · rename_i date hdate
    have hvalid : date.Valid → ∀ date ∈ partitionDate name, date.Valid := fun hv date' hdate' => by
      rw [hdate] at hdate'
      exact Option.some.inj hdate' ▸ hv
    have hexp : Expired today retainDays name = decide (date.day < today - retainDays) := by
      rw [Expired, hdate]
      rfl
    split at hok
    · cases hok
    rename_i hv
    rw [not_not] at hv
    split at hok
    · cases hok
    split at hok
    · rename_i hold
      cases hok
      refine ⟨?_, hvalid hv⟩
      rw [dropTable, without]
      congr 1
      refine List.filter_congr fun p _ => ?_
      by_cases hp : p.name = name
      · simp [hp, hexp, hold]
      · simp [hp]
    · rename_i hold
      cases hok
      exact ⟨hkeep (by rw [hexp]; simpa using hold), hvalid hv⟩

omit [SessionZone] in
theorem dropNames_eq {names : List (List Char)} (hok : names.foldlM (dropIfOld today retainDays) t = .ok t') :
    t' = t.without today retainDays names ∧ ∀ name ∈ names, ∀ date ∈ partitionDate name, date.Valid := by
  induction names generalizing t with
  | nil =>
    cases hok
    refine ⟨?_, by simp⟩
    rw [without]
    simp
  | cons name names ih =>
    rw [List.foldlM_cons] at hok
    match hu : t.dropIfOld today retainDays name with
    | .error _ =>
      rw [hu] at hok
      cases hok
    | .ok u =>
      rw [hu] at hok
      obtain ⟨rfl, hvalid⟩ := dropIfOld_eq hu
      obtain ⟨rfl, hvalids⟩ := ih hok
      refine ⟨?_, List.forall_mem_cons.2 ⟨hvalid, hvalids⟩⟩
      rw [without, without, without]
      congr 1
      rw [List.filter_filter]
      refine List.filter_congr fun p _ => ?_
      cases hexp : Expired today retainDays p.name with
      | false => simp
      | true => simp [Bool.and_comm]

omit [SessionZone] in
/-- A call that succeeds has dropped the expired tables. -/
theorem dropOldPartitions_eq (hok : t.dropOldPartitions today retainDays = .ok t') :
    t' = { t with partitions := t.partitions.filter fun p => !Expired today retainDays p.name } ∧
      ∀ p ∈ t.partitions, ∀ date ∈ partitionDate p.name, date.Valid := by
  obtain ⟨rfl, hvalid⟩ := dropNames_eq hok
  refine ⟨?_, fun p hp => hvalid _ (List.mem_map_of_mem hp)⟩
  rw [without]
  congr 1
  refine List.filter_congr fun p hp => ?_
  rw [decide_eq_true (List.mem_map_of_mem hp), Bool.true_and]

end

theorem Daily.filter (h : t.Daily days) (keep : List Char → Bool) :
    ({ t with partitions := t.partitions.filter fun p => keep p.name } : EventsTable).Daily
      (days.filter fun day => keep (partitionName day)) where
  catalog := by
    have hcat : EventsTable.catalog { t with partitions := t.partitions.filter fun p => keep p.name } =
        t.catalog.filter fun p => keep p.name := by
      rw [EventsTable.catalog, EventsTable.catalog, List.filter_map]
      rfl
    rw [hcat, h.catalog, List.filter_map]
    rfl
  names := h.names.sublist (List.filter_sublist.map _)
  security := h.security

/-! ### Runs -/

/-- The days that a call asks for. -/
def Action.Asks : Action → Int → Prop
  | .create today daysBack daysAhead, day => today - daysBack ≤ day ∧ day ≤ today + daysAhead
  | _, _ => False

/-- What one call does to the table: new partitions are of free days, and `events_default` keeps its rows. -/
theorem Daily.step (h : t.Daily days) (a : Action) :
    ∃ days', (t.step a).Daily days' ∧ (∀ day ∈ days', day ∈ days ∨ a.Asks day ∧ t.Free day) ∧
      ∀ e ∈ t.defaultRows, e ∈ (t.step a).defaultRows := by
  cases a with
  | insert e => exact ⟨days, h.insert e, fun _ => .inl, fun _ => defaultRows_insert⟩
  | create today daysBack daysAhead =>
    rw [EventsTable.step]
    match hok : t.createDailyPartitions today daysBack daysAhead with
    | .error _ => exact ⟨days, h, fun _ => .inl, fun _ => id⟩
    | .ok t' =>
      obtain ⟨new, rfl, hd, hnew⟩ := h.createDailyPartitions hok
      refine ⟨days ++ new, hd, fun day hday => ?_, fun _ => id⟩
      rcases List.mem_append.1 hday with hday | hday
      · exact .inl hday
      · exact .inr (hnew day hday)
  | drop today retainDays =>
    rw [EventsTable.step]
    match hok : t.dropOldPartitions today retainDays with
    | .error _ => exact ⟨days, h, fun _ => .inl, fun _ => id⟩
    | .ok t' =>
      obtain ⟨rfl, -⟩ := dropOldPartitions_eq hok
      exact ⟨_, h.filter fun name => !Expired today retainDays name,
        fun day hday => .inl (List.mem_of_mem_filter hday), fun _ => id⟩

/-- The table that a run reaches has partitions only of days that it began with or asked for. -/
theorem Daily.run (h : t.Daily days) (actions : List Action) :
    ∃ days', (t.run actions).Daily days' ∧ ∀ day ∈ days', day ∈ days ∨ ∃ a ∈ actions, a.Asks day := by
  induction actions generalizing t days with
  | nil => exact ⟨days, h, fun _ => .inl⟩
  | cons a actions ih =>
    obtain ⟨days', h', hfrom, -⟩ := h.step a
    obtain ⟨days'', h'', hfrom'⟩ := ih h'
    refine ⟨days'', h'', fun day hday => ?_⟩
    rcases hfrom' day hday with hday | ⟨b, hb, hasks⟩
    · rcases hfrom day hday with hday | hday
      · exact .inl hday
      · exact .inr ⟨a, List.mem_cons_self, hday.1⟩
    · exact .inr ⟨b, List.mem_cons_of_mem _ hb, hasks⟩

/-- In runs that ask for no date before Christ the name alone decides. -/
theorem hasName_iff_has {actions : List Action} (had : ∀ a ∈ actions, ∀ day, a.Asks day → -719162 ≤ day)
    (hday : -719162 ≤ day) : (run {} actions).hasName (partitionName day) ↔ (run {} actions).Has day := by
  obtain ⟨days, h, hfrom⟩ := Daily.empty.run actions
  rw [h.has, h.hasName]
  refine ⟨fun hname => ?_, List.mem_map_of_mem⟩
  obtain ⟨day', hday', heq⟩ := List.mem_map.1 hname
  rcases hfrom day' hday' with hmem | ⟨a, ha, hasks⟩
  · cases hmem
  · exact partitionName_injOn (had a ha day' hasks) hday heq ▸ hday'

end EventsTable

end LogMgmt
