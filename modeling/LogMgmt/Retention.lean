import LogMgmt.Daily

/-!
# Retention

`drop_old_partitions` goes by the names of the tables (`Expired`). What the table holds after it follows from what a
name is read as, and from the rows of a daily partition being of its day (`Placed`).
-/

namespace LogMgmt

/-! ### Names -/

theorem length_padded_four (n : Nat) : 4 ≤ (padded 4 n).length ∧ ((padded 4 n).length = 4 ↔ n < 10000) := by
  have hdigits : (Nat.toDigits 10 n).length ≤ 4 ↔ n < 10 ^ 4 := Nat.length_toDigits_le_iff (by decide) (by decide)
  rw [padded, List.length_leftpad]
  omega

theorem isDigit_padded {width n : Nat} {c : Char} (hc : c ∈ padded width n) : c.isDigit := by
  rw [padded, List.leftpad, List.mem_append, List.mem_replicate] at hc
  rcases hc with ⟨-, rfl⟩ | hc
  · rfl
  · exact Nat.isDigit_of_mem_toDigits (by decide) (by decide) hc

theorem ofDigitChars_of_padded {width n : Nat} {ds : List Char} (h : padded width n = ds) :
    (Nat.ofDigitChars 10 ds 0 : Int) = n := by rw [← h, ofDigitChars_padded]

/-- The date in the name of a day's partition. -/
def nameDate (day : Int) : Civil := ⟨charYear (civil day), (civil day).month, (civil day).mday⟩

theorem length_of_partitionDate {name : List Char} {c : Civil} (h : partitionDate name = some c) :
    (name.drop 7).length = 10 := by
  unfold partitionDate at h
  split at h
  · rename_i hname
    rw [hname]
    rfl
  · cases h

/-- The name is read if its year has four digits. -/
theorem partitionDate_partitionName (day : Int) :
    partitionDate (partitionName day) = if charYear (civil day) < 10000 then some (nameDate day) else none := by
  have hm := civil_month day
  have hd := civil_mday day
  obtain ⟨m₁, m₂, hmonth⟩ := List.length_eq_two.1 (length_padded_two (n := (civil day).month.toNat) (by omega))
  obtain ⟨d₁, d₂, hmday⟩ := List.length_eq_two.1 (length_padded_two (n := (civil day).mday.toNat) (by omega))
  have hlen := length_padded_four (charYear (civil day))
  have hdrop : (partitionName day).drop 7 = padded 4 (charYear (civil day)) ++ ['_', m₁, m₂, '_', d₁, d₂] := by
    show toChar day = _
    rw [toChar, hmonth, hmday]
    rfl
  split
  · rename_i hyear
    obtain ⟨y₁, y₂, y₃, y₄, hy⟩ : ∃ y₁ y₂ y₃ y₄, padded 4 (charYear (civil day)) = [y₁, y₂, y₃, y₄] :=
      match padded 4 (charYear (civil day)), hlen.2.2 hyear with
      | [y₁, y₂, y₃, y₄], _ => ⟨y₁, y₂, y₃, y₄, rfl⟩
    have hdigits : [y₁, y₂, y₃, y₄, m₁, m₂, d₁, d₂].all Char.isDigit := by
      rw [List.all_eq_true]
      intro c hc
      have hc : c ∈ padded 4 (charYear (civil day)) ++ (padded 2 (civil day).month.toNat ++
          padded 2 (civil day).mday.toNat) := by rwa [hy, hmonth, hmday]
      rcases List.mem_append.1 hc with hc | hc
      · exact isDigit_padded hc
      · rcases List.mem_append.1 hc with hc | hc <;> exact isDigit_padded hc
    have htake : (partitionName day).take 7 = "events_".toList := rfl
    unfold partitionDate
    rw [hdrop, hy]
    show (if _ then some _ else none) = _
    rw [if_pos ⟨htake, hdigits⟩, nameDate]
    dsimp only
    rw [ofDigitChars_of_padded hy, ofDigitChars_of_padded hmonth, ofDigitChars_of_padded hmday,
      Int.toNat_of_nonneg (by omega), Int.toNat_of_nonneg (by omega)]
  · rename_i hyear
    cases h : partitionDate (partitionName day) with
    | none => rfl
    | some c =>
      have h10 := length_of_partitionDate h
      rw [hdrop, List.length_append] at h10
      simp only [List.length_cons, List.length_nil] at h10
      omega

theorem partitionDate_of_year {day : Int} (h : 0 < (civil day).year) (h' : (civil day).year < 10000) :
    partitionDate (partitionName day) = some (civil day) := by
  have hyear : (charYear (civil day) : Int) = (civil day).year := by
    rw [charYear, if_neg (by omega)]
    omega
  rw [partitionDate_partitionName, if_pos (by omega), nameDate, hyear]

/-- No name is read as an earlier date than that of its day. -/
theorem le_day_of_partitionDate {day : Int} {c : Civil} (h : partitionDate (partitionName day) = some c)
    (hc : c.Valid) : day ≤ c.day := by
  rw [partitionDate_partitionName] at h
  split at h
  swap
  · cases h
  have hdate : nameDate day = c := Option.some.inj h
  by_cases hyear : 0 < (civil day).year
  · have heq : nameDate day = civil day := by
      have : (charYear (civil day) : Int) = (civil day).year := by
        rw [charYear, if_neg (by omega)]
        omega
      rw [nameDate, this]
    rw [← hdate, heq, day_civil]
  · -- a year before Christ is read as the year of the same number after
    have hpos : 0 < (civil c.day).year := by
      rw [hc, ← hdate, nameDate, charYear, if_pos (by omega)]
      dsimp only
      omega
    have h₁ := (civil_year_pos c.day).1 hpos
    have h₂ := mt (civil_year_pos day).2 hyear
    omega

namespace EventsTable
variable [SessionZone] {t t' : EventsTable} {days : List Int} {today retainDays : Int} {a : Action}

/-! ### Rows -/

/-- The rows of `events`. -/
def rows (t : EventsTable) : List EventRow := t.defaultRows ++ t.partitions.flatMap (·.rows)

/-- The rows of a daily partition are in its range. -/
def Placed (t : EventsTable) : Prop := ∀ p ∈ t.partitions, ∀ e ∈ p.rows, p.contains e.eventTime

omit [SessionZone] in
theorem Placed.insert (h : t.Placed) (e : EventRow) : (t.insert e).Placed := by
  unfold EventsTable.insert
  split
  · intro p hp e' he'
    obtain ⟨q, hq, rfl⟩ := List.mem_map.1 hp
    by_cases hc : q.contains e.eventTime
    · rw [if_pos hc] at he' ⊢
      rcases List.mem_append.1 he' with he' | he'
      · exact h q hq e' he'
      · rw [List.mem_singleton.1 he']
        exact hc
    · rw [if_neg hc] at he' ⊢
      exact h q hq e' he'
  · exact h

theorem Placed.addDays (h : t.Placed) (new : List Int) : (t.addDays new).Placed := by
  intro p hp e he
  rcases List.mem_append.1 hp with hp | hp
  · exact h p hp e he
  · obtain ⟨day, -, rfl⟩ := List.mem_map.1 hp
    cases he

theorem Placed.step (h : t.Placed) (hd : t.Daily days) (a : Action) : (t.step a).Placed := by
  cases a with
  | insert e => exact h.insert e
  | create today daysBack daysAhead =>
    rw [EventsTable.step]
    cases hok : t.createDailyPartitions today daysBack daysAhead with
    | error e => exact h
    | ok t' =>
      obtain ⟨new, rfl, -⟩ := hd.createDailyPartitions hok
      exact h.addDays new
  | drop today retainDays =>
    rw [EventsTable.step]
    cases hok : t.dropOldPartitions today retainDays with
    | error e => exact h
    | ok t' =>
      obtain ⟨rfl, -⟩ := dropOldPartitions_eq hok
      exact fun p hp => h p (List.mem_of_mem_filter hp)

theorem Placed.run (h : t.Placed) (hd : t.Daily days) (actions : List Action) : (t.run actions).Placed := by
  induction actions generalizing t days with
  | nil => exact h
  | cons a actions ih =>
    obtain ⟨days', hd', -⟩ := hd.step a
    exact ih (h.step hd a) hd'

/-! ### What a call leaves -/

/-- The events that a call may not remove: those from the first retained day on, and all of them if nothing is dropped. -/
def Action.keeps : Action → EventRow → Bool
  | .drop today retainDays, e => midnight (today - retainDays) ≤ e.eventTime
  | _, _ => true

omit [SessionZone] in
theorem rows_insert (t : EventsTable) (e : EventRow) : t.rows.Sublist (t.insert e).rows := by
  unfold EventsTable.insert rows
  split
  · refine (List.Sublist.refl _).append ?_
    dsimp only
    induction t.partitions with
    | nil => exact List.Sublist.refl _
    | cons p partitions ih =>
      rw [List.map_cons, List.flatMap_cons, List.flatMap_cons]
      refine List.Sublist.append ?_ ih
      split
      · exact List.sublist_append_left _ _
      · exact List.Sublist.refl _
  · exact (List.sublist_append_left _ _).append (List.Sublist.refl _)

omit [SessionZone] in
theorem filter_flatMap_sublist {α β : Type} {l : List α} {f : α → List β} {p : β → Bool} {q : α → Bool}
    (h : ∀ a ∈ l, ¬q a → ∀ b ∈ f a, ¬p b) : ((l.flatMap f).filter p).Sublist ((l.filter q).flatMap f) := by
  induction l with
  | nil => exact List.Sublist.refl _
  | cons a l ih =>
    have ih := ih fun b hb => h b (List.mem_cons_of_mem _ hb)
    rw [List.flatMap_cons, List.filter_append]
    by_cases hq : q a
    · rw [List.filter_cons_of_pos hq, List.flatMap_cons]
      exact List.filter_sublist.append ih
    · rw [List.filter_cons_of_neg hq, List.filter_eq_nil_iff.2 (h a List.mem_cons_self hq), List.nil_append]
      exact ih

theorem rows_addDays (t : EventsTable) (new : List Int) : (t.addDays new).rows = t.rows := by
  rw [rows, rows, addDays, List.flatMap_append]
  simp [List.flatMap_map]

theorem Placed.mem_day (h : t.Placed) (hd : t.Daily days) {p : Partition} (hp : p ∈ t.partitions) {e : EventRow}
    (he : e ∈ p.rows) : PartitionDef.ofDay (dayOf e.eventTime) = p.toPartitionDef := by
  obtain ⟨day, -, hday⟩ := hd.mem hp
  have hcontains : (PartitionDef.daily (partitionName day) day).contains e.eventTime := by
    have hcontains := h p hp e he
    rwa [← hday] at hcontains
  rw [PartitionDef.contains_daily.1 hcontains]
  exact hday

/-- The rows of an expired table are older than the retained days. -/
theorem Placed.old_of_expired (h : t.Placed) (hd : t.Daily days)
    (hvalid : ∀ p ∈ t.partitions, ∀ date ∈ partitionDate p.name, date.Valid) {p : Partition} (hp : p ∈ t.partitions)
    (hexp : Expired today retainDays p.name) {e : EventRow} (he : e ∈ p.rows) :
    e.eventTime < midnight (today - retainDays) := by
  have hname : p.name = partitionName (dayOf e.eventTime) := (congrArg PartitionDef.name (h.mem_day hd hp he)).symm
  obtain ⟨date, hdate, hold⟩ := (Option.any_eq_true _ _).1 hexp
  have hle : dayOf e.eventTime ≤ date.day := le_day_of_partitionDate (hname ▸ hdate) (hvalid p hp date hdate)
  have hlt : dayOf e.eventTime < today - retainDays := hle.trans_lt (of_decide_eq_true hold)
  exact lt_midnight_iff.2 hlt

theorem Placed.keeps (h : t.Placed) (hd : t.Daily days) (a : Action) :
    (t.rows.filter fun e => a.keeps e).Sublist (t.step a).rows := by
  cases a with
  | insert e =>
    have hall : (t.rows.filter fun e' => (Action.insert e).keeps e') = t.rows := List.filter_true _
    rw [hall]
    exact rows_insert t e
  | create today daysBack daysAhead =>
    have hall : (t.rows.filter fun e => (Action.create today daysBack daysAhead).keeps e) = t.rows := List.filter_true _
    rw [hall, EventsTable.step]
    cases hok : t.createDailyPartitions today daysBack daysAhead with
    | error e => exact List.Sublist.refl _
    | ok t' =>
      obtain ⟨new, rfl, -⟩ := hd.createDailyPartitions hok
      show t.rows.Sublist (t.addDays new).rows
      rw [rows_addDays]
  | drop today retainDays =>
    rw [EventsTable.step]
    cases hok : t.dropOldPartitions today retainDays with
    | error e => exact List.filter_sublist
    | ok t' =>
      obtain ⟨rfl, hvalid⟩ := dropOldPartitions_eq hok
      show (t.rows.filter _).Sublist (t.defaultRows ++ _)
      rw [rows, List.filter_append]
      refine List.filter_sublist.append (filter_flatMap_sublist fun p hp hexp e he hkeep => ?_)
      rw [Bool.not_eq_true', Bool.not_eq_false] at hexp
      exact absurd (h.old_of_expired hd hvalid hp hexp he) (not_lt.2 (of_decide_eq_true hkeep))

/-- In every state reached, a call leaves every event that it may not remove. -/
theorem events_kept (actions : List Action) (a : Action) :
    ((run {} actions).rows.filter fun e => a.keeps e).Sublist ((run {} actions).step a).rows := by
  obtain ⟨days, hd, -⟩ := Daily.empty.run actions
  have hplaced : Placed {} := fun p hp => by cases hp
  exact (hplaced.run Daily.empty actions).keeps hd a

/-! ### What stays behind -/

/-- A date whose year is written with its four digits. -/
def NamedYear (day : Int) : Prop := 0 < (civil day).year ∧ (civil day).year < 10000

/-- After a call, the older events of the table are those that were in `events_default`. -/
theorem old_kept_iff {actions : List Action} {today retainDays : Int} {t' : EventsTable}
    (hok : (run {} actions).dropOldPartitions today retainDays = .ok t') {e : EventRow}
    (hyear : NamedYear (dayOf e.eventTime)) (hold : e.eventTime < midnight (today - retainDays)) :
    e ∈ t'.rows ↔ e ∈ (run {} actions).defaultRows := by
  obtain ⟨days, hd, -⟩ := Daily.empty.run actions
  have hplaced : (run {} actions).Placed := Placed.run (fun p hp => by cases hp) Daily.empty actions
  obtain ⟨rfl, -⟩ := dropOldPartitions_eq hok
  constructor
  · intro he
    rcases List.mem_append.1 he with he | he
    · exact he
    obtain ⟨p, hp, he⟩ := List.mem_flatMap.1 he
    obtain ⟨hp, hkept⟩ := List.mem_filter.1 hp
    have hname : p.name = partitionName (dayOf e.eventTime) := (congrArg PartitionDef.name (hplaced.mem_day hd hp he)).symm
    have hexp : Expired today retainDays p.name := by
      rw [Expired, hname, partitionDate_of_year hyear.1 hyear.2, Option.any_some, day_civil, decide_eq_true_eq]
      exact lt_midnight_iff.1 hold
    rw [hexp] at hkept
    cases hkept
  · exact fun he => List.mem_append_left _ he

/-- An event that a file brings weeks after it happened. -/
def lateEvent : EventRow where
  id := 1
  tenant := str "acme"
  eventTime := SessionZone.utc.midnight 20320
  source := str "api"
  eventType := str "login"
  ingestedAt := SessionZone.utc.midnight 20345

omit [SessionZone] in
/-- It lies in `events_default`, and no call removes it. -/
theorem late_event_kept : letI : SessionZone := .utc
    ¬∀ actions today retainDays t', (run {} actions).dropOldPartitions today retainDays = .ok t' →
      ∀ e ∈ t'.rows, midnight (today - retainDays) ≤ e.eventTime := by
  have hdrop : (letI : SessionZone := .utc
      (run {} [.create 20345 1 7, .insert lateEvent]).dropOldPartitions 20345 7) =
        .ok (letI : SessionZone := .utc; run {} [.create 20345 1 7, .insert lateEvent]) := rfl
  have hrows : (letI : SessionZone := .utc; run {} [.create 20345 1 7, .insert lateEvent]).rows = [lateEvent] := rfl
  intro h
  have hle := h _ 20345 7 _ hdrop lateEvent (hrows ▸ List.mem_singleton.2 rfl)
  exact absurd hle (by decide)

omit [SessionZone] in
theorem old_kept_late : letI : SessionZone := .utc
    lateEvent ∈ (run {} [.create 20345 1 7, .insert lateEvent, .drop 20345 7]).rows := by
  have hdrop : (letI : SessionZone := .utc
      (run {} [.create 20345 1 7, .insert lateEvent]).dropOldPartitions 20345 7) =
        .ok (letI : SessionZone := .utc; run {} [.create 20345 1 7, .insert lateEvent, .drop 20345 7]) := rfl
  have hrows : (letI : SessionZone := .utc; run {} [.create 20345 1 7, .insert lateEvent]).defaultRows = [lateEvent] := rfl
  exact (@old_kept_iff .utc _ _ _ _ hdrop _ ⟨by decide, by decide⟩ (by decide)).2 (hrows ▸ List.mem_singleton.2 rfl)

/-! ### When a call succeeds -/

omit [SessionZone] in
theorem dropNames_isOk (hdate : dateOk (today - retainDays)) {names : List (List Char)}
    (hvalid : ∀ name ∈ names, ∀ date ∈ partitionDate name, date.Valid) :
    ∃ t', names.foldlM (dropIfOld today retainDays) t = .ok t' := by
  induction names generalizing t with
  | nil => exact ⟨t, rfl⟩
  | cons name names ih =>
    have hone : ∃ u, t.dropIfOld today retainDays name = .ok u := by
      unfold dropIfOld
      split
      · exact ⟨t, rfl⟩
      · rename_i date hdate'
        rw [if_neg (not_not.2 (hvalid name List.mem_cons_self date hdate')), if_neg (by rw [hdate]; decide)]
        split
        · exact ⟨_, rfl⟩
        · exact ⟨_, rfl⟩
    obtain ⟨u, hu⟩ := hone
    rw [List.foldlM_cons, hu]
    exact ih fun name hname => hvalid name (List.mem_cons_of_mem _ hname)

/-- Where no call has asked for a date before Christ, every name is that of a date. -/
theorem drop_succeeds {actions : List Action} (had : ∀ a ∈ actions, ∀ day, a.Asks day → -719162 ≤ day)
    (hdate : dateOk (today - retainDays)) : ∃ t', (run {} actions).dropOldPartitions today retainDays = .ok t' := by
  obtain ⟨days, hd, hfrom⟩ := Daily.empty.run actions
  refine dropNames_isOk hdate fun name hname date hdate => ?_
  obtain ⟨p, hp, rfl⟩ := List.mem_map.1 hname
  obtain ⟨day, hday, heq⟩ := hd.mem hp
  rw [← heq] at hdate
  rcases hfrom day hday with hmem | ⟨a, ha, hasks⟩
  · cases hmem
  have hpos : 0 < (civil day).year := (civil_year_pos day).2 (had a ha day hasks)
  have hname : partitionDate (partitionName day) = some date := hdate
  by_cases hyear : (civil day).year < 10000
  · rw [partitionDate_of_year hpos hyear] at hname
    exact Option.some.inj hname ▸ civil_valid day
  · rw [partitionDate_partitionName, if_neg] at hname
    · cases hname
    · rw [charYear, if_neg (by omega)]
      omega

end EventsTable

end LogMgmt
