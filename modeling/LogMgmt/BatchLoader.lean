import LogMgmt.Storage
import LogMgmt.Timeutil

/-!
# The batch loader

`ingest/batch_loader.py`: the records of a JSON or CSV file are normalized, with `--rebase-timestamps` moved together
in time, and written one by one.
-/

namespace LogMgmt
open Prog

/-! ### Times -/

namespace DateTime

/-- `t - t'` -/
def sub (t t' : DateTime) : Except PyExc Int :=
  if t.utcoffset.isSome = t'.utcoffset.isSome then .ok (t.instant - t'.instant) else .error .typeError

/-- `min` of a time and others -/
def min (t : DateTime) : List DateTime → Except PyExc DateTime
  | [] => .ok t
  | t' :: ts => do if ← t.gt t' then t'.min ts else t.min ts

/-- Every time is aware, and stays in range when the earliest of them is moved to `now`. -/
def Rebasable (now : Time) (times : List DateTime) : Prop :=
  ∀ t ∈ times, t.utcoffset.isSome ∧ ∃ t₀ ∈ times, (∀ t' ∈ times, t₀.instant ≤ t'.instant) ∧
    minWall ≤ t.wall + (now - t₀.instant) ∧ t.wall + (now - t₀.instant) ≤ maxWall

end DateTime

/-! ### The program -/

namespace BatchLoader

/-- What `open` and the parser raise. -/
inductive LoadError where
  | osError
  | valueError
  /-- any other exception, such as `csv.Error` -/
  | other

/-- A file, with what `json.load` and `csv.reader` make of it. -/
structure LogFile where
  path : Str
  json : Except LoadError PyVal
  csv : Except LoadError (List (List Str))

/-- The arguments of the command but for the file. -/
structure Args where
  tenant : Option Str := none
  source : Option Str := none
  rebaseTimestamps : Bool := false

/-- An argument that may be left out. -/
def argVal : Option Str → PyVal
  | some s => .str s
  | none => .none

/-- A row of `csv.DictReader` that is not empty. -/
def dictRow (fieldnames row : List Str) : PyDict :=
  let d : PyDict := (fieldnames.zip row).foldl (fun d kv => PyDict.set d kv.1 (.str kv.2)) []
  if fieldnames.length < row.length then d ++ [(none, .list ((row.drop fieldnames.length).map .str))]
  else (fieldnames.drop row.length).foldl (fun d key => PyDict.set d key .none) d

/-- `list(csv.DictReader(f))` -/
def dictReader : List (List Str) → List PyVal
  | [] => []
  | fieldnames :: rows => (rows.filter fun row => row ≠ []).map fun row => .dict (dictRow fieldnames row)

def loadRecords (file : LogFile) : Except LoadError (List PyVal) :=
  if str ".json" <:+ file.path then file.json.map fun
    | .list vs => vs
    | v => [v]
  else if str ".csv" <:+ file.path then file.csv.map dictReader
  else .error .valueError

def resolveTenant (record : PyDict) (cliTenant : Option Str) : PyVal :=
  (record.get (str "tenant")).orElse (argVal cliTenant)

def resolveSource (record : PyDict) (cliSource : Option Str) : PyVal :=
  (record.get (str "source")).orElse (argVal cliSource)

section
variable (py : Py) (args : Args)

/-- One turn of the loop over the records, at `now`; a record without a tenant is skipped. -/
def loadRecord (record : PyVal) (now : Time) : Except PyExc (Option NormalizedEvent) :=
  match record with
  | .dict d =>
    let tenant := resolveTenant d args.tenant
    if tenant.isNone then .ok none
    else (normalize py (resolveSource d args.source) (.dict d) tenant ⟨now, some 0⟩).map some
  | _ => .error (.attributeError (str "get"))

/-- The loop over the records. -/
def collect (clock : Nat → Time) (records : List PyVal) : Except PyExc (List NormalizedEvent) := do
  let events ← records.zipIdx.mapM fun (record, i) => loadRecord py args record (clock i)
  return events.reduceOption

def rebaseTimestamps (now : DateTime) : List NormalizedEvent → Except PyExc (List NormalizedEvent)
  | [] => .ok []
  | e :: events => do
    let earliest ← e.eventTime.min (events.map (·.eventTime))
    let offset ← now.sub earliest
    (e :: events).mapM fun e => return { e with eventTime := ← e.eventTime.add offset }

/-- What `main` does before it connects. -/
def prepare (clock : Nat → Time) (now : Time) (records : List PyVal) : Except PyExc (List NormalizedEvent) := do
  let events ← collect py args clock records
  if args.rebaseTimestamps then rebaseTimestamps ⟨now, some 0⟩ events else return events

/-- `main`, with the exit status. -/
def main (file : LogFile) (clock : Nat → Time) (now : Time) : App Nat :=
  match loadRecords file with
  | .error .other => throw .python
  | .error _ => return 1
  | .ok records =>
    match prepare py args clock now records with
    | .error _ => throw .python
    | .ok events => do
      events.forM writeEvent
      return 0

end

/-! ### What a load is for -/

/-- The event, moved in time. -/
def shift (offset : Int) (e : NormalizedEvent) : NormalizedEvent :=
  { e with eventTime := { e.eventTime with wall := e.eventTime.wall + offset } }

section
variable (py : Py) (args : Args)

/-- The event of a record that resolves to a tenant, if it is normalized. -/
def recordEvent (record : PyVal) (now : Time) : Option NormalizedEvent := (loadRecord py args record now).toOption.join

def events (clock : Nat → Time) (records : List PyVal) : List NormalizedEvent :=
  records.zipIdx.filterMap fun (record, i) => recordEvent py args record (clock i)

/-- The load ends normally, and the rows it has added are one for every record that resolves to a tenant and whose row
the table accepts, and no other. -/
structure Lossless (clock : Nat → Time) (records : List PyVal) (out : Except Exn Nat × Session × List EventRow) :
    Prop where
  ends : out.1 = .ok 0
  stored : ∃ offset, (args.rebaseTimestamps = false → offset = 0) ∧
    List.Forall₂ (fun row e => EventColumns.ofParams (shift offset e) = .ok row.toEventFields) out.2.2
      ((events py args clock records).filter (·.accepted))

/-- A record is an object, and if it resolves to a tenant, this is a string that is not empty, the hint can be looked
up, and what becomes part of the row can be stored. -/
def loadable : PyVal → Bool
  | .dict d =>
    let tenant := resolveTenant d args.tenant
    let hint := resolveSource d args.source
    tenant.isNone || ((!hint.truthy || hint.hashable) && (EventArgs.strField tenant).any (· ≠ []) &&
      storable py hint (.dict d) tenant)
  | _ => false

/-- The time of a record that resolves to a tenant: its own if a normalizer takes it, else the time of its turn. -/
def recordTime (record : PyVal) (now : Time) : Option DateTime :=
  match record with
  | .dict d =>
    let tenant := resolveTenant d args.tenant
    if tenant.isNone then none
    else if (accepting py (resolveSource d args.source) (.dict d) tenant).isSome then
      (parseRfc3339 py (PyDict.get d (str "@timestamp"))).toOption
    else some ⟨now, some 0⟩
  | _ => none

def times (clock : Nat → Time) (records : List PyVal) : List DateTime :=
  records.zipIdx.filterMap fun (record, i) => recordTime py args record (clock i)

end

/-! ### One record -/

section
variable {py : Py} {args : Args} {record : PyVal} {now : Time} {e : NormalizedEvent}

theorem shift_zero (e : NormalizedEvent) : shift 0 e = e := by
  unfold shift
  rw [Int.add_zero]

theorem accepted_shift (offset : Int) (e : NormalizedEvent) : (shift offset e).accepted = e.accepted :=
  accepted_clock e _

theorem tenant_of_accepted (h : e.accepted) : e.tenant ≠ [] := by
  obtain ⟨cols, hcols, hchecked⟩ := EventFields.accepted_iff.1 h
  rw [← EventColumns.ofParams_tenant hcols]
  simp only [EventFields.checked, Bool.and_eq_true, bne_iff_ne] at hchecked
  exact hchecked.1.1.1

/-- The loop gets past a record, and the table accepts its event, exactly when the record is loadable. -/
theorem loadable_iff (pg : Pg) (hpy : py.Lawful) (record : PyVal) (now : Time) :
    loadable py args record ↔
      (loadRecord py args record now).isOk ∧ ∀ e, recordEvent py args record now = some e → e.accepted := by
  cases record with
  | dict d =>
    unfold loadable recordEvent loadRecord
    dsimp only
    generalize resolveTenant d args.tenant = tenant, resolveSource d args.source = hint
    cases tenant.isNone with
    | true => simp [Except.isOk, Except.toBool, Except.toOption]
    | false =>
      have hiff := normalize_isOk_iff py hint (.dict d) tenant ⟨now, some 0⟩
      rw [Bool.false_or, Bool.and_eq_true, Bool.and_eq_true, Bool.or_eq_true, Bool.not_eq_true', ← Bool.not_eq_true,
        ← imp_iff_not_or]
      cases hn : normalize py hint (.dict d) tenant ⟨now, some 0⟩ with
      | error exc =>
        rw [hn] at hiff
        refine iff_of_false (fun h => ?_) fun h => Bool.false_ne_true h.1
        obtain ⟨t, ht, -⟩ := (Option.any_eq_true _ _).1 h.1.2
        exact Bool.false_ne_true (hiff.2 ⟨h.1.1, by rw [ht]; rfl⟩)
      | ok e =>
        rw [hn] at hiff
        have hhint := (hiff.1 rfl).1
        have hevent : (∀ e', some e = some e' → e'.accepted) ↔ e.accepted :=
          ⟨fun h => h e rfl, fun h e' he => Option.some.inj he ▸ h⟩
        show _ ↔ true = true ∧ ∀ e', some e = some e' → e'.accepted
        rw [hevent, normalize_tenant hn, and_iff_right rfl, and_iff_right hhint]
        by_cases hne : e.tenant = []
        · exact iff_of_false (by simp [hne]) fun h => tenant_of_accepted h hne
        · rw [accepted_normalized pg hpy hn hne]
          simp [hne]
  | _ => exact iff_of_false Bool.false_ne_true fun h => Bool.false_ne_true h.1

/-- A record that the loop gets past has an event with the record's time, or none. -/
theorem recordTime_eq (h : (loadRecord py args record now).isOk) :
    recordTime py args record now = (recordEvent py args record now).map (·.eventTime) := by
  cases record with
  | dict d =>
    unfold recordTime recordEvent loadRecord at *
    dsimp only at h ⊢
    generalize resolveTenant d args.tenant = tenant, resolveSource d args.source = hint at *
    revert h
    cases tenant.isNone with
    | true => exact fun _ => rfl
    | false =>
      intro h
      cases hn : normalize py hint (.dict d) tenant ⟨now, some 0⟩ with
      | error exc =>
        rw [hn] at h
        cases h
      | ok e =>
        have htime := normalize_eventTime hn
        show (if (accepting py hint (.dict d) tenant).isSome then
          (parseRfc3339 py (PyDict.get d (str "@timestamp"))).toOption else some _) = some e.eventTime
        split_ifs at htime ⊢
        · rw [← htime]
          rfl
        · rw [Except.ok.inj htime]
  | _ => cases h

end

/-! ### All of them -/

section
variable {py : Py} {args : Args} {clock : Nat → Time} {now : Time} {records : List PyVal} {es : List NormalizedEvent}

theorem collect_ok (h : collect py args clock records = .ok es) : es = events py args clock records := by
  obtain ⟨os, hos, hes⟩ := by simpa only [collect, bind_eq_ok] using h
  have hevents : List.Forall₂ (fun p o => recordEvent py args p.1 (clock p.2) = o) records.zipIdx os :=
    (forall₂_of_mapM hos).imp fun p o hp => by
      unfold recordEvent
      rw [hp]
      rfl
  rw [← List.forall₂_map_left_iff, List.forall₂_eq_eq_eq] at hevents
  rw [← Except.ok.inj hes, ← hevents, List.reduceOption, List.filterMap_map]
  rfl

theorem collect_isOk_iff : (collect py args clock records).isOk ↔
    ∀ p ∈ records.zipIdx, (loadRecord py args p.1 (clock p.2)).isOk := by
  rw [← mapM_isOk_iff]
  unfold collect
  cases records.zipIdx.mapM fun (record, i) => loadRecord py args record (clock i) <;> rfl

theorem times_eq (h : ∀ p ∈ records.zipIdx, (loadRecord py args p.1 (clock p.2)).isOk) :
    times py args clock records = (events py args clock records).map (·.eventTime) := by
  unfold times events
  rw [List.map_filterMap]
  exact List.filterMap_congr fun p hp => recordTime_eq (h p hp)

/-! ### Rebasing -/

theorem min_ok {t m : DateTime} {ts : List DateTime} (h : t.min ts = .ok m) :
    m ∈ t :: ts ∧ ∀ t' ∈ t :: ts, m.instant ≤ t'.instant ∧ t'.utcoffset.isSome = m.utcoffset.isSome := by
  induction ts generalizing t with
  | nil =>
    cases h
    exact ⟨List.mem_singleton.2 rfl, fun t' ht' => by rw [List.mem_singleton.1 ht']; exact ⟨le_rfl, rfl⟩⟩
  | cons t' ts ih =>
    unfold DateTime.min DateTime.gt at h
    split_ifs at h with haware
    · simp only [bind, Except.bind, decide_eq_true_eq] at h
      split_ifs at h with hlt
      · obtain ⟨hmem, hall⟩ := ih h
        have ht' := hall t' List.mem_cons_self
        refine ⟨List.mem_cons_of_mem _ hmem,
          List.forall_mem_cons.2 ⟨⟨ht'.1.trans hlt.le, haware.trans ht'.2⟩, hall⟩⟩
      · obtain ⟨hmem, hall⟩ := ih h
        obtain ⟨ht, hts⟩ := List.forall_mem_cons.1 hall
        refine ⟨?_, List.forall_mem_cons.2 ⟨ht,
          List.forall_mem_cons.2 ⟨⟨ht.1.trans (not_lt.1 hlt), haware ▸ ht.2⟩, hts⟩⟩⟩
        rcases List.mem_cons.1 hmem with rfl | hmem
        · exact List.mem_cons_self
        · exact List.mem_cons_of_mem _ (List.mem_cons_of_mem _ hmem)
    · cases h

theorem min_isOk {t : DateTime} {ts : List DateTime} (h : ∀ t' ∈ ts, t'.utcoffset.isSome = t.utcoffset.isSome) :
    (t.min ts).isOk := by
  induction ts generalizing t with
  | nil => rfl
  | cons t' ts ih =>
    obtain ⟨ht', hts⟩ := List.forall_mem_cons.1 h
    unfold DateTime.min DateTime.gt
    rw [if_pos ht'.symm]
    simp only [bind, Except.bind, decide_eq_true_eq]
    split_ifs
    · exact ih fun t'' h'' => (hts t'' h'').trans ht'.symm
    · exact ih hts

theorem add_eq_ok {t t' : DateTime} {delta : Int} : t.add delta = .ok t' ↔
    (DateTime.minWall ≤ t.wall + delta ∧ t.wall + delta ≤ DateTime.maxWall) ∧
      t' = { t with wall := t.wall + delta } := by
  unfold DateTime.add
  split_ifs with h
  · exact ⟨fun he => ⟨h, (Except.ok.inj he).symm⟩, fun he => by rw [he.2]⟩
  · exact ⟨fun he => (by cases he), fun he => absurd he.1 h⟩

theorem sub_eq_ok {now : Time} {t : DateTime} {delta : Int} :
    (⟨now, some 0⟩ : DateTime).sub t = .ok delta ↔ t.utcoffset.isSome ∧ delta = now - t.instant := by
  have hinstant : (⟨now, some 0⟩ : DateTime).instant = now := Int.sub_zero now
  unfold DateTime.sub
  rw [hinstant]
  split_ifs with h
  · exact ⟨fun he => ⟨h.symm, (Except.ok.inj he).symm⟩, fun he => by rw [he.2]⟩
  · exact ⟨fun he => (by cases he), fun he => absurd he.1.symm h⟩

/-- All events are moved by what is between the earliest of them and `now`. -/
theorem rebase_cons_ok {now : DateTime} {e : NormalizedEvent} {es' : List NormalizedEvent}
    (h : rebaseTimestamps now (e :: es) = .ok es') : ∃ earliest offset,
      e.eventTime.min (es.map (·.eventTime)) = .ok earliest ∧ now.sub earliest = .ok offset ∧
        es' = (e :: es).map (shift offset) := by
  obtain ⟨earliest, hmin, offset, hsub, h⟩ := by simpa only [rebaseTimestamps, bind_eq_ok] using h
  have hshift : List.Forall₂ (fun e e' => shift offset e = e') (e :: es) es' :=
    (forall₂_of_mapM h).imp fun e e' he => by
    obtain ⟨t, ht, he⟩ := bind_eq_ok.1 he
    rw [← Except.ok.inj he, (add_eq_ok.1 ht).2]
    rfl
  rw [← List.forall₂_map_left_iff, List.forall₂_eq_eq_eq] at hshift
  exact ⟨earliest, offset, hmin, hsub, hshift.symm⟩

theorem rebase_ok {now : DateTime} {es' : List NormalizedEvent} (h : rebaseTimestamps now es = .ok es') :
    ∃ offset, es' = es.map (shift offset) := by
  cases es with
  | nil =>
    cases h
    exact ⟨0, rfl⟩
  | cons e es =>
    obtain ⟨-, offset, -, -, hes⟩ := rebase_cons_ok h
    exact ⟨offset, hes⟩

theorem rebase_isOk_iff (now : Time) (es : List NormalizedEvent) :
    (rebaseTimestamps ⟨now, some 0⟩ es).isOk ↔ DateTime.Rebasable now (es.map (·.eventTime)) := by
  cases es with
  | nil => exact iff_of_true rfl fun _ h => absurd h List.not_mem_nil
  | cons e es =>
    simp only [rebaseTimestamps, isOk_bind_iff, mapM_isOk_iff]
    constructor
    · rintro ⟨earliest, hmin, offset, hsub, hadd⟩ t ht
      obtain ⟨haware, rfl⟩ := sub_eq_ok.1 hsub
      obtain ⟨hmem, hall⟩ := min_ok hmin
      obtain ⟨e', he', rfl⟩ := List.mem_map.1 ht
      obtain ⟨t', ht', -⟩ := hadd e' he'
      exact ⟨(hall _ ht).2.trans haware, earliest, hmem, fun t' ht' => (hall t' ht').1, (add_eq_ok.1 ht').1⟩
    · intro h
      obtain ⟨he, hes⟩ := List.forall_mem_cons.1 h
      obtain ⟨earliest, hmin⟩ := exists_of_isOk (min_isOk fun t ht => (hes t ht).1.trans he.1.symm)
      obtain ⟨hmem, hall⟩ := min_ok hmin
      refine ⟨earliest, hmin, _, sub_eq_ok.2 ⟨(h earliest hmem).1, rfl⟩, fun e' he' => ?_⟩
      obtain ⟨-, t₀, ht₀, hle, hrange⟩ := h e'.eventTime (List.mem_map_of_mem he')
      -- `t₀` and `earliest` may be written with different offsets
      have hsame : t₀.instant = earliest.instant := le_antisymm (hle earliest hmem) (hall t₀ ht₀).1
      rw [hsame] at hrange
      exact ⟨_, add_eq_ok.2 ⟨hrange, rfl⟩, rfl⟩

theorem prepare_ok (h : prepare py args clock now records = .ok es) : ∃ offset,
    (args.rebaseTimestamps = false → offset = 0) ∧ es = (events py args clock records).map (shift offset) := by
  obtain ⟨es', hcollect, h⟩ := bind_eq_ok.1 h
  obtain rfl := collect_ok hcollect
  split_ifs at h with hrebase
  · obtain ⟨offset, hes⟩ := rebase_ok h
    exact ⟨offset, fun hc => absurd hrebase (by rw [hc]; exact Bool.false_ne_true), hes⟩
  · refine ⟨0, fun _ => rfl, ?_⟩
    rw [← Except.ok.inj h, List.map_congr_left fun e _ => shift_zero e, List.map_id']

theorem prepare_isOk_iff (now : Time) : (prepare py args clock now records).isOk ↔
    (∀ p ∈ records.zipIdx, (loadRecord py args p.1 (clock p.2)).isOk) ∧
      (args.rebaseTimestamps → DateTime.Rebasable now (times py args clock records)) := by
  rw [← collect_isOk_iff]
  unfold prepare
  cases hcollect : collect py args clock records with
  | error exc => exact iff_of_false Bool.false_ne_true fun h => Bool.false_ne_true h.1
  | ok es =>
    have htimes : times py args clock records = es.map (·.eventTime) := by
      rw [times_eq (collect_isOk_iff.1 (by rw [hcollect]; rfl)), collect_ok hcollect]
    rw [htimes, ← rebase_isOk_iff]
    show (if args.rebaseTimestamps = true then _ else _ : Except _ _).isOk ↔ _
    split_ifs with hrebase
    · exact ⟨fun h => ⟨rfl, fun _ => h⟩, fun h => h.2 hrebase⟩
    · exact iff_of_true rfl ⟨rfl, fun h => absurd h hrebase⟩

/-! ### The run -/

/-- The events are written in turn, in four commands each, until the table rejects one or a command fails. -/
theorem wp_writeAll (pg : Pg) (s : Session) (es : List NormalizedEvent) :
    wp (handleAdded pg) (es.forM writeEvent)
      (fun _ t => ((∀ e ∈ es, e.accepted) ∧ ∀ n < 4 * es.length, (s.nature n).fault = false) ∧
        List.Forall₂ (fun row e => EventColumns.ofParams e = .ok row.toEventFields) t.2 es)
      (fun _ _ => (∀ e ∈ es, e.accepted) → ∃ n < 4 * es.length, (s.nature n).fault = true) (s, []) := by
  let I : List NormalizedEvent → Session × List EventRow → Prop := fun done t =>
    (((∀ e ∈ done, e.accepted) ∧ ∀ n < 4 * done.length, (s.nature n).fault = false) ∧
      List.Forall₂ (fun row e => EventColumns.ofParams e = .ok row.toEventFields) t.2 done) ∧
    ∀ k, t.1.nature k = s.nature (4 * done.length + k)
  have hstart : I [] (s, []) :=
    ⟨⟨⟨fun _ he => absurd he List.not_mem_nil, fun n hn => absurd hn n.not_lt_zero⟩, .nil⟩, fun k => by simp⟩
  refine wp_mono (wp_forM (I := I) es writeEvent ?_ hstart) (fun _ t h => h.1) fun _ _ => id
  rintro done e rest rfl ⟨s', rows⟩ ⟨⟨⟨hdone, hcalm⟩, hrows⟩, hnature⟩
  refine wp_mono (wp_writeEvent_added pg e s' rows) ?_ ?_
  · rintro _ ⟨s'', rows'⟩ ⟨hcalm', hnature', -, row, hrow, hchecked, -, hadded⟩
    refine ⟨⟨⟨?_, fun n hn => ?_⟩, ?_⟩, fun k => ?_⟩
    · rw [List.forall_mem_append, List.forall_mem_singleton]
      exact ⟨hdone, EventFields.accepted_iff.2 ⟨_, hrow, hchecked⟩⟩
    · rw [List.length_append, List.length_singleton] at hn
      by_cases hlt : n < 4 * done.length
      · exact hcalm n hlt
      · have := hcalm' (n - 4 * done.length) (by omega)
        rwa [hnature, Nat.add_sub_cancel' (Nat.not_lt.1 hlt)] at this
    · rw [hadded]
      exact List.rel_append hrows (.cons hrow .nil)
    · rw [hnature', hnature, List.length_append, List.length_singleton]
      congr 1
      omega
  · rintro _ t ⟨hfault, -⟩ hall
    obtain ⟨n, hn, hf⟩ := hfault (hall e (by simp))
    rw [hnature] at hf
    refine ⟨_, ?_, hf⟩
    rw [List.length_append, List.length_cons]
    omega

theorem forall_loadable_iff (pg : Pg) (hpy : py.Lawful) (clock : Nat → Time) :
    (∀ record ∈ records, loadable py args record) ↔
      (∀ p ∈ records.zipIdx, (loadRecord py args p.1 (clock p.2)).isOk) ∧
        ∀ e ∈ events py args clock records, e.accepted := by
  have hzip : (∀ record ∈ records, loadable py args record) ↔ ∀ p ∈ records.zipIdx, loadable py args p.1 := by
    have := List.forall_mem_map (l := records.zipIdx) (f := Prod.fst) (P := fun record => loadable py args record)
    rwa [List.zipIdx_map_fst] at this
  have hevents : (∀ e ∈ events py args clock records, e.accepted) ↔
      ∀ p ∈ records.zipIdx, ∀ e, recordEvent py args p.1 (clock p.2) = some e → e.accepted := by
    simp only [events, List.mem_filterMap]
    exact ⟨fun h p hp e he => h e ⟨p, hp, he⟩, fun h e ⟨p, hp, he⟩ => h p hp e he⟩
  rw [hzip, hevents, ← forall₂_and]
  exact forall₂_congr fun p _ => loadable_iff pg hpy p.1 (clock p.2)

/-- A batch load loses no record exactly when every record is loadable, with `--rebase-timestamps` the times of those
that resolve to a tenant are rebasable, and none of the four commands for each of these fails. The rows that it adds are
those that are new when no other session writes. -/
theorem load_lossless_iff (pg : Pg) (hpy : py.Lawful) (args : Args) {file : LogFile}
    (hload : loadRecords file = .ok records) (clock : Nat → Time) (now : Time) (s : Session) :
    let out := (main py args file clock now).run (handleAdded pg) (s, [])
    (Lossless py args clock records out ↔ (∀ record ∈ records, loadable py args record) ∧
      (args.rebaseTimestamps → DateTime.Rebasable now (times py args clock records)) ∧
      ∀ n < 4 * (times py args clock records).length, (s.nature n).fault = false) ∧
    (s.Alone → out.2.1.db.events = s.db.events ++ out.2.2) := by
  intro out
  refine ⟨?_, fun halone => wp_state.1 (halone.wp_added pg _)⟩
  have hout : out = (match prepare py args clock now records with
      | .error _ => throw .python
      | .ok events => do events.forM writeEvent; return 0 : App Nat).run (handleAdded pg) (s, []) := by
    show (main py args file clock now).run (handleAdded pg) (s, []) = _
    unfold main
    rw [hload]
  have hprepared : (prepare py args clock now records).isOk ↔ _ := prepare_isOk_iff now
  rw [hout, forall_loadable_iff pg hpy clock]
  cases hprepare : prepare py args clock now records with
  | error exc =>
    rw [hprepare] at hprepared
    exact iff_of_false (fun h => by cases h.ends) fun h => Bool.false_ne_true (hprepared.2 ⟨h.1.1, h.2.1⟩)
  | ok es =>
    rw [hprepare] at hprepared
    obtain ⟨hrecords, hrebase⟩ := hprepared.1 rfl
    obtain ⟨offset, hoffset, rfl⟩ := prepare_ok hprepare
    generalize hes : (events py args clock records).map (shift offset) = es
    have h := wp_writeAll pg s es
    have hall : (∀ e ∈ es, e.accepted) ↔ ∀ e ∈ events py args clock records, e.accepted := by
      simp only [← hes, List.forall_mem_map, accepted_shift]
    have hlen : es.length = (events py args clock records).length := by rw [← hes, List.length_map]
    rw [hall, hlen] at h
    have hlength : (times py args clock records).length = (events py args clock records).length := by
      rw [times_eq hrecords, List.length_map]
    rw [hlength]
    show Lossless _ _ _ _ (run _ (es.forM writeEvent >>= fun _ => pure 0) _) ↔ _
    rw [run_bind]
    revert h
    unfold wp
    rcases run (handleAdded pg) (es.forM writeEvent) (s, []) with ⟨err | _, t⟩
    · intro hfault
      refine iff_of_false (fun h => by cases h.ends) fun h => ?_
      obtain ⟨n, hn, hf⟩ := hfault h.1.2
      rw [h.2.2 n hn] at hf
      cases hf
    · rintro ⟨⟨haccepted, hcalm⟩, hrows⟩
      refine iff_of_true ⟨rfl, offset, hoffset, ?_⟩ ⟨⟨hrecords, haccepted⟩, hrebase, hcalm⟩
      rw [List.filter_eq_self.2 haccepted]
      rw [← hes] at hrows
      exact List.forall₂_map_right_iff.1 hrows

/-- A JSON array. -/
def LogFile.sample (records : List PyVal) : LogFile where
  path := str "logs.json"
  json := .ok (.list records)
  csv := .error .other

/-- A record of the source `api` with more keys. -/
def sampleRecord (more : PyDict) : PyVal :=
  .dict ([(some (str "tenant"), .str (str "demoA")), (some (str "source"), .str (str "api")),
    (some (str "@timestamp"), .str (str "2025-08-20T07:20:00Z")),
    (some (str "event_type"), .str (str "app_login_failed"))] ++ more)

/-- Two records, one of which no normalizer takes. -/
theorem load_two : Lossless Py.sample { rebaseTimestamps := true } (fun _ => 0)
    [sampleRecord [], sampleRecord [(some (str "reason"), .int 5)]]
    ((main Py.sample { rebaseTimestamps := true }
      (.sample [sampleRecord [], sampleRecord [(some (str "reason"), .int 5)]])
      (fun _ => 0) 0).run (handleAdded World.sample.pg) (.fresh, [])) :=
  (load_lossless_iff World.sample.pg Py.sample_lawful _ rfl (fun _ => 0) 0 .fresh).1.2
    ⟨by decide, fun _ => by unfold DateTime.Rebasable; decide, fun _ _ => rfl⟩

/-- After a record that is a number: `main` raises, and the acceptable record before it is not stored. -/
theorem load_number :
    let records := [sampleRecord [], .int 5]
    let out := (main Py.sample {} (.sample records) (fun _ => 0) 0).run (handleAdded World.sample.pg) (.fresh, [])
    loadRecords (.sample records) = .ok records ∧
      ((events Py.sample {} (fun _ => 0) records).filter (·.accepted)).length = 1 ∧ out.1 = .error .python ∧
      out.2.1.db.events = [] ∧ ¬Lossless Py.sample {} (fun _ => 0) records out := by
  intro records out
  have hraises : out.1 = .error .python := by rfl
  refine ⟨rfl, by decide, hraises, by rfl, fun h => ?_⟩
  rw [h.ends] at hraises
  cases hraises

end

end BatchLoader

end LogMgmt
