import LogMgmt.Schema
import LogMgmt.Lib.Calendar

/-!
# Daily partitions

The partitions behind the `events` table: `apply_tenant_rls` of `02_schema.sql` and the two functions of
`03_partition_maintenance.sql`. A day is counted from 1970-01-01; when it begins depends on the time zone of the session
(`SessionZone`), which is UTC on the server of `docker-compose.yml`.
-/

namespace LogMgmt

/-! ### Days -/

/-- A time zone in which every day begins at 00:00, later than the day before. -/
class SessionZone where
  midnight : Int → Time
  /-- the day that an instant falls on -/
  dayOf : Time → Int
  midnight_ascends : ∀ {day day' : Int}, day < day' → midnight day < midnight day'
  dayOf_spec : ∀ t, midnight (dayOf t) ≤ t ∧ t < midnight (dayOf t + 1)

export SessionZone (midnight dayOf)

theorem utc_dayOf_spec (t : Time) :
    seconds (86400 * (t / 86400000000)) ≤ t ∧ t < seconds (86400 * (t / 86400000000 + 1)) := by
  have h : ∀ t : Int, 86400 * (t / 86400000000) * 1000000 ≤ t ∧ t < 86400 * (t / 86400000000 + 1) * 1000000 := by omega
  exact h t

theorem utc_ascends {day day' : Int} (h : day < day') : seconds (86400 * day) < seconds (86400 * day') := by
  have hlt : 86400 * day * 1000000 < 86400 * day' * 1000000 := by omega
  exact hlt

abbrev SessionZone.utc : SessionZone where
  midnight day := seconds (86400 * day)
  dayOf t := t / 86400000000
  midnight_ascends := utc_ascends
  dayOf_spec := utc_dayOf_spec

/-- `date` goes from 4713-11-24 BC to the year 5874897. -/
def dateOk (day : Int) : Bool := -2440588 ≤ day && day < 2145042906

/-- A `date` that is a `timestamptz` as well: those end in the year 294276. -/
def timestampOk (day : Int) : Bool := -2440588 ≤ day && day < 106762940

/-- A number with leading zeros. -/
def padded (width n : Nat) : List Char := (Nat.toDigits 10 n).leftpad width '0'

/-- `YYYY` of `to_char`, which writes the year 44 BC as it writes 44. -/
def charYear (c : Civil) : Nat := (if c.year ≤ 0 then 1 - c.year else c.year).toNat

/-- `to_char(day, 'YYYY_MM_DD')` -/
def toChar (day : Int) : List Char :=
  let c := civil day
  padded 4 (charYear c) ++ ('_' :: padded 2 c.month.toNat ++ ('_' :: padded 2 c.mday.toNat))

def partitionName (day : Int) : List Char := "events_".toList ++ toChar day

/-- The date in a name that matches `^events_\d{4}_\d{2}_\d{2}$`. -/
def partitionDate (name : List Char) : Option Civil :=
  match name.drop 7 with
  | [y₁, y₂, y₃, y₄, '_', m₁, m₂, '_', d₁, d₂] =>
    let num (ds : List Char) : Int := Nat.ofDigitChars 10 ds 0
    if name.take 7 = "events_".toList ∧ [y₁, y₂, y₃, y₄, m₁, m₂, d₁, d₂].all Char.isDigit then
      some ⟨num [y₁, y₂, y₃, y₄], num [m₁, m₂], num [d₁, d₂]⟩
    else none
  | _ => none

/-! ### Tables -/

/-- The row level security of one table; each of its policies has the condition of `tenant_isolation`. -/
structure RowSecurity where
  enabled : Bool := false
  forced : Bool := false
  policies : List String := []
deriving DecidableEq

def RowSecurity.applyTenantRls (s : RowSecurity) : RowSecurity where
  enabled := true
  forced := true
  policies := if "tenant_isolation" ∈ s.policies then s.policies else s.policies ++ ["tenant_isolation"]

/-- A partition as the catalog has it: `FOR VALUES FROM (lower) TO (upper)` and its row security. -/
structure PartitionDef where
  name : List Char
  lower : Time
  upper : Time
  security : RowSecurity := {}

namespace PartitionDef

variable [SessionZone]

def contains (p : PartitionDef) (t : Time) : Bool := p.lower ≤ t && t < p.upper

def overlaps (p q : PartitionDef) : Bool := p.lower < q.upper && q.lower < p.upper

/-- `FOR VALUES FROM (day) TO (day + 1)` -/
def daily (name : List Char) (day : Int) : PartitionDef where
  name
  lower := midnight day
  upper := midnight (day + 1)

end PartitionDef

structure Partition extends PartitionDef where
  rows : List EventRow := []

/-- `events`, with the rows and the row security of `events_default`. -/
structure EventsTable where
  partitions : List Partition := []
  defaultRows : List EventRow := []
  defaultSecurity : RowSecurity := RowSecurity.applyTenantRls {}

inductive DdlError where
  | outOfRange
  | invalidDate
  | partitionOverlap
  | defaultViolated
deriving DecidableEq, Repr

namespace EventsTable
variable [SessionZone]

def hasName (t : EventsTable) (name : List Char) : Bool := t.partitions.any (·.name = name)

/-- INSERT, routed by `event_time`. -/
def insert (t : EventsTable) (e : EventRow) : EventsTable :=
  if t.partitions.any (·.contains e.eventTime) then
    { t with partitions := t.partitions.map fun p =>
        if p.contains e.eventTime then { p with rows := p.rows ++ [e] } else p }
  else { t with defaultRows := t.defaultRows ++ [e] }

def applyTenantRls (t : EventsTable) (name : List Char) : EventsTable :=
  { t with partitions := t.partitions.map fun p =>
      if p.name = name then { p with security := p.security.applyTenantRls } else p }

/-- `CREATE TABLE ... PARTITION OF events`, which looks for the rows of the new range in `events_default`. -/
def createPartition (t : EventsTable) (p : PartitionDef) : Except DdlError EventsTable :=
  if t.partitions.any (·.overlaps p) then .error .partitionOverlap
  else if t.defaultRows.any (p.contains ·.eventTime) then .error .defaultViolated
  else .ok { t with partitions := t.partitions ++ [{ toPartitionDef := p }] }

/-- `CREATE TABLE IF NOT EXISTS %I PARTITION OF events FOR VALUES FROM (%L) TO (%L)` -/
def createTable (t : EventsTable) (name : List Char) (day : Int) : Except DdlError EventsTable :=
  if t.hasName name then .ok t
  else if !(timestampOk day && timestampOk (day + 1)) then .error .outOfRange
  else t.createPartition (.daily name day)

/-- The loop body of `create_daily_partitions` -/
def createDay (t : EventsTable) (day : Int) : Except DdlError EventsTable := do
  let t ← t.createTable (partitionName day) day
  return t.applyTenantRls (partitionName day)

/-- `generate_series(start, stop, interval '1 day')` -/
def series (start stop : Int) : List Int :=
  (List.range (stop + 1 - start).toNat).map fun n => start + (n : Nat)

/-- `create_daily_partitions` on the day `today` -/
def createDailyPartitions (today daysBack daysAhead : Int) (t : EventsTable) : Except DdlError EventsTable :=
  if !(timestampOk (today - daysBack) && timestampOk (today + daysAhead)) then .error .outOfRange
  else (series (today - daysBack) (today + daysAhead)).foldlM createDay t

/-- `DROP TABLE IF EXISTS` -/
def dropTable (t : EventsTable) (name : List Char) : EventsTable :=
  { t with partitions := t.partitions.filter (·.name ≠ name) }

/-- The loop body of `drop_old_partitions` -/
def dropIfOld (today retainDays : Int) (t : EventsTable) (name : List Char) : Except DdlError EventsTable :=
  match partitionDate name with
  | none => .ok t
  | some date =>
    if ¬date.Valid then .error .invalidDate
    else if !dateOk (today - retainDays) then .error .outOfRange
    else if date.day < today - retainDays then .ok (t.dropTable name)
    else .ok t

/-- `drop_old_partitions` on the day `today` -/
def dropOldPartitions (today retainDays : Int) (t : EventsTable) : Except DdlError EventsTable :=
  (t.partitions.map (·.name)).foldlM (dropIfOld today retainDays) t

/-- One call; an error rolls it back. -/
inductive Action where
  | insert (e : EventRow)
  | create (today daysBack daysAhead : Int)
  | drop (today retainDays : Int)

def step (t : EventsTable) : Action → EventsTable
  | .insert e => t.insert e
  | .create today daysBack daysAhead => (t.createDailyPartitions today daysBack daysAhead).toOption.getD t
  | .drop today retainDays => (t.dropOldPartitions today retainDays).toOption.getD t

def run (t : EventsTable) (actions : List Action) : EventsTable := actions.foldl step t

end EventsTable

end LogMgmt
