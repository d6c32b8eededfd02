import LogMgmt.Storage
import LogMgmt.Paging

/-!
# The columns of an event

`INSERT_SQL` of `ingest/db.py` binds named parameters to columns, and `GET /search` reads the columns of
its own list back by position. A stored event comes out of a search with every field as it went in, unless an address
of it has a scope id, which `inet` does not hold, or `raw` is changed on its way through JSON: the key `None` is `"null"`
there, and two surrogates can be one character (`search_returns_written_iff`).
-/

namespace LogMgmt
open Prog

/-! ### Writing -/

/-- The columns of `events`; `tags` is `_tags`, and `user` is quoted in SQL. -/
inductive Column where
  | id | tenant | eventTime | source | vendor | product | eventType | eventSubtype | severity | action
  | srcIp | srcPort | dstIp | dstPort | protocol | user | host | process | url | httpMethod | statusCode
  | ruleName | ruleId | cloudAccountId | cloudRegion | cloudService | raw | tags | ingestedAt
deriving DecidableEq, Repr

inductive ColumnType where
  | bigint | text | timestamptz | smallint | integer | inet | jsonb | textArray
deriving DecidableEq, Repr

def Column.type : Column → ColumnType
  | id => .bigint
  | eventTime | ingestedAt => .timestamptz
  | severity => .smallint
  | srcPort | dstPort | statusCode => .integer
  | srcIp | dstIp => .inet
  | raw => .jsonb
  | tags => .textArray
  | _ => .text

/-- A value in a row. -/
inductive SqlValue where
  | null
  | int (i : Int)
  | text (s : Str)
  | timestamptz (t : Time)
  | inet (a : Inet)
  | jsonb (d : PyDict)
  | textArray (ss : List Str)

/-- A value that psycopg binds to a placeholder. -/
inductive Param where
  | none
  | int (i : Int)
  | str (s : Str)
  | datetime (t : DateTime)
  | ip (a : IPAddress)
  | jsonb (d : PyDict)
  | list (ss : List Str)

/-- `smallint` -/
def int2Ok (i : Int) : Bool := -32768 ≤ i && i ≤ 32767

/-- The value that a column of the type takes from a parameter; none where the server raises. -/
def ColumnType.assign : ColumnType → Param → Option SqlValue
  | _, .none => some .null
  | .bigint, .int i => if int8Ok i then some (.int i) else none
  | .smallint, .int i => if int2Ok i then some (.int i) else none
  | .integer, .int i => if int4Ok i then some (.int i) else none
  | .text, .str s => if textOk s then some (.text s) else none
  | .timestamptz, .datetime t => some (.timestamptz t.instant)
  | .inet, .ip a => some (.inet a.toInet)
  | .jsonb, .jsonb d => if jsonbOk (.dict d) then some (.jsonb (jsonbDict d)) else none
  | .textArray, .list ss => if ss.all textOk then some (.textArray ss) else none
  | _, _ => none

/-- The placeholders of `INSERT_SQL`: the fields of `NormalizedEvent`. -/
inductive Placeholder where
  | tenant | eventTime | source | vendor | product | eventType | eventSubtype | severity | action
  | srcIp | srcPort | dstIp | dstPort | protocol | user | host | process | url | httpMethod | statusCode
  | ruleName | ruleId | cloudAccountId | cloudRegion | cloudService | raw | tags
deriving DecidableEq, Repr

namespace Param

def text (s : Option Str) : Param := s.elim none str
def integer (i : Option Int) : Param := i.elim none int
def address (a : Option IPAddress) : Param := a.elim none ip

end Param

/-- `_params` -/
def params (e : NormalizedEvent) : Placeholder → Param
  | .tenant => .str e.tenant
  | .eventTime => .datetime e.eventTime
  | .source => .str e.source
  | .vendor => .text e.vendor
  | .product => .text e.product
  | .eventType => .str e.eventType
  | .eventSubtype => .text e.eventSubtype
  | .severity => .integer e.severity
  | .action => .text e.action
  | .srcIp => .address e.srcIp
  | .srcPort => .integer e.srcPort
  | .dstIp => .address e.dstIp
  | .dstPort => .integer e.dstPort
  | .protocol => .text e.protocol
  | .user => .text e.user
  | .host => .text e.host
  | .process => .text e.process
  | .url => .text e.url
  | .httpMethod => .text e.httpMethod
  | .statusCode => .integer e.statusCode
  | .ruleName => .text e.ruleName
  | .ruleId => .text e.ruleId
  | .cloudAccountId => .text e.cloudAccountId
  | .cloudRegion => .text e.cloudRegion
  | .cloudService => .text e.cloudService
  | .raw => .jsonb e.raw
  | .tags => .list e.tags

/-- The column list of `INSERT_SQL`. -/
def insertColumns : List Column :=
  [.tenant, .eventTime, .source, .vendor, .product, .eventType, .eventSubtype,
    .severity, .action, .srcIp, .srcPort, .dstIp, .dstPort, .protocol,
    .user, .host, .process, .url, .httpMethod, .statusCode, .ruleName, .ruleId,
    .cloudAccountId, .cloudRegion, .cloudService, .raw, .tags]

/-- The VALUES of `INSERT_SQL`. -/
def insertValues : List Placeholder :=
  [.tenant, .eventTime, .source, .vendor, .product, .eventType, .eventSubtype,
    .severity, .action, .srcIp, .srcPort, .dstIp, .dstPort, .protocol,
    .user, .host, .process, .url, .httpMethod, .statusCode, .ruleName, .ruleId,
    .cloudAccountId, .cloudRegion, .cloudService, .raw, .tags]

/-- The values that `INSERT_SQL` with `_params` gives to columns. -/
def inserted (e : NormalizedEvent) : Option (List (Column × SqlValue)) :=
  (insertColumns.zip insertValues).mapM fun cp => (cp.1.type.assign (params e cp.2)).map fun v => (cp.1, v)

/-! ### Rows -/

namespace SqlValue

def ofText (s : Option Str) : SqlValue := s.elim null text
def ofInt (i : Option Int) : SqlValue := i.elim null int
def ofInet (a : Option Inet) : SqlValue := a.elim null inet

end SqlValue

/-- The value of a column in a row. -/
def EventRow.column (row : EventRow) : Column → SqlValue
  | .id => .int row.id
  | .tenant => .text row.tenant
  | .eventTime => .timestamptz row.eventTime
  | .source => .text row.source
  | .vendor => .ofText row.vendor
  | .product => .ofText row.product
  | .eventType => .text row.eventType
  | .eventSubtype => .ofText row.eventSubtype
  | .severity => .ofInt row.severity
  | .action => .ofText row.action
  | .srcIp => .ofInet row.srcIp
  | .srcPort => .ofInt row.srcPort
  | .dstIp => .ofInet row.dstIp
  | .dstPort => .ofInt row.dstPort
  | .protocol => .ofText row.protocol
  | .user => .ofText row.user
  | .host => .ofText row.host
  | .process => .ofText row.process
  | .url => .ofText row.url
  | .httpMethod => .ofText row.httpMethod
  | .statusCode => .ofInt row.statusCode
  | .ruleName => .ofText row.ruleName
  | .ruleId => .ofText row.ruleId
  | .cloudAccountId => .ofText row.cloudAccountId
  | .cloudRegion => .ofText row.cloudRegion
  | .cloudService => .ofText row.cloudService
  | .raw => .jsonb row.raw
  | .tags => .textArray row.tags
  | .ingestedAt => .timestamptz row.ingestedAt

/-! ### Reading -/

namespace SqlValue

def asInt : SqlValue → Option Int
  | int i => some i
  | _ => none

def asText : SqlValue → Option Str
  | text s => some s
  | _ => none

def asTime : SqlValue → Option Time
  | timestamptz t => some t
  | _ => none

def asInet : SqlValue → Option Inet
  | inet a => some a
  | _ => none

def asDict : SqlValue → Option PyDict
  | jsonb d => some d
  | _ => none

def asList : SqlValue → Option (List Str)
  | textArray ss => some ss
  | _ => none

/-- `row[i]`, validated as the type of a field. -/
def load {α : Type} (row : List SqlValue) (i : Nat) (as : SqlValue → Option α) : Option α := row[i]?.bind as

/-- A field that may be `None`. -/
def optional {α : Type} (as : SqlValue → Option α) : SqlValue → Option (Option α)
  | null => some none
  | v => (as v).map some

theorem optional_ofText (s : Option Str) : optional asText (ofText s) = some s := by cases s <;> rfl
theorem optional_ofInt (i : Option Int) : optional asInt (ofInt i) = some i := by cases i <;> rfl
theorem optional_ofInet (a : Option Inet) : optional asInet (ofInet a) = some a := by cases a <;> rfl

end SqlValue

/-- `_COLUMNS` -/
def columns : List Column :=
  [.id, .tenant, .eventTime, .source, .vendor, .product, .eventType,
    .eventSubtype, .severity, .action, .srcIp, .srcPort, .dstIp,
    .dstPort, .protocol, .user, .host, .process, .url, .httpMethod,
    .statusCode, .ruleName, .ruleId, .cloudAccountId, .cloudRegion,
    .cloudService, .raw, .tags]

/-- What `SELECT {columns}` fetches of a row. -/
def EventRow.selected (row : EventRow) : List SqlValue := columns.map row.column

open SqlValue in
/-- `SearchResultItem(id=row[0], ..., tags=row[27])` -/
def SearchResultItem.ofValues (row : List SqlValue) : Option SearchResultItem := do
  return {
    id := (← load row 0 asInt).toNat
    tenant := ← load row 1 asText
    eventTime := ← load row 2 asTime
    source := ← load row 3 asText
    vendor := ← load row 4 (optional asText)
    product := ← load row 5 (optional asText)
    eventType := ← load row 6 asText
    eventSubtype := ← load row 7 (optional asText)
    severity := ← load row 8 (optional asInt)
    action := ← load row 9 (optional asText)
    srcIp := ← load row 10 (optional asInet)
    srcPort := ← load row 11 (optional asInt)
    dstIp := ← load row 12 (optional asInet)
    dstPort := ← load row 13 (optional asInt)
    protocol := ← load row 14 (optional asText)
    user := ← load row 15 (optional asText)
    host := ← load row 16 (optional asText)
    process := ← load row 17 (optional asText)
    url := ← load row 18 (optional asText)
    httpMethod := ← load row 19 (optional asText)
    statusCode := ← load row 20 (optional asInt)
    ruleName := ← load row 21 (optional asText)
    ruleId := ← load row 22 (optional asText)
    cloudAccountId := ← load row 23 (optional asText)
    cloudRegion := ← load row 24 (optional asText)
    cloudService := ← load row 25 (optional asText)
    raw := ← load row 26 asDict
    tags := ← load row 27 asList }

/-- An `inet` as psycopg loads it; with a netmask it is no address for `IPvAnyAddress`. -/
def Inet.load : Inet → Option IPAddress
  | v4 addr masklen => if masklen = 32 then some (.v4 addr) else none
  | v6 addr masklen => if masklen = 128 then some (.v6 addr none) else none

/-- The fields that an item has in common with `NormalizedEvent`, times in UTC. -/
def SearchResultItem.event (item : SearchResultItem) : Option NormalizedEvent := do
  let srcIp ← item.srcIp.elim (some none) fun a => a.load.map some
  let dstIp ← item.dstIp.elim (some none) fun a => a.load.map some
  return { item with eventTime := ⟨item.eventTime, some 0⟩, srcIp, dstIp }

theorem ofValues_selected (row : EventRow) :
    SearchResultItem.ofValues row.selected = some (SearchResultItem.ofRow row) := by
  simp [SearchResultItem.ofValues, EventRow.selected, columns, EventRow.column, SqlValue.load, SqlValue.asInt, SqlValue.asText,
    SqlValue.asTime, SqlValue.asDict, SqlValue.asList, SqlValue.optional_ofText, SqlValue.optional_ofInt,
    SqlValue.optional_ofInet, SearchResultItem.ofRow]

/-! ### What JSON keeps -/

theorem joinSurrogates_cons {c d : CodePoint} {s : Str}
    (h : ¬(0xD800 ≤ c.val ∧ c.val < 0xDC00 ∧ 0xDC00 ≤ d.val ∧ d.val < 0xE000)) :
    joinSurrogates (c :: d :: s) = c :: joinSurrogates (d :: s) :=
  if_neg h

/-- What begins the result is what began the string, or no surrogate. -/
theorem head_joinSurrogates (d : CodePoint) (s : Str) :
    ∃ e t, joinSurrogates (d :: s) = e :: t ∧ (e = d ∨ 0x10000 ≤ e.val) := by
  cases s with
  | nil => exact ⟨d, [], rfl, .inl rfl⟩
  | cons low s =>
    rw [joinSurrogates]
    split_ifs with hpair
    · refine ⟨_, _, rfl, .inr ?_⟩
      rw [Fin.val_ofNat, Nat.mod_eq_of_lt (by omega)]
      omega
    · exact ⟨d, _, rfl, .inl rfl⟩

/-- No pair is left. -/
theorem joinSurrogates_joined (s : Str) : joinSurrogates (joinSurrogates s) = joinSurrogates s := by
  induction s using joinSurrogates.induct with
  | case1 high low s hpair ih =>
    rw [joinSurrogates, if_pos hpair]
    cases hs : joinSurrogates s with
    | nil => rfl
    | cons c t =>
      rw [joinSurrogates_cons, ← hs, ih]
      rw [Fin.val_ofNat, Nat.mod_eq_of_lt (by omega)]
      omega
  | case2 high low s hpair ih =>
    rw [joinSurrogates, if_neg hpair]
    obtain ⟨e, t, he, hhead⟩ := head_joinSurrogates low s
    rw [he] at ih ⊢
    rw [joinSurrogates_cons, ih]
    rcases hhead with rfl | hhead
    · exact hpair
    · omega
  | case3 s hshort => cases s with
    | nil => rfl
    | cons c s => cases s with
      | nil => rfl
      | cons d s => exact absurd rfl (hshort c d s)

mutual
/-- A value that JSON keeps: no key is `None`, and no string has a high and a low surrogate side by side. -/
def jsonKeeps : PyVal → Bool
  | .str s => joinSurrogates s = s
  | .list vs => jsonKeepsList vs
  | .dict kvs => jsonKeepsDict kvs
  | _ => true

def jsonKeepsList : List PyVal → Bool
  | [] => true
  | v :: vs => jsonKeeps v && jsonKeepsList vs

def jsonKeepsDict : PyDict → Bool
  | [] => true
  | (k, v) :: kvs => k.any (fun k => joinSurrogates k = k) && jsonKeeps v && jsonKeepsDict kvs
end

theorem jsonKey_kept (k : Option Str) : (jsonKey k).any (fun k => joinSurrogates k = k) :=
  decide_eq_true (joinSurrogates_joined _)

mutual
theorem jsonKeeps_jsonb (v : PyVal) : jsonKeeps (jsonb v) := by
  cases v with
  | str s => exact decide_eq_true (joinSurrogates_joined s)
  | list vs => exact jsonKeepsList_jsonb vs
  | dict kvs => exact jsonKeepsDict_jsonb kvs
  | _ => rfl

theorem jsonKeepsList_jsonb (vs : List PyVal) : jsonKeepsList (jsonbList vs) := by
  cases vs with
  | nil => rfl
  | cons v vs =>
    rw [jsonbList, jsonKeepsList, jsonKeeps_jsonb v, jsonKeepsList_jsonb vs]
    rfl

theorem jsonKeepsDict_jsonb (kvs : PyDict) : jsonKeepsDict (jsonbDict kvs) := by
  cases kvs with
  | nil => rfl
  | cons kv kvs =>
    obtain ⟨k, v⟩ := kv
    rw [jsonbDict]
    split_ifs
    · exact jsonKeepsDict_jsonb kvs
    · rw [jsonKeepsDict, jsonKey_kept, jsonKeeps_jsonb v, jsonKeepsDict_jsonb kvs]
      rfl
end

theorem jsonKey_eq_self {k : Option Str} (h : k.any fun k => joinSurrogates k = k) : jsonKey k = k := by
  cases k with
  | none => cases h
  | some k => exact congrArg some (of_decide_eq_true h)

/-- Two keys that JSON keeps are not written in the same way. -/
theorem jsonKey_ne {kvs : PyDict} (h : jsonKeepsDict kvs) {k : Option Str} (hk : jsonKey k = k) :
    (kvs.any fun kv => kv.1 != k && jsonKey kv.1 == jsonKey k) = false := by
  induction kvs with
  | nil => rfl
  | cons kv kvs ih =>
    obtain ⟨k', v⟩ := kv
    simp only [jsonKeepsDict, Bool.and_eq_true] at h
    rw [List.any_cons, ih h.2, Bool.or_false, jsonKey_eq_self h.1.1, hk]
    by_cases hne : k' = k <;> simp [hne]

mutual
theorem jsonb_eq_self {v : PyVal} (h : jsonKeeps v) : jsonb v = v := by
  cases v with
  | str s => exact congrArg PyVal.str (of_decide_eq_true h)
  | list vs => exact congrArg PyVal.list (jsonbList_eq_self h)
  | dict kvs => exact congrArg PyVal.dict (jsonbDict_eq_self h)
  | _ => rfl

theorem jsonbList_eq_self {vs : List PyVal} (h : jsonKeepsList vs) : jsonbList vs = vs := by
  cases vs with
  | nil => rfl
  | cons v vs =>
    rw [jsonKeepsList, Bool.and_eq_true] at h
    rw [jsonbList, jsonb_eq_self h.1, jsonbList_eq_self h.2]

theorem jsonbDict_eq_self {kvs : PyDict} (h : jsonKeepsDict kvs) : jsonbDict kvs = kvs := by
  cases kvs with
  | nil => rfl
  | cons kv kvs =>
    obtain ⟨k, v⟩ := kv
    simp only [jsonKeepsDict, Bool.and_eq_true] at h
    have hk := jsonKey_eq_self h.1.1
    rw [jsonbDict, jsonKey_ne h.2 hk, if_neg Bool.false_ne_true, hk, jsonb_eq_self h.1.2, jsonbDict_eq_self h.2]
end

theorem jsonbDict_eq_iff {kvs : PyDict} : jsonbDict kvs = kvs ↔ jsonKeepsDict kvs :=
  ⟨fun h => h ▸ jsonKeepsDict_jsonb kvs, jsonbDict_eq_self⟩

/-! ### What is written is read -/

def IPAddress.withoutScope : IPAddress → IPAddress
  | v4 addr => .v4 addr
  | v6 addr _ => .v6 addr none

theorem IPAddress.withoutScope_eq_iff {ip : IPAddress} : ip.withoutScope = ip ↔ ip.scopeFree := by
  cases ip with
  | v4 addr => exact iff_of_true rfl rfl
  | v6 addr scopeId => cases scopeId <;> simp [withoutScope, scopeFree]

theorem IPAddress.load_toInet (ip : IPAddress) : ip.toInet.load = some ip.withoutScope := by
  cases ip <;> rfl

/-- The event as the table keeps it, its time in UTC. -/
def EventFields.stored (e : NormalizedEvent) : NormalizedEvent :=
  { e with
    eventTime := ⟨e.eventTime.instant, some 0⟩
    srcIp := e.srcIp.map IPAddress.withoutScope
    dstIp := e.dstIp.map IPAddress.withoutScope
    raw := jsonbDict e.raw }

/-- The table keeps every field: no address has a scope id, and JSON keeps `raw`. -/
structure EventFields.Kept (e : NormalizedEvent) : Prop where
  srcIp : ∀ ip ∈ e.srcIp, ip.scopeFree
  dstIp : ∀ ip ∈ e.dstIp, ip.scopeFree
  raw : jsonKeepsDict e.raw

theorem map_withoutScope_eq_iff {ip : Option IPAddress} :
    ip.map IPAddress.withoutScope = ip ↔ ∀ a ∈ ip, a.scopeFree := by
  cases ip with
  | none => simp
  | some a => simp [IPAddress.withoutScope_eq_iff]

theorem EventFields.stored_eq_iff {e : NormalizedEvent} :
    e.stored = { e with eventTime := ⟨e.eventTime.instant, some 0⟩ } ↔ e.Kept := by
  constructor
  · intro h
    exact ⟨map_withoutScope_eq_iff.1 (congrArg EventFields.srcIp h),
      map_withoutScope_eq_iff.1 (congrArg EventFields.dstIp h), jsonbDict_eq_iff.1 (congrArg EventFields.raw h)⟩
  · rintro ⟨hsrc, hdst, hraw⟩
    rw [stored, map_withoutScope_eq_iff.2 hsrc, map_withoutScope_eq_iff.2 hdst, jsonbDict_eq_iff.2 hraw]

section
variable {e : NormalizedEvent} {cols : EventColumns} {row : EventRow}

/-- The columns that a statement takes from the parameters of an event. -/
structure Bound (e : NormalizedEvent) (cols : EventColumns) : Prop where
  texts : ∀ s ∈ e.texts, textOk s
  raw : jsonbOk (.dict e.raw)
  statusCode : e.statusCode.all int4Ok
  eq : cols = { e with
    eventTime := e.eventTime.instant
    srcIp := e.srcIp.map IPAddress.toInet
    dstIp := e.dstIp.map IPAddress.toInet
    raw := jsonbDict e.raw }

theorem bound_of_ofParams (h : EventColumns.ofParams e = .ok cols) : Bound e cols := by
  unfold EventColumns.ofParams at h
  cases htexts : e.texts.all textOk <;> rw [htexts] at h
  · cases h
  cases hraw : jsonbOk (.dict e.raw) <;> rw [hraw] at h
  · cases h
  cases hstatus : e.statusCode.all int4Ok <;> rw [hstatus] at h
  · cases h
  cases h
  exact ⟨List.all_eq_true.1 htexts, hraw, hstatus, rfl⟩

theorem assign_text {s : Option Str} (h : ∀ t ∈ s, textOk t) : ColumnType.text.assign (.text s) = some (.ofText s) := by
  cases s with
  | none => rfl
  | some s => exact if_pos (h s rfl)

theorem assign_integer {i : Option Int} (h : i.all int4Ok) :
    ColumnType.integer.assign (.integer i) = some (.ofInt i) := by
  cases i with
  | none => rfl
  | some i => exact if_pos h

theorem assign_smallint {i : Option Int} (h : i.all int2Ok) :
    ColumnType.smallint.assign (.integer i) = some (.ofInt i) := by
  cases i with
  | none => rfl
  | some i => exact if_pos h

theorem assign_inet (ip : Option IPAddress) :
    ColumnType.inet.assign (.address ip) = some (.ofInet (ip.map IPAddress.toInet)) := by
  cases ip <;> rfl

/-- A port that passes its CHECK is an `integer`. -/
theorem int4Ok_of_port {p : Option Int} (h : p.all fun p => 0 ≤ p && p ≤ 65535) : p.all int4Ok := by
  cases p with
  | none => rfl
  | some p =>
    simp only [Option.all_some, Bool.and_eq_true, decide_eq_true_eq, int4Ok] at h ⊢
    omega

theorem int2Ok_of_severity {s : Option Int} (h : s.all fun s => 0 ≤ s && s ≤ 10) : s.all int2Ok := by
  cases s with
  | none => rfl
  | some s =>
    simp only [Option.all_some, Bool.and_eq_true, decide_eq_true_eq, int2Ok] at h ⊢
    omega

/-- The text fields that may be `None`. -/
def EventFields.optionalTexts {τ ι : Type} (e : EventFields τ ι) : List (Option Str) :=
  [e.vendor, e.product, e.eventSubtype, e.action, e.protocol, e.user, e.host, e.process, e.url,
    e.httpMethod, e.ruleName, e.ruleId, e.cloudAccountId, e.cloudRegion, e.cloudService]

theorem mem_texts {s : Option Str} (hs : s ∈ e.optionalTexts) {t : Str} (ht : t ∈ s) : t ∈ e.texts :=
  List.mem_append_left _ (List.mem_append_right _ (List.mem_filterMap.2 ⟨s, hs, ht⟩))

/-- Every placeholder goes to the column of its name. -/
theorem assign_params (h : Bound e row.toEventFields) (hchecked : row.checked) :
    ∀ cp ∈ insertColumns.zip insertValues, cp.1.type.assign (params e cp.2) = some (row.column cp.1) := by
  obtain ⟨cols, id, ingestedAt⟩ := row
  obtain ⟨htexts, hraw, hstatus, heq⟩ := h
  simp only [EventFields.checked, Bool.and_eq_true] at hchecked
  obtain ⟨⟨⟨-, hseverity⟩, hsrcPort⟩, hdstPort⟩ := hchecked
  dsimp only at heq hseverity hsrcPort hdstPort
  subst heq
  have hreq : ∀ s ∈ [e.tenant, e.source, e.eventType], ColumnType.text.assign (.str s) = some (.text s) := fun s hs =>
    if_pos (htexts s (List.mem_append_left _ (List.mem_append_left _ hs)))
  have hopt : ∀ s ∈ e.optionalTexts, ColumnType.text.assign (.text s) = some (.ofText s) := fun s hs =>
    assign_text fun t ht => htexts t (mem_texts hs ht)
  have htags : ColumnType.textArray.assign (.list e.tags) = some (.textArray e.tags) :=
    if_pos (List.all_eq_true.2 fun t ht => htexts t (List.mem_append_right _ ht))
  have hjsonb : ColumnType.jsonb.assign (.jsonb e.raw) = some (.jsonb (jsonbDict e.raw)) := if_pos hraw
  have htime : ColumnType.timestamptz.assign (.datetime e.eventTime) = some (.timestamptz e.eventTime.instant) := rfl
  rw [List.forall_mem_cons] at hreq
  simp only [EventFields.optionalTexts, List.forall_mem_cons] at hreq hopt
  simp only [insertColumns, insertValues, List.zip_cons_cons, List.zip_nil_right, List.forall_mem_cons]
  simp only [Column.type, params, EventRow.column, hreq, hopt, htags, hjsonb, htime, assign_inet,
    assign_integer hstatus, assign_integer (int4Ok_of_port hsrcPort), assign_integer (int4Ok_of_port hdstPort),
    assign_smallint (int2Ok_of_severity hseverity), List.not_mem_nil, false_implies, implies_true, and_self]

theorem mapM_eq_some {α β : Type} {f : α → Option β} {g : α → β} {l : List α} (h : ∀ a ∈ l, f a = some (g a)) :
    l.mapM f = some (l.map g) := by
  induction l with
  | nil => rfl
  | cons a l ih =>
    rw [List.mapM_cons, h a (by simp), ih fun b hb => h b (by simp [hb])]
    rfl

theorem inserted_eq (h : Bound e row.toEventFields) (hchecked : row.checked) :
    inserted e = some (insertColumns.map fun c => (c, row.column c)) := by
  unfold inserted
  rw [mapM_eq_some (g := fun cp => (cp.1, row.column cp.1)) fun cp hcp => by
    rw [assign_params h hchecked cp hcp]
    rfl]
  rfl

theorem load_map_toInet (ip : Option IPAddress) :
    ((ip.map IPAddress.toInet).elim (some none) fun a => a.load.map some) = some (ip.map IPAddress.withoutScope) := by
  cases ip with
  | none => rfl
  | some ip => exact congrArg (Option.map some) ip.load_toInet

theorem event_ofRow (h : Bound e row.toEventFields) : (SearchResultItem.ofRow row).event = some e.stored := by
  have heq : (SearchResultItem.ofRow row).toEventFields = _ := h.eq
  unfold SearchResultItem.event
  rw [heq]
  dsimp only
  rw [load_map_toInet, load_map_toInet]
  rfl

/-! ### What matches -/

/-- The event itself satisfies the parameters of a search. -/
structure EventFilter.Admits (pg : Pg) (f : EventFilter) (e : NormalizedEvent) : Prop where
  startTime : ∀ t ∈ f.startTime, t ≤ e.eventTime.instant
  endTime : ∀ t ∈ f.endTime, e.eventTime.instant < t
  source : ∀ s ∈ f.source, e.source = s
  eventType : ∀ s ∈ f.eventType, e.eventType = s
  user : ∀ s ∈ f.user, e.user = some s
  srcIp : ∀ s ∈ f.srcIp, textOk s ∧ ∃ a, pg.inetIn s = some a ∧ ∃ ip, e.srcIp = some ip ∧ a.load = some ip

theorem eqFilter_iff {α : Type} [DecidableEq α] {filter column : Option α} :
    eqFilter filter column ↔ ∀ v ∈ filter, column = some v := by
  cases filter <;> simp [eqFilter]

theorem inRange_iff {startTime endTime : Option Time} {t : Time} :
    inRange startTime endTime t ↔ (∀ a ∈ startTime, a ≤ t) ∧ ∀ b ∈ endTime, t < b := by
  cases startTime <;> cases endTime <;> simp [inRange]

theorem inetParam_some {pg : Pg} {s : Str} {ip : Option Inet} :
    inetParam pg (some s) = .ok ip ↔ textOk s ∧ ∃ a, pg.inetIn s = some a ∧ ip = some a := by
  simp only [inetParam]
  split
  · rename_i htext
    cases pg.inetIn s <;> simp [htext, eq_comm]
  · simp [*]

theorem toInet_of_load {a : Inet} {ip : IPAddress} (h : a.load = some ip) : ip.toInet = a := by
  cases a <;> simp only [Inet.load] at h <;> split_ifs at h with hmask <;> cases h <;> rw [hmask] <;> rfl

/-- Without a scope id, the column holds an address exactly when it is that of the event. -/
theorem map_toInet_eq_some {ip : Option IPAddress} (hscope : ∀ b ∈ ip, b.scopeFree) {a : Inet} :
    ip.map IPAddress.toInet = some a ↔ ∃ b, ip = some b ∧ a.load = some b := by
  rw [Option.map_eq_some_iff]
  refine exists_congr fun b => and_congr_right fun hb => ⟨?_, toInet_of_load⟩
  rintro rfl
  rw [b.load_toInet, IPAddress.withoutScope_eq_iff.2 (hscope b hb)]

/-- The row matches exactly when the event satisfies the filters. -/
theorem matches_iff {pg : Pg} {f : EventFilter} (h : Bound e row.toEventFields) (hscope : ∀ ip ∈ e.srcIp, ip.scopeFree) :
    (∃ ip, inetParam pg f.srcIp = .ok ip ∧ f.matches ip row) ↔ f.Admits pg e := by
  have hsrc : ∀ a, row.srcIp = some a ↔ ∃ ip, e.srcIp = some ip ∧ a.load = some ip := fun a => by
    rw [show row.srcIp = _ from congrArg EventFields.srcIp h.eq]
    exact map_toInet_eq_some hscope
  have htime : row.eventTime = e.eventTime.instant := congrArg EventFields.eventTime h.eq
  have hsource : row.source = e.source := congrArg EventFields.source h.eq
  have htype : row.eventType = e.eventType := congrArg EventFields.eventType h.eq
  have huser : row.user = e.user := congrArg EventFields.user h.eq
  simp only [EventFilter.matches, Bool.and_eq_true, eqFilter_iff, inRange_iff, htime, hsource, htype, huser, hsrc]
  constructor
  · rintro ⟨ip, hip, ⟨⟨⟨⟨hstart, hend⟩, hs⟩, ht⟩, hu⟩, hi⟩
    refine ⟨hstart, hend, fun s hs' => Option.some.inj (hs s hs'), fun s hs' => Option.some.inj (ht s hs'), hu, ?_⟩
    intro s hs'
    rw [Option.mem_def.1 hs', inetParam_some] at hip
    obtain ⟨htext, a, ha, rfl⟩ := hip
    exact ⟨htext, a, ha, hi a rfl⟩
  · rintro ⟨hstart, hend, hs, ht, hu, hi⟩
    have hrest : (((_ ∧ _) ∧ ∀ v ∈ f.source, some e.source = some v) ∧ ∀ v ∈ f.eventType, some e.eventType = some v) ∧
        ∀ v ∈ f.user, e.user = some v :=
      ⟨⟨⟨⟨hstart, hend⟩, fun s hs' => congrArg some (hs s hs')⟩, fun s hs' => congrArg some (ht s hs')⟩, hu⟩
    cases hf : f.srcIp with
    | none => exact ⟨none, rfl, hrest, by simp⟩
    | some s =>
      obtain ⟨htext, a, ha, heq⟩ := hi s hf
      exact ⟨some a, inetParam_some.2 ⟨htext, a, ha, rfl⟩, hrest, fun v hv => Option.some.inj hv ▸ heq⟩

/-! ### Pages -/

/-- The rows of a page: from `offset` on, those that the search matches, latest first. -/
def pageRows (w : World) (claims : TokenClaims) (db : Db) (req : SearchRequest) (order : RowOrder) : List EventRow :=
  ((order.arrange (fun e => -e.eventTime) (matchingEvents w claims db req.filter)).drop req.offset).take req.limit

theorem pageRows_subperm (w : World) (claims : TokenClaims) (db : Db) (req : SearchRequest) (order : RowOrder) :
    (pageRows w claims db req order).Subperm (matchingEvents w claims db req.filter) :=
  ((List.take_sublist _ _).trans (List.drop_sublist _ _)).subperm.trans (order.arrange_perm _ _).subperm

theorem search_page {w : World} {claims : TokenClaims} {req : SearchRequest} {t t' : Session} {r : SearchResponse}
    (h : (search req claims).run (handle w.pg) t = (.ok (.search r), t')) :
    r.items = (pageRows w claims t.snapshot req (t.nature 2).order).map .ofRow := by
  obtain ⟨rows, ws, hx, hr⟩ := exec_of_tenantQuery (.searchEvents req.filter (req.limit + 1) req.offset) h
  cases hr
  show (rows.take req.limit).map _ = _
  congr 1
  simp only [Stmt.exec] at hx
  split_ifs at hx
  unfold pageRows matchingEvents
  cases hip : inetParam w.pg req.filter.srcIp with
  | error err =>
    rw [hip] at hx
    cases hx
  | ok ip =>
    rw [hip] at hx
    obtain ⟨-, rfl, -⟩ := loaded_eq_ok.1 hx
    rw [List.take_take, Nat.min_eq_left (Nat.le_succ _)]

theorem mem_matchingEvents (w : World) (claims : TokenClaims) {db : Db} (f : EventFilter)
    (h : Bound e row.toEventFields) (hscope : ∀ ip ∈ e.srcIp, ip.scopeFree)
    (hmem : row ∈ db.events) : row ∈ matchingEvents w claims db f ↔ claims.tenant = e.tenant ∧ f.Admits w.pg e := by
  have htenant : row.tenant = e.tenant := congrArg EventFields.tenant h.eq
  have hvisible : row ∈ db.visibleEvents (some claims.tenant) ↔ claims.tenant = e.tenant := by
    rw [Db.visibleEvents, List.mem_filter, rls, beq_iff_eq, Option.some.injEq, htenant]
    exact and_iff_right hmem
  rw [← matches_iff h hscope, ← hvisible]
  unfold matchingEvents
  cases inetParam w.pg f.srcIp with
  | error err => simp
  | ok ip => simp

/-- Searches over tables that hold the row return the event: they match the row exactly for the event's tenant and the
filters that the event satisfies, and show it with every field of the event. -/
def Returned (w : World) (e : NormalizedEvent) (row : EventRow) : Prop :=
  ∀ (claims : TokenClaims) (req : SearchRequest) (t t' : Session) (r : SearchResponse), row ∈ t.snapshot.events →
    (search req claims).run (handle w.pg) t = (.ok (.search r), t') →
    (row ∈ matchingEvents w claims t.snapshot req.filter ↔ claims.tenant = e.tenant ∧ req.filter.Admits w.pg e) ∧
    ∃ rows : List EventRow, rows = pageRows w claims t.snapshot req (t.nature 2).order ∧
      rows.Subperm (matchingEvents w claims t.snapshot req.filter) ∧
      (row ∈ rows → claims.tenant = e.tenant) ∧
      List.Forall₂ (fun row' item => SearchResultItem.ofValues row'.selected = some item ∧
        (row' = row → item.event = some { e with eventTime := ⟨e.eventTime.instant, some 0⟩ })) rows r.items

theorem returned_of_kept {w : World} (hbound : Bound e row.toEventFields) (hkept : e.Kept) : Returned w e row := by
  intro claims req t t' r hin hrun
  have hmatch := mem_matchingEvents w claims req.filter hbound hkept.srcIp hin
  have hsub := pageRows_subperm w claims t.snapshot req (t.nature 2).order
  refine ⟨hmatch, _, rfl, hsub, fun hrows => (hmatch.1 (hsub.subset hrows)).1, ?_⟩
  rw [search_page hrun, List.forall₂_map_right_iff]
  refine List.forall₂_same.2 fun row' _ => ⟨ofValues_selected row', ?_⟩
  rintro rfl
  rw [event_ofRow hbound, EventFields.stored_eq_iff.2 hkept]

/-- A search that matches one row shows it, if its time can be loaded. -/
theorem search_single {w : World} {claims : TokenClaims} {db : Db} {f : EventFilter} (hparams : f.paramsOk w claims)
    (hmatching : matchingEvents w claims db f = [row]) (htime : timeOk row.eventTime) :
    ((search { filter := f } claims).run (handle w.pg) { db, conn := { autocommit := false }, nature _ := {} }).1 =
      .ok (.search ⟨[.ofRow row], 50, 0, false⟩) := by
  have hfetched : fetchedEvents w claims db { filter := f } .stable = [row] := by
    rw [fetchedEvents, hmatching, List.perm_singleton.1 (RowOrder.stable.arrange_perm _ [row])]
    rfl
  refine eq_ok_of_toOption (Eq.trans (run_search { filter := f } { autocommit := false } fun _ => rfl) ?_)
  dsimp only
  rw [hfetched, hparams, List.all_cons, htime]
  rfl

/-- A search that matches the row alone shows the event. -/
theorem shown_of_returned {w : World} {claims : TokenClaims} {db : Db} {f : EventFilter} (h : Returned w e row)
    (hmem : row ∈ db.events) (hparams : f.paramsOk w claims) (hmatching : matchingEvents w claims db f = [row])
    (htime : timeOk row.eventTime) :
    ∃ r, ((search { filter := f } claims).run (handle w.pg) { db, conn := { autocommit := false }, nature _ := {} }).1 =
        .ok (.search r) ∧
      ∃ item, r.items = [item] ∧ SearchResultItem.ofValues row.selected = some item ∧
        item.event = some { e with eventTime := ⟨e.eventTime.instant, some 0⟩ } := by
  have hanswer := search_single hparams hmatching htime
  obtain ⟨-, rows, -, hsub, -, hitems⟩ := h claims { filter := f } { db, conn := { autocommit := false }, nature _ := {} } _ _
    hmem (Prod.ext hanswer rfl)
  refine ⟨_, hanswer, _, rfl, ?_⟩
  cases hitems with
  | cons hitem hnil =>
    cases hnil
    have hmem' := hsub.subset (List.mem_singleton.2 rfl)
    obtain rfl := List.mem_singleton.1 (hmatching ▸ hmem')
    exact ⟨hitem.1, hitem.2 rfl⟩

theorem kept_of_returned {w : World} (hbound : Bound e row.toEventFields) (htime : timeOk e.eventTime.instant)
    (h : Returned w e row) : e.Kept := by
  have howner : row.tenant = e.tenant := congrArg EventFields.tenant hbound.eq
  have heventTime : row.eventTime = e.eventTime.instant := congrArg EventFields.eventTime hbound.eq
  have htext : textOk e.tenant := hbound.texts _ (by simp [EventFields.texts])
  have hmatching : matchingEvents w ⟨[], .viewer, e.tenant⟩ { events := [row] } {} = [row] := by
    show ((Db.visibleEvents _ _).filter _) = _
    rw [Db.visibleEvents, List.filter_filter]
    simp [rls, howner, EventFilter.matches, inRange, eqFilter]
  have hparams : EventFilter.paramsOk w ⟨[], .viewer, e.tenant⟩ {} := by
    rw [EventFilter.paramsOk, htext]
    rfl
  obtain ⟨r, -, item, -, hitem, hevent⟩ := shown_of_returned h (List.mem_singleton.2 rfl) hparams hmatching
    (heventTime ▸ htime)
  obtain rfl : SearchResultItem.ofRow row = item := Option.some.inj ((ofValues_selected row).symm.trans hitem)
  rw [event_ofRow hbound, Option.some.injEq] at hevent
  exact EventFields.stored_eq_iff.1 hevent

/-- A write that returns has added a row with the parameters of its event. -/
theorem exists_bound_of_write {w : World} {s s' : Session} (hwrite : (writeEvent e).run (handle w.pg) s = (.ok (), s')) :
    ∃ row ∈ s'.db.events, Bound e row.toEventFields ∧ row.checked := by
  have hwp := wp_writeEvent w.pg e s
  rw [wp, hwrite] at hwp
  obtain ⟨-, row, hrow, hchecked, hmem, -⟩ := hwp
  exact ⟨row, hmem, bound_of_ofParams hrow, hchecked⟩

/-- A stored event is on a search result as it went in, exactly for its tenant and the filters it satisfies, if the table
keeps every field of it; and if its time can be loaded, only then. -/
theorem search_returns_written_iff (w : World) {e : NormalizedEvent} {s s' : Session}
    (hwrite : (writeEvent e).run (handle w.pg) s = (.ok (), s')) :
    ∃ row ∈ s'.db.events, inserted e = some (insertColumns.map fun c => (c, row.column c)) ∧
      (e.Kept → Returned w e row) ∧ (timeOk e.eventTime.instant → Returned w e row → e.Kept) := by
  obtain ⟨row, hmem, hbound, hchecked⟩ := exists_bound_of_write hwrite
  exact ⟨row, hmem, inserted_eq hbound hchecked, returned_of_kept hbound, kept_of_returned hbound⟩

end

/-- An event with an offset of seven hours, an address and a payload. -/
def NormalizedEvent.localTime (srcIp : IPAddress) (raw : PyDict) : NormalizedEvent where
  tenant := str "demoA"
  eventTime := ⟨25200000000, some 25200000000⟩
  source := str "ad"
  eventType := str "LogonFailed"
  srcIp := some srcIp
  user := some (str "eve")
  raw
  tags := [str "late"]

/-- Written, and searched for by its user. -/
theorem search_returns_localTime :
    let e : NormalizedEvent := .localTime (.v4 0xC0A80101#32) [(some (str "user"), .str (str "eve"))]
    let db := ((writeEvent e).run (handle World.sample.pg) .fresh).2.db
    ∃ (row : EventRow) (r : SearchResponse),
      ((search { filter := { user := some (str "eve") } } .sample).run (handle World.sample.pg)
        { db, conn := { autocommit := false }, nature _ := {} }).1 = .ok (.search r) ∧
      ∃ item, r.items = [item] ∧ SearchResultItem.ofValues row.selected = some item ∧
        item.event = some { e with eventTime := ⟨0, some 0⟩ } := by
  intro e db
  have hwrite : (writeEvent e).run (handle World.sample.pg) .fresh =
      (.ok (), ((writeEvent e).run (handle World.sample.pg) .fresh).2) := Prod.ext rfl rfl
  have hlength : db.events.length = 1 := rfl
  have hmatching : matchingEvents .sample .sample db { user := some (str "eve") } = db.events := rfl
  have htimes : db.events.all (fun e => timeOk e.eventTime) := by decide
  obtain ⟨row₀, hrow₀⟩ := List.length_eq_one_iff.1 hlength
  obtain ⟨row, hrow, -, hkept, -⟩ := search_returns_written_iff World.sample hwrite
  obtain rfl : row = row₀ := List.mem_singleton.1 (hrow₀ ▸ hrow)
  exact ⟨row, shown_of_returned (hkept ⟨by decide, by decide, by decide⟩) hrow (by decide) (hmatching.trans hrow₀)
    (List.all_eq_true.1 htimes row hrow)⟩

/-- A write of the event returns, and the searches that find its row show something else. -/
def ShownOtherwise (w : World) (e : NormalizedEvent) : Prop :=
  let written := (writeEvent e).run (handle w.pg) .fresh
  written.1 = .ok () ∧ written.2.db.events ≠ [] ∧ ∀ row ∈ written.2.db.events, ¬Returned w e row

theorem shownOtherwise_of_not_kept {w : World} {e : NormalizedEvent}
    (hok : ((writeEvent e).run (handle w.pg) .fresh).1 = .ok ())
    (hlength : ((writeEvent e).run (handle w.pg) .fresh).2.db.events.length = 1) (htime : timeOk e.eventTime.instant)
    (hkept : ¬e.Kept) : ShownOtherwise w e := by
  obtain ⟨row, hrow, hbound, -⟩ := exists_bound_of_write (Prod.ext hok rfl)
  obtain ⟨row', hevents⟩ := List.length_eq_one_iff.1 hlength
  refine ⟨hok, List.ne_nil_of_mem hrow, fun row'' hrow'' hreturned => hkept ?_⟩
  rw [hevents, List.mem_singleton] at hrow hrow''
  exact kept_of_returned hbound htime (hrow.trans hrow''.symm ▸ hreturned)

/-- An address with a scope id, and the surplus cell of a CSV record beside a column `null`: both are stored, and a search
shows neither event as it was. -/
theorem search_shows_no_scope :
    ShownOtherwise .sample (.localTime (.v6 0xFE800000000000000000000000000001#128 (some (str "eth0"))) []) ∧
    ShownOtherwise .sample (.localTime (.v4 0xC0A80101#32)
      [(none, .list [.str (str "spare")]), (some (str "null"), .str (str "kept"))]) :=
  ⟨shownOtherwise_of_not_kept rfl rfl (by decide) fun h => absurd (h.srcIp _ rfl) (by decide),
    shownOtherwise_of_not_kept rfl rfl (by decide) fun h => absurd h.raw (by decide)⟩

end LogMgmt
