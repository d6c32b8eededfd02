import LogMgmt.Models

/-!
# Normalizers

`ingest/normalizers/*.py` and the dispatcher in its `__init__.py`. A normalizer evaluates the arguments
of `NormalizedEvent(...)` in order, any of which may raise, and Pydantic then validates them together.
`Py` stands for what the Python standard library and Pydantic compute.
-/

namespace LogMgmt

/-- `SyslogEnvelope`, with what `parse_syslog_line` cuts out of the line. -/
structure SyslogEnvelope where
  facility : Nat
  syslogSeverity : Nat
  eventTime : DateTime
  hostname : Str
  fields : List (Str × Str)
  rawLine : Str
  mem_hostname : ∀ c ∈ hostname, c ∈ rawLine
  mem_fields : ∀ kv ∈ fields, ∀ c ∈ kv.2, c ∈ rawLine

/-- What an entry point hands to `normalize`. -/
inductive Payload where
  | dict (d : PyDict)
  | envelope (e : SyslogEnvelope)
  | text (s : Str)

/-- The keyword arguments of `NormalizedEvent(...)`; no normalizer passes the others. -/
structure EventArgs where
  tenant : PyVal
  eventTime : DateTime
  source : Str
  vendor : PyVal := .none
  product : PyVal := .none
  eventType : PyVal
  eventSubtype : PyVal := .none
  severity : Option Int := none
  action : PyVal := .none
  srcIp : PyVal := .none
  srcPort : Option Int := none
  dstIp : PyVal := .none
  dstPort : Option Int := none
  protocol : PyVal := .none
  user : PyVal := .none
  host : PyVal := .none
  process : PyVal := .none
  ruleName : PyVal := .none
  ruleId : PyVal := .none
  cloudAccountId : PyVal := .none
  cloudRegion : PyVal := .none
  cloudService : PyVal := .none
  raw : PyDict
  tags : List Str := []

inductive PyExc where
  | keyError (key : Str)
  | attributeError (attr : Str)
  | typeError
  | valueError (arg : PyVal)
  | overflowError
  | validationError (args : EventArgs)

structure Py where
  /-- `datetime.fromisoformat`; no value where it raises -/
  fromisoformat : Str → Option DateTime
  /-- `int(s)` of a string -/
  intOfStr : Str → Option Int
  str : PyVal → Str
  repr : PyVal → Str
  /-- `f"{type(exc).__name__}: {exc}"` -/
  describe : PyExc → Str
  /-- the validation of `IPvAnyAddress` -/
  ipAddress : PyVal → Option IPAddress

/-- A string without surrogates. -/
def unicodeOk (s : Str) : Bool := s.all fun c => !(0xD800 ≤ c.val && c.val < 0xE000)

/-! ### Pydantic validation -/

namespace EventArgs
variable (py : Py)

/-- A `str` field: Pydantic takes no other type, and any string as it is. -/
def strField : PyVal → Option Str
  | .str s => some s
  | _ => none

def optional (field : PyVal → Option α) : PyVal → Option (Option α)
  | .none => some none
  | v => (field v).map some

/-- An `Optional[int]` field with `ge=0, le=hi`. -/
def intField (hi : Int) : Option Int → Option (Option Int)
  | none => some none
  | some i => if 0 ≤ i ∧ i ≤ hi then some (some i) else none

def validate (a : EventArgs) : Option NormalizedEvent := do
  return {
    tenant := ← strField a.tenant
    eventTime := a.eventTime
    source := a.source
    vendor := ← optional strField a.vendor
    product := ← optional strField a.product
    eventType := ← strField a.eventType
    eventSubtype := ← optional strField a.eventSubtype
    severity := ← intField 10 a.severity
    action := ← optional strField a.action
    srcIp := ← optional py.ipAddress a.srcIp
    srcPort := ← intField 65535 a.srcPort
    dstIp := ← optional py.ipAddress a.dstIp
    dstPort := ← intField 65535 a.dstPort
    protocol := ← optional strField a.protocol
    user := ← optional strField a.user
    host := ← optional strField a.host
    process := ← optional strField a.process
    ruleName := ← optional strField a.ruleName
    ruleId := ← optional strField a.ruleId
    cloudAccountId := ← optional strField a.cloudAccountId
    cloudRegion := ← optional strField a.cloudRegion
    cloudService := ← optional strField a.cloudService
    raw := a.raw
    tags := a.tags }

/-- `NormalizedEvent(...)` -/
def build (a : EventArgs) : Except PyExc NormalizedEvent :=
  match a.validate py with
  | some e => .ok e
  | none => .error (.validationError a)

end EventArgs

/-! ### Access to the payload -/

/-- `d[key]` -/
def PyDict.getItem (d : PyDict) (key : Str) : Except PyExc PyVal :=
  match d.get? key with
  | some v => .ok v
  | none => .error (.keyError key)

/-- What a JSON normalizer takes: on anything but a dict its first access raises `exc`. -/
def Payload.asDict (exc : PyExc) : Payload → Except PyExc PyDict
  | .dict d => .ok d
  | _ => .error exc

/-- What a syslog normalizer takes: nothing else has `.fields`. -/
def Payload.asEnvelope : Payload → Except PyExc SyslogEnvelope
  | .envelope e => .ok e
  | _ => .error (.attributeError (str "fields"))

namespace SyslogEnvelope

/-- `fields.get(key)` -/
def get (e : SyslogEnvelope) (key : Str) : PyVal :=
  match e.fields.find? fun kv => kv.1 = key with
  | some kv => .str kv.2
  | none => .none

/-- `fields[key]` -/
def getItem (e : SyslogEnvelope) (key : Str) : Except PyExc Str :=
  match e.fields.find? fun kv => kv.1 = key with
  | some kv => .ok kv.2
  | none => .error (.keyError key)

def raw (e : SyslogEnvelope) : PyDict := [(some (str "raw_line"), .str e.rawLine)]

end SyslogEnvelope

def parseRfc3339 (py : Py) : PyVal → Except PyExc DateTime
  | .str ts =>
    let ts := if str "Z" <:+ ts then ts.dropLast ++ str "+00:00" else ts
    match py.fromisoformat ts with
    | some t => .ok t
    | none => .error (.valueError (.str ts))
  | _ => .error (.attributeError (str "endswith"))

def pyInt (py : Py) : PyVal → Except PyExc Int
  | .bool b => .ok (if b then 1 else 0)
  | .int i => .ok i
  | .float (.finite num exp) => .ok (PyFloat.trunc num exp)
  | .float .nan => .error (.valueError (.float .nan))
  | .float (.inf _) => .error .overflowError
  | .str s =>
    match py.intOfStr s with
    | some i => .ok i
    | none => .error (.valueError (.str s))
  | _ => .error .typeError

/-! ### The normalizers -/

section
variable (py : Py) (payload : Payload) (tenant : PyVal)

def normalizeAd : Except PyExc NormalizedEvent := do
  let d ← payload.asDict .typeError
  let eventTime ← parseRfc3339 py (← d.getItem (str "@timestamp"))
  let eventType ← d.getItem (str "event_type")
  EventArgs.build py {
    tenant, eventTime, eventType
    source := str "ad"
    user := d.get (str "user")
    host := d.get (str "host")
    srcIp := d.get (str "ip")
    ruleId := match d.get? (str "event_id") with
      | some v => .str (py.str v)
      | none => .none
    raw := d }

def normalizeApi : Except PyExc NormalizedEvent := do
  let d ← payload.asDict .typeError
  let eventTime ← parseRfc3339 py (← d.getItem (str "@timestamp"))
  let eventType ← d.getItem (str "event_type")
  EventArgs.build py {
    tenant, eventTime, eventType
    source := str "api"
    eventSubtype := d.get (str "reason")
    srcIp := d.get (str "ip")
    user := d.get (str "user")
    raw := d }

def normalizeAws : Except PyExc NormalizedEvent := do
  let d ← payload.asDict (.attributeError (str "get"))
  let cloud := (d.get? (str "cloud")).getD (.dict [])
  let eventTime ← parseRfc3339 py (← d.getItem (str "@timestamp"))
  let eventType ← d.getItem (str "event_type")
  match cloud with
  | .dict cloud =>
    EventArgs.build py {
      tenant, eventTime, eventType
      source := str "aws"
      user := d.get (str "user")
      cloudService := PyDict.get cloud (str "service")
      cloudAccountId := PyDict.get cloud (str "account_id")
      cloudRegion := PyDict.get cloud (str "region")
      raw := d }
  | _ => .error (.attributeError (str "get"))

def normalizeCrowdstrike : Except PyExc NormalizedEvent := do
  let d ← payload.asDict .typeError
  let eventTime ← parseRfc3339 py (← d.getItem (str "@timestamp"))
  let eventType ← d.getItem (str "event_type")
  let severity ← pyInt py (← d.getItem (str "severity"))
  EventArgs.build py {
    tenant, eventTime, eventType
    source := str "crowdstrike"
    severity := some (clampSeverity severity)
    action := d.get (str "action")
    host := d.get (str "host")
    process := d.get (str "process")
    raw := d }

def normalizeFirewall : Except PyExc NormalizedEvent := do
  let e ← payload.asEnvelope
  let action ← e.getItem (str "action")
  let srcIp ← e.getItem (str "src")
  let srcPort ← pyInt py (.str (← e.getItem (str "spt")))
  let dstIp ← e.getItem (str "dst")
  let dstPort ← pyInt py (.str (← e.getItem (str "dpt")))
  EventArgs.build py {
    tenant
    eventTime := e.eventTime
    source := str "firewall"
    vendor := e.get (str "vendor")
    product := e.get (str "product")
    eventType := .str (str "traffic")
    severity := some (7 - e.syslogSeverity)
    action := .str action
    srcIp := .str srcIp
    srcPort := some srcPort
    dstIp := .str dstIp
    dstPort := some dstPort
    protocol := e.get (str "proto")
    host := .str e.hostname
    ruleName := e.get (str "policy")
    raw := e.raw }

def normalizeM365 : Except PyExc NormalizedEvent := do
  let d ← payload.asDict .typeError
  let eventTime ← parseRfc3339 py (← d.getItem (str "@timestamp"))
  let eventType ← d.getItem (str "event_type")
  EventArgs.build py {
    tenant, eventTime, eventType
    source := str "m365"
    user := d.get (str "user")
    srcIp := d.get (str "ip")
    action := d.get (str "status")
    raw := d }

def normalizeNetwork : Except PyExc NormalizedEvent := do
  let e ← payload.asEnvelope
  let eventType ← e.getItem (str "event")
  EventArgs.build py {
    tenant
    eventTime := e.eventTime
    source := str "network"
    eventType := .str eventType
    eventSubtype := e.get (str "reason")
    severity := some (7 - e.syslogSeverity)
    host := .str e.hostname
    raw := e.raw }

end

/-! ### The dispatcher -/

inductive Source where
  | api
  | crowdstrike
  | aws
  | m365
  | ad
  | firewall
  | network
deriving DecidableEq, Repr

namespace Source

def key : Source → Str
  | api => str "api"
  | crowdstrike => str "crowdstrike"
  | aws => str "aws"
  | m365 => str "m365"
  | ad => str "ad"
  | firewall => str "firewall"
  | network => str "network"

def all : List Source := [api, crowdstrike, aws, m365, ad, firewall, network]

def normalize (py : Py) : Source → Payload → PyVal → Except PyExc NormalizedEvent
  | api => normalizeApi py
  | crowdstrike => normalizeCrowdstrike py
  | aws => normalizeAws py
  | m365 => normalizeM365 py
  | ad => normalizeAd py
  | firewall => normalizeFirewall py
  | network => normalizeNetwork py

/-- `NORMALIZERS.get(source_hint) if source_hint else None`; a truthy hint is hashed. -/
def ofHint (hint : PyVal) : Except PyExc (Option Source) :=
  if !hint.truthy then .ok none
  else if !hint.hashable then .error .typeError
  else .ok <| match hint with
    | .str s => all.find? fun source => source.key = s
    | _ => none

end Source

/-- `_coerce_raw`; `str` of a string is the string. -/
def coerceRaw : Payload → PyDict
  | .dict d => d
  | .envelope e => e.raw
  | .text s => [(some (str "_raw_text"), .str s)]

section
variable (py : Py) (sourceHint : PyVal) (payload : Payload) (tenant : PyVal) (now : DateTime)

def fallbackRaw (reason : Str) : PyDict :=
  ((coerceRaw payload).set (str "_fallback_reason") (.str reason)).set (str "_fallback_source_hint") sourceHint

/-- The event that stands for a payload no normalizer takes. -/
def fallback (reason : Str) : Except PyExc NormalizedEvent :=
  EventArgs.build py {
    tenant
    eventTime := now
    source := str "unknown"
    eventType := .str (str "unparsed")
    raw := fallbackRaw sourceHint payload reason
    tags := [str "fallback"] }

def normalize : Except PyExc NormalizedEvent := do
  match ← Source.ofHint sourceHint with
  | some source =>
    match source.normalize py payload tenant with
    | .ok e => .ok e
    | .error exc => fallback py sourceHint payload tenant now (py.describe exc)
  | none =>
    fallback py sourceHint payload tenant now
      (str "unrecognized or missing source_hint=" ++ py.repr sourceHint)

end

/-- A library that knows one timestamp, for concrete runs. -/
def Py.sample : Py where
  fromisoformat s := if s = LogMgmt.str "2025-08-20T07:20:00+00:00" then some ⟨1755674400000000, some 0⟩ else none
  intOfStr _ := none
  str
    | .str s => s
    | _ => []
  repr _ := []
  describe _ := []
  ipAddress _ := none

end LogMgmt
