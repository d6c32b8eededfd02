import LogMgmt.Python

/-!
# The normalized event

`ingest/models.py`: the one event shape that every normalizer produces. The columns of the `events`
table (`02_schema.sql`) have the same names; a row differs from an event in the type of its time
(`timestamptz`) and of its addresses (`inet`), which is what the parameters of `EventFields` are for.
-/

namespace LogMgmt

/-- Microseconds since the epoch. -/
abbrev Time := Int

/-- Seconds as microseconds. -/
def seconds (n : Int) : Int := n * 1000000

/-- `datetime.datetime`: the local time in microseconds and, for an aware one, the UTC offset. -/
structure DateTime where
  wall : Int
  utcoffset : Option Int
deriving DecidableEq

namespace DateTime

/-- `datetime.min` -/
def minWall : Int := seconds (86400 * (-719162))

/-- `datetime.max` -/
def maxWall : Int := seconds (86400 * 2932897) - 1

/-- The instant it denotes in a session whose time zone is UTC. -/
def instant (t : DateTime) : Time := t.wall - t.utcoffset.getD 0

end DateTime

/-- `ipaddress.IPv4Address` or `IPv6Address`; the latter may carry a scope id (`fe80::1%eth0`). -/
inductive IPAddress where
  | v4 (addr : BitVec 32)
  | v6 (addr : BitVec 128) (scopeId : Option Str)
deriving DecidableEq

/-- PostgreSQL's `inet`: an address with a netmask length. -/
inductive Inet where
  | v4 (addr : BitVec 32) (masklen : Nat)
  | v6 (addr : BitVec 128) (masklen : Nat)
deriving DecidableEq

/-- The address as psycopg sends it: `inet` has no scope ids, and one is dropped. -/
def IPAddress.toInet : IPAddress → Inet
  | v4 addr => .v4 addr 32
  | v6 addr _ => .v6 addr 128

def IPAddress.scopeFree : IPAddress → Bool
  | v4 _ => true
  | v6 _ scopeId => scopeId.isNone

/-- The fields of an event, with times in `τ` and addresses in `ι`. -/
structure EventFields (τ ι : Type) where
  tenant : Str
  eventTime : τ
  source : Str
  vendor : Option Str := none
  product : Option Str := none
  eventType : Str
  eventSubtype : Option Str := none
  severity : Option Int := none
  action : Option Str := none
  srcIp : Option ι := none
  srcPort : Option Int := none
  dstIp : Option ι := none
  dstPort : Option Int := none
  protocol : Option Str := none
  user : Option Str := none
  host : Option Str := none
  process : Option Str := none
  url : Option Str := none
  httpMethod : Option Str := none
  statusCode : Option Int := none
  ruleName : Option Str := none
  ruleId : Option Str := none
  cloudAccountId : Option Str := none
  cloudRegion : Option Str := none
  cloudService : Option Str := none
  raw : PyDict := []
  tags : List Str := []

abbrev NormalizedEvent := EventFields DateTime IPAddress

/-- The columns of an `events` row. -/
abbrev EventColumns := EventFields Time Inet

def clampSeverity (value : Int) : Int := max 0 (min 10 value)

end LogMgmt
