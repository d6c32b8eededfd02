import Mathlib.Algebra.Group.Int.Defs
import Mathlib.Algebra.GroupWithZero.Nat
import Mathlib.Data.List.Basic

/-!
# Python values

What the ingest code computes with: strings (sequences of code points, lone surrogates included), the
values `json.load` and `csv.DictReader` can produce, and dictionaries with their lookup and assignment.
-/

namespace LogMgmt

/-- A Unicode code point. -/
abbrev CodePoint := Fin 0x110000

@[instance] theorem neZero_codePoints : NeZero 0x110000 := ⟨by decide⟩

/-- A Python `str`, and a PostgreSQL `text`. -/
abbrev Str := List CodePoint

/-- A string literal of the source. -/
def str (s : String) : Str := s.toList.map fun c => Fin.ofNat 0x110000 c.toNat

/-- A Python `float`: a finite one is `num * 2 ^ exp`. -/
inductive PyFloat where
  | finite (num exp : Int)
  | nan
  | inf (negative : Bool)
deriving DecidableEq, Repr

/-- A value of a JSON document or a CSV record. A dictionary key is a string or, for the surplus cells
of a CSV row, `None`. -/
inductive PyVal where
  | none
  | bool (b : Bool)
  | int (i : Int)
  | float (f : PyFloat)
  | str (s : Str)
  | list (vs : List PyVal)
  | dict (kvs : List (Option Str × PyVal))

/-- A Python `dict`, in insertion order. -/
abbrev PyDict := List (Option Str × PyVal)

namespace PyFloat

def truthy : PyFloat → Bool
  | finite num _ => num != 0
  | nan => true
  | inf _ => true

def isFinite : PyFloat → Bool
  | finite _ _ => true
  | nan => false
  | inf _ => false

/-- `int(f)` of a finite float: truncation towards zero. -/
def trunc (num exp : Int) : Int :=
  if 0 ≤ exp then num * 2 ^ exp.toNat else num.tdiv (2 ^ (-exp).toNat)

end PyFloat

namespace PyVal

/-- `bool(v)` -/
def truthy : PyVal → Bool
  | none => false
  | bool b => b
  | int i => i != 0
  | float f => f.truthy
  | str s => !s.isEmpty
  | list vs => !vs.isEmpty
  | dict kvs => !kvs.isEmpty

/-- Whether `hash(v)` returns; a list or a dict raises `TypeError`. -/
def hashable : PyVal → Bool
  | list _ => false
  | dict _ => false
  | _ => true

def isNone : PyVal → Bool
  | none => true
  | _ => false

/-- `a or b` -/
def orElse (a b : PyVal) : PyVal := if a.truthy then a else b

end PyVal

namespace PyDict

/-- `d.get(key)`, or no value where the key is absent -/
def get? (d : PyDict) (key : Str) : Option PyVal := (d.find? fun kv => kv.1 == some key).map (·.2)

/-- `d.get(key)` -/
def get (d : PyDict) (key : Str) : PyVal := (d.get? key).getD .none

/-- `d[key] = v` -/
def set (d : PyDict) (key : Str) (v : PyVal) : PyDict :=
  if d.any fun kv => kv.1 == some key then d.map fun kv => if kv.1 == some key then (kv.1, v) else kv
  else d ++ [(some key, v)]

/-- `{k: v for k, v in d.items() if k != key}` -/
def without (d : PyDict) (key : Str) : PyDict := d.filter fun kv => kv.1 != some key

end PyDict

end LogMgmt
