import Mathlib.Data.List.Infix

/-!
# Decoded JSON as PHP sees it

The values that decoding JSON yields and the little of PHP that code reading
them uses: access by path, the coalescing operators, and the casts. A float is
kept as the text it is written as.
-/

namespace Php

inductive Value
  | null
  | bool (b : Bool)
  | int (n : Int)
  | float (text : String)
  | string (s : String)
  | list (items : List Value)
  | map (fields : List (String × Value))

namespace Value

/-- The value under a key; the keys of a list are its indices, in decimal. -/
def child : Value → String → Option Value
  | .map fields, key => fields.lookup key
  | .list items, key => (items.zipIdx.find? fun q => toString q.2 == key).map Prod.fst
  | _, _ => none

/-- `data_get` with a default; a path that ends in null is a path. -/
def dataGetOr (v fallback : Value) : List String → Value
  | [] => v
  | key :: path =>
      match v.child key with
      | none => fallback
      | some w => w.dataGetOr fallback path

def dataGet (v : Value) (path : List String) : Value := v.dataGetOr .null path

def truthy : Value → Bool
  | .null => false
  | .bool b => b
  | .int n => n != 0
  | .float text => text != "0" && text != "-0"
  | .string s => s != "" && s != "0"
  | .list items => !items.isEmpty
  | .map fields => !fields.isEmpty

/-- `$v ?? $w`. -/
def coalesce : Value → Value → Value
  | .null, w => w
  | v, _ => v

/-- `$v ?: $w`. -/
def elvis (v w : Value) : Value := if v.truthy then v else w

def isArray : Value → Bool
  | .list _ => true
  | .map _ => true
  | _ => false

/-- `(array) $v`. -/
def toArray : Value → Value
  | .null => .list []
  | .list items => .list items
  | .map fields => .map fields
  | v => .list [v]

/-- `(string) $v`, where the conversion of an array is an error. -/
def toText : Value → Except String String
  | .null => .ok ""
  | .bool b => .ok (if b then "1" else "")
  | .int n => .ok (toString n)
  | .float text => .ok text
  | .string s => .ok s
  | .list _ => .error "Array to string conversion"
  | .map _ => .error "Array to string conversion"

/-- The value, if it is a string. -/
def asString : Value → Option String
  | .string s => some s
  | _ => none

end Value

/-- `strtoupper`: only ASCII letters change. -/
def strtoupper (s : String) : String := String.ofList (s.toList.map Char.toUpper)

def strtolower (s : String) : String := String.ofList (s.toList.map Char.toLower)

/-- `str_contains`. -/
def strContains (haystack needle : String) : Bool :=
  decide (needle.toList <:+: haystack.toList)

theorem strContains_iff {haystack needle : String} :
    strContains haystack needle = true ↔ needle.toList <:+: haystack.toList :=
  decide_eq_true_iff

/-- `trim` strips these. -/
def isTrimmed (c : Char) : Bool :=
  c == ' ' || c == '\t' || c == '\n' || c == '\r' || c == '\x00' || c == '\x0B'

/-- `blank`, of a nullable string. -/
def blank : Option String → Bool
  | none => true
  | some s => s.toList.all isTrimmed

def filled (s : Option String) : Bool := !blank s

end Php
