import OnePloy.Lib.PhpValue
import Mathlib.Data.List.Basic

/-!
# Identity and encoding of PHP values

`===` compares two values with all that is in them. `json_encode` tells the same
values apart, where they are written in one way only: an array whose keys are
the indices is a list, an object has another key, and there are no fractions,
which lose a zero behind the point.
-/

namespace Php

namespace Value

mutual

/-- `===`. -/
def identical : Value → Value → Bool
  | .null, .null => true
  | .bool a, .bool b => a == b
  | .int m, .int n => m == n
  | .float t, .float u => t == u
  | .string s, .string t => s == t
  | .list items, .list items' => identicalItems items items'
  | .map fields, .map fields' => identicalFields fields fields'
  | _, _ => false

def identicalItems : List Value → List Value → Bool
  | [], [] => true
  | v :: items, w :: items' => v.identical w && identicalItems items items'
  | _, _ => false

def identicalFields : List (String × Value) → List (String × Value) → Bool
  | [], [] => true
  | (k, v) :: fields, (l, w) :: fields' =>
      k == l && v.identical w && identicalFields fields fields'
  | _, _ => false

end

mutual

theorem identical_iff : ∀ {v w : Value}, v.identical w = true ↔ v = w
  | .null, w => by cases w <;> simp [identical]
  | .bool b, w => by cases w <;> simp [identical]
  | .int n, w => by cases w <;> simp [identical]
  | .float t, w => by cases w <;> simp [identical]
  | .string s, w => by cases w <;> simp [identical]
  | .list items, w => by
      cases w with
      | list items' => simp [identical, @identicalItems_iff items]
      | _ => simp [identical]
  | .map fields, w => by
      cases w with
      | map fields' => simp [identical, @identicalFields_iff fields]
      | _ => simp [identical]

theorem identicalItems_iff : ∀ {items items' : List Value},
    identicalItems items items' = true ↔ items = items'
  | [], items' => by cases items' <;> simp [identicalItems]
  | v :: items, items' => by
      cases items' with
      | nil => simp [identicalItems]
      | cons w items' =>
          simp [identicalItems, identical_iff (v := v), @identicalItems_iff items]

theorem identicalFields_iff : ∀ {fields fields' : List (String × Value)},
    identicalFields fields fields' = true ↔ fields = fields'
  | [], fields' => by cases fields' <;> simp [identicalFields]
  | (k, v) :: fields, fields' => by
      cases fields' with
      | nil => simp [identicalFields]
      | cons e fields' =>
          simp [identicalFields, identical_iff (v := v), @identicalFields_iff fields,
            Prod.ext_iff, and_assoc]

end

instance : DecidableEq Value := fun _ _ => decidable_of_iff _ identical_iff

/-- An array of a list of entries; without any it is the empty list. -/
def ofFields (fields : List (String × Value)) : Value :=
  if fields = [] then .list [] else .map fields

/-- The value is written in one way only. -/
inductive Canonical : Value → Prop
  | null : Canonical .null
  | bool (b : Bool) : Canonical (.bool b)
  | int (n : Int) : Canonical (.int n)
  | string (s : String) : Canonical (.string s)
  | list {items : List Value} (h : ∀ v ∈ items, Canonical v) : Canonical (.list items)
  | map {fields : List (String × Value)} (h : ∀ e ∈ fields, Canonical e.2)
      (hkeys : fields.map Prod.fst ≠ (List.range fields.length).map toString) :
      Canonical (.map fields)

/-- A value that is no array. -/
def isScalar : Value → Bool
  | .null | .bool _ | .int _ | .string _ => true
  | .float _ | .list _ | .map _ => false

theorem canonical_of_isScalar : ∀ {v : Value}, v.isScalar = true → v.Canonical
  | .null, _ => .null
  | .bool b, _ => .bool b
  | .int n, _ => .int n
  | .string s, _ => .string s

/-- A first key that is no index makes an object. -/
theorem canonical_cons {e : String × Value} {fields : List (String × Value)}
    (h : ∀ e' ∈ e :: fields, Canonical e'.2) (hkey : e.1 ≠ "0") :
    (Value.map (e :: fields)).Canonical := by
  refine .map h fun heq => hkey ?_
  rw [List.length_cons, List.range_succ_eq_map, List.map_cons, List.map_cons] at heq
  exact (List.cons.inj heq).1

theorem canonical_ofFields {fields : List (String × Value)} (h : ∀ e ∈ fields, Canonical e.2)
    (hkeys : ∀ e ∈ fields, e.1 ≠ "0") : (ofFields fields).Canonical := by
  cases fields with
  | nil => exact .list fun _ hv => absurd hv List.not_mem_nil
  | cons e fields =>
      rw [ofFields, if_neg (List.cons_ne_nil _ _)]
      exact canonical_cons h (hkeys e (List.mem_cons_self ..))

theorem ofFields_injective {fields fields' : List (String × Value)}
    (h : ofFields fields = ofFields fields') : fields = fields' := by
  rw [ofFields, ofFields] at h
  split at h <;> split at h
  · next hf hf' => rw [hf, hf']
  · cases h
  · cases h
  · exact Value.map.inj h

end Value

end Php
