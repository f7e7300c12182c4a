import Mathlib.Logic.Function.Basic
import Mathlib.Data.Option.Basic

/-!
# Stores whose entries expire

A key-value store in which every entry lives until its time, with the operation
that writes a key only when nothing lives under it. What is held under a key until
some time cannot be taken over before that time.
-/

namespace Expiring

structure Entry (V : Type*) where
  value : V
  expiresAt : Int

/-- What was written under each key last. -/
abbrev Store (K V : Type*) := K → Option (Entry V)

variable {K V : Type*} [DecidableEq K]

/-- What lives under a key. -/
def get (store : Store K V) (now : Int) (key : K) : Option V :=
  match store key with
  | none => none
  | some entry => if now < entry.expiresAt then some entry.value else none

/-- Writes the key for `lifetime`, unless something lives there, and says whether it
did. -/
def add (store : Store K V) (now lifetime : Int) (key : K) (value : V) : Bool × Store K V :=
  if lifetime ≤ 0 ∨ (get store now key).isSome then (false, store)
  else (true, Function.update store key (some ⟨value, now + lifetime⟩))

/-- The value is there until `time` at least. -/
def HeldUntil (store : Store K V) (key : K) (value : V) (time : Int) : Prop :=
  ∃ entry, store key = some entry ∧ entry.value = value ∧ time ≤ entry.expiresAt

variable {store : Store K V} {key : K} {value : V} {time now : Int}

omit [DecidableEq K] in
theorem HeldUntil.get_eq (h : HeldUntil store key value time) (hnow : now < time) :
    get store now key = some value := by
  obtain ⟨entry, hentry, rfl, htime⟩ := h
  have halive : now < entry.expiresAt := by omega
  simp only [get, hentry, if_pos halive]

/-- What is held is not written over. -/
theorem HeldUntil.add_eq (h : HeldUntil store key value time) (hnow : now < time)
    (lifetime : Int) (other : V) : add store now lifetime key other = (false, store) := by
  have hget : (get store now key).isSome := by simp [h.get_eq hnow]
  simp only [add, if_pos (Or.inr hget)]

theorem add_of_none (h : store key = none) {lifetime : Int} (hlife : 0 < lifetime) (value : V) :
    add store now lifetime key value
      = (true, Function.update store key (some ⟨value, now + lifetime⟩)) := by
  have hget : get store now key = none := by simp only [get, h]
  have hno : ¬ (lifetime ≤ 0 ∨ (get store now key).isSome) := by
    rintro (hle | hsome)
    · omega
    · simp [hget] at hsome
  simp only [add, if_neg hno]

theorem heldUntil_update (store : Store K V) (key : K) (value : V) {time expiresAt : Int}
    (h : time ≤ expiresAt) :
    HeldUntil (Function.update store key (some ⟨value, expiresAt⟩)) key value time :=
  ⟨⟨value, expiresAt⟩, Function.update_self .., rfl, h⟩

end Expiring
