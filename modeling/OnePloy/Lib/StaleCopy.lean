import Mathlib.Logic.Function.Basic

/-!
# Copies of a row

A model is a copy of a row: the attributes that were loaded, and what has been set
since. Saving it writes the attributes that differ from those that were loaded, and
no other, whatever the row has become in the meantime.
-/

namespace StaleCopy

variable {κ : Type*} {V : κ → Type*}

abbrev Row (V : κ → Type*) : Type _ := ∀ k, V k

structure Copy (V : κ → Type*) where
  attributes : Row V
  original : Row V

namespace Copy

def load (row : Row V) : Copy V := ⟨row, row⟩

def fill (c : Copy V) (values : ∀ k, Option (V k)) : Copy V :=
  { c with attributes := fun k => (values k).getD (c.attributes k) }

/-- `syncOriginal`. -/
def synced (c : Copy V) : Copy V := ⟨c.attributes, c.attributes⟩

variable [∀ k, DecidableEq (V k)]

/-- The row after the attributes that differ have been written. -/
def save (c : Copy V) (row : Row V) : Row V :=
  fun k => if c.attributes k = c.original k then row k else c.attributes k

variable {c : Copy V} {row : Row V} {values : ∀ k, Option (V k)} {k : κ}

/-- What is set to the value that was loaded is not written. -/
theorem save_fill_some {v : V k} (h : values k = some v) :
    (c.fill values).save row k = if v = c.original k then row k else v := by
  simp only [save, fill, h, Option.getD_some]

theorem save_fill_none (h : values k = none) : (c.fill values).save row k = c.save row k := by
  simp only [save, fill, h, Option.getD_none]

end Copy

end StaleCopy
