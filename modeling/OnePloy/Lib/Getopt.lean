import Mathlib.Data.List.Basic

/-!
# Command lines as getopt reads them

A command line is a list of words, and a word a list of letters. Options begin with
a dash and are single letters, several of them in one word; an option that takes a
value takes the rest of its word, or else the next word. What is no option is an
operand, and two dashes end the options.

`readOptions` reads up to the first operand. `readAround` is for programs that take
options before and after their first operand, with a rest that they pass on.
-/

namespace Getopt

variable {α : Type*} [DecidableEq α]

structure Opt (α : Type*) where
  letter : α
  value : Option (List α)
deriving DecidableEq

/-- How options are written: the letter that introduces them, and for each option
whether it takes a value. -/
structure Grammar (α : Type*) where
  dash : α
  takesValue : α → Option Bool

variable (spec : Grammar α)

/-- The options in a word, behind its dash, and the one whose value is the next word. -/
def readLetters : List α → Option (List (Opt α) × Option α)
  | [] => some ([], none)
  | c :: cs =>
      match spec.takesValue c with
      | none => none
      | some false => (readLetters cs).map fun r => (⟨c, none⟩ :: r.1, r.2)
      | some true => if cs.isEmpty then some ([], some c) else some ([⟨c, some cs⟩], none)

/-- A word that is read as options. -/
def isOptionWord (word : List α) : Bool :=
  word.head? == some spec.dash && decide (2 ≤ word.length)

/-- The options up to the first operand, whether two dashes ended them, and the words
from there on. -/
def readOptions : List (List α) → Option (List (Opt α) × Bool × List (List α))
  | [] => some ([], false, [])
  | word :: words =>
      if word = [spec.dash, spec.dash] then some ([], true, words)
      else if !isOptionWord spec word then some ([], false, word :: words)
      else
        match readLetters spec word.tail with
        | none => none
        | some (options, none) =>
            (readOptions words).map fun r => (options ++ r.1, r.2)
        | some (options, some c) =>
            match words with
            | [] => none
            | value :: words =>
                (readOptions words).map fun r => (options ++ ⟨c, some value⟩ :: r.1, r.2)

structure Reading (α : Type*) where
  options : List (Opt α)
  operand : Option (List α)
  rest : List (List α)

/-- Options, an operand, options again unless two dashes have ended them, and the rest. -/
def readAround (words : List (List α)) : Option (Reading α) :=
  match readOptions spec words with
  | none => none
  | some (options, _, []) => some ⟨options, none, []⟩
  | some (options, ended, operand :: rest) =>
      if ended then some ⟨options, some operand, rest⟩
      else (readOptions spec rest).map fun r => ⟨options ++ r.1, some operand, r.2.2⟩

/-! ## Rules -/

variable {spec}

theorem readOptions_operand {word : List α} (h : isOptionWord spec word = false)
    (words : List (List α)) :
    readOptions spec (word :: words) = some ([], false, word :: words) := by
  have hends : word ≠ [spec.dash, spec.dash] := by
    rintro rfl
    simp [isOptionWord] at h
  rw [readOptions, if_neg hends, if_pos (by simp [h])]

/-- Options with their values in words of their own. -/
def spread (spec : Grammar α) (options : List (α × List α)) : List (List α) :=
  options.flatMap fun p => [[spec.dash, p.1], p.2]

def valued (options : List (α × List α)) : List (Opt α) :=
  options.map fun p => ⟨p.1, some p.2⟩

theorem readOptions_spread {options : List (α × List α)}
    (h : ∀ p ∈ options, spec.takesValue p.1 = some true ∧ p.1 ≠ spec.dash)
    (words : List (List α)) :
    readOptions spec (spread spec options ++ words)
      = (readOptions spec words).map fun r => (valued options ++ r.1, r.2) := by
  induction options with
  | nil => simp [spread, valued]
  | cons p ps ih =>
      obtain ⟨htakes, hdash⟩ := h p (List.mem_cons_self ..)
      have ih := ih fun q hq => h q (List.mem_cons_of_mem _ hq)
      have hword : [spec.dash, p.1] ≠ [spec.dash, spec.dash] := by simp [hdash]
      have hoption : isOptionWord spec [spec.dash, p.1] = true := by simp [isOptionWord]
      have hletters : readLetters spec [p.1] = some ([], some p.1) := by
        simp [readLetters, htakes]
      change readOptions spec ([spec.dash, p.1] :: p.2 :: (spread spec ps ++ words)) = _
      rw [readOptions, if_neg hword, if_neg (by simp [hoption])]
      simp only [List.tail_cons, hletters, ih, Option.map_map]
      rfl

/-- A last word that is read as options leaves no operand. -/
theorem rest_of_optionWord {word : List α} (h : isOptionWord spec word = true)
    {r : List (Opt α) × Bool × List (List α)} (hr : readOptions spec [word] = some r) :
    r.2.2 = [] := by
  rw [readOptions] at hr
  split at hr
  · rw [← Option.some.inj hr]
  · rw [if_neg (by simp [h])] at hr
    split at hr
    · cases hr
    · rw [readOptions] at hr
      rw [← Option.some.inj hr]
    · cases hr

end Getopt
