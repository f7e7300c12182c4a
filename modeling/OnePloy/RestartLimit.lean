import OnePloy.Lib.Reach
import OnePloy.Lib.StaleCopy

/-!
# The restart limit

A status check counts the restarts of a container, and where they reach the limit it
claims the row: one statement sets `restart_limit_reached`, if it is not set. Starting
or stopping the resource resets it. Both hold a copy of the row that was loaded at
some earlier time, and write what differs from it; the claim alone asks the database.

`log` is no table: it lists what the calls came to, the latest first.
-/

namespace OnePloy

open Conc StaleCopy

/-! ## Counting -/

structure RestartEvaluation where
  restartCount : Int
  restartCountChanged : Bool
  restartLimitReached : Bool
  newGeneration : Bool
  deriving DecidableEq, Repr

/-- `RestartCountTracker::evaluate`. -/
def evaluateRestarts (previousRestartCount observedRestartCount maxRestartCount : Int)
    (newGenerationConfirmed : Bool) : RestartEvaluation :=
  let newGeneration :=
    newGenerationConfirmed && decide (observedRestartCount < previousRestartCount)
  let restartCountIncreased := decide (previousRestartCount < observedRestartCount)
  let restartCountChanged := newGeneration || restartCountIncreased
  { restartCount := if restartCountChanged then observedRestartCount else previousRestartCount
    restartCountChanged := restartCountChanged
    restartLimitReached :=
      decide (0 < maxRestartCount) && decide (maxRestartCount ≤ observedRestartCount)
    newGeneration := newGeneration }

/-! ## The row and its copies -/

inductive RestartColumn
  | restartCount
  | maxRestartCount
  | restartLimitReached
  | lastRestartAt
  | lastRestartType
  deriving DecidableEq, Repr

/-- What a column holds. -/
@[reducible] def RestartColumn.Val : RestartColumn → Type
  | restartCount | maxRestartCount => Option Int
  | restartLimitReached => Bool
  | lastRestartAt => Option Nat
  | lastRestartType => Option String

instance : ∀ k : RestartColumn, DecidableEq k.Val
  | .restartCount | .maxRestartCount => inferInstanceAs (DecidableEq (Option Int))
  | .restartLimitReached => inferInstanceAs (DecidableEq Bool)
  | .lastRestartAt => inferInstanceAs (DecidableEq (Option Nat))
  | .lastRestartType => inferInstanceAs (DecidableEq (Option String))

abbrev RestartRow : Type := Row RestartColumn.Val

abbrev RestartCopy : Type := Copy RestartColumn.Val

/-- The values of `trackRestartCount`. -/
def countedValues (restartCount : Int) (now : Nat) : ∀ k : RestartColumn, Option k.Val
  | .restartCount => some (some restartCount)
  | .lastRestartAt => some (if 0 < restartCount then some now else none)
  | .lastRestartType => some (if 0 < restartCount then some "crash" else none)
  | .maxRestartCount | .restartLimitReached => none

/-- The values of `resetRestartLimit`. -/
def resetValues : ∀ k : RestartColumn, Option k.Val
  | .restartCount => some (some 0)
  | .restartLimitReached => some false
  | .lastRestartAt => some none
  | .lastRestartType => some none
  | .maxRestartCount => none

/-- What a claim sets, in the copy too. -/
def claimedValues : ∀ k : RestartColumn, Option k.Val
  | .restartLimitReached => some true
  | .restartCount | .maxRestartCount | .lastRestartAt | .lastRestartType => none

/-- What a call comes to: a completed reset, or what `trackRestartCount` returns. -/
inductive RestartEvent
  | reset
  | claimed
  | refused
  deriving DecidableEq, Repr

structure RestartState where
  row : RestartRow
  copies : Nat → Option RestartCopy
  /-- `trackRestartCount` on this copy has still to claim the row. -/
  claiming : Nat → Bool
  log : List RestartEvent

/-- The statements of the calls; a copy is loaded before it is used, and anew as often
as anyone likes. -/
inductive RestartAction
  | load (copy : Nat)
  | count (copy : Nat) (observed : Int) (now : Nat)
  | claim (copy : Nat)
  | reset (copy : Nat)
  deriving DecidableEq, Repr

namespace RestartState

def setCopy (s : RestartState) (i : Nat) (c : RestartCopy) : RestartState :=
  { s with copies := Function.update s.copies i (some c) }

def note (s : RestartState) (e : RestartEvent) : RestartState := { s with log := e :: s.log }

/-- `$this->update`. -/
def update (s : RestartState) (i : Nat) (c : RestartCopy)
    (values : ∀ k : RestartColumn, Option k.Val) : RestartState :=
  { s.setCopy i (c.fill values).synced with row := (c.fill values).save s.row }

/-- `trackRestartCount`, of a copy. -/
def evaluation (c : RestartCopy) (observed : Int) : RestartEvaluation :=
  evaluateRestarts ((c.attributes .restartCount).getD 0) observed
    ((c.attributes .maxRestartCount).getD 0) false

/-- `trackRestartCount` up to its claim. -/
def count (s : RestartState) (i : Nat) (c : RestartCopy) (observed : Int) (now : Nat) :
    RestartState :=
  let state := evaluation c observed
  let s := if state.restartCountChanged then s.update i c (countedValues state.restartCount now)
    else s
  if state.restartLimitReached then { s with claiming := Function.update s.claiming i true }
  else s.note .refused

/-- The claim of `trackRestartCount`: one conditional statement. -/
def claim (s : RestartState) (i : Nat) (c : RestartCopy) : RestartState :=
  let s := { s with claiming := Function.update s.claiming i false }
  if s.row .restartLimitReached then s.note .refused
  else
    { (s.setCopy i (c.fill claimedValues)).note .claimed with
      row := Function.update s.row .restartLimitReached true }

def step (s : RestartState) : RestartAction → Option RestartState
  | .load i => if s.claiming i then none else some (s.setCopy i (Copy.load s.row))
  | .count i observed now =>
      if s.claiming i then none else (s.copies i).map (s.count i · observed now)
  | .claim i => if s.claiming i then (s.copies i).map (s.claim i) else none
  | .reset i =>
      if s.claiming i then none
      else (s.copies i).map fun c => (s.update i c resetValues).note .reset

def start (row : RestartRow) : RestartState := ⟨row, fun _ => none, fun _ => false, []⟩

/-! ## The flag -/

/-- The claims since the latest reset. -/
def claimsSinceReset (log : List RestartEvent) : Nat :=
  (log.takeWhile (· ≠ .reset)).count .claimed

/-- The latest call that changed the flag. -/
def settled (log : List RestartEvent) : Option RestartEvent := log.find? (· ≠ .refused)

/-- After a reset the stored flag is not set, until it is claimed. -/
def ClearAfterReset (s : RestartState) : Prop :=
  settled s.log = some .reset → s.row .restartLimitReached = false

/-- Saving the copy writes the flag. -/
def WritesFlag (c : RestartCopy) : Prop :=
  c.attributes .restartLimitReached ≠ c.original .restartLimitReached

instance (c : RestartCopy) : Decidable (WritesFlag c) := inferInstanceAs (Decidable (_ ≠ _))

/-- The copy that is reset has the flag set, or the row has it not; and no count writes a
flag with it that an earlier claim has left in its copy, if the row has it not set. -/
def Fresh (s : RestartState) : RestartAction → Prop
  | .reset i => ∀ c ∈ s.copies i,
      c.original .restartLimitReached = true ∨ s.row .restartLimitReached = false
  | .count i observed _ => ∀ c ∈ s.copies i,
      WritesFlag c → (evaluation c observed).restartCountChanged = true →
        s.row .restartLimitReached = true
  | .load _ | .claim _ => True

/-- What every run keeps. -/
structure Invariant (s : RestartState) : Prop where
  /-- A flag that is not saved is set. -/
  unsaved : ∀ i c, s.copies i = some c → WritesFlag c →
    c.attributes .restartLimitReached = true
  unsaved_claimed : ∀ i c, s.copies i = some c → WritesFlag c → .claimed ∈ s.log
  claimed : 0 < claimsSinceReset s.log → s.row .restartLimitReached = true
  once : ∀ older, older <:+ s.log → claimsSinceReset older ≤ 1

theorem claimsSinceReset_refused (log : List RestartEvent) :
    claimsSinceReset (.refused :: log) = claimsSinceReset log := by
  simp [claimsSinceReset]

theorem claimsSinceReset_reset (log : List RestartEvent) :
    claimsSinceReset (.reset :: log) = 0 := by
  simp [claimsSinceReset]

theorem claimsSinceReset_claimed (log : List RestartEvent) :
    claimsSinceReset (.claimed :: log) = claimsSinceReset log + 1 := by
  simp [claimsSinceReset]

theorem settled_refused (log : List RestartEvent) :
    settled (.refused :: log) = settled log := by
  simp [settled]

/-- A claim is the latest change of the flag, or a reset is. -/
theorem settled_of_claimed {log : List RestartEvent} (h : .claimed ∈ log) :
    settled log = some .reset ∨ 0 < claimsSinceReset log := by
  induction log with
  | nil => cases h
  | cons e log ih =>
      cases e with
      | reset => exact .inl rfl
      | claimed => exact .inr (by rw [claimsSinceReset_claimed]; omega)
      | refused =>
          rw [settled_refused, claimsSinceReset_refused]
          exact ih (List.mem_of_ne_of_mem (by decide) h)

theorem not_settled_of_claims {log : List RestartEvent} (h : 0 < claimsSinceReset log) :
    settled log ≠ some .reset := by
  induction log with
  | nil => exact nofun
  | cons e log ih =>
      cases e with
      | reset => simp [claimsSinceReset_reset] at h
      | claimed => exact nofun
      | refused =>
          rw [settled_refused]
          exact ih (by rwa [claimsSinceReset_refused] at h)

/-- No part of the log without a reset has two claims. -/
theorem count_claimed_le {log newer mid older : List RestartEvent}
    (honce : ∀ older, older <:+ log → claimsSinceReset older ≤ 1)
    (hlog : log = newer ++ (mid ++ older)) (hmid : .reset ∉ mid) : mid.count .claimed ≤ 1 := by
  have hsuffix := honce (mid ++ older) ⟨newer, hlog.symm⟩
  have hall : ∀ e ∈ mid, decide (e ≠ RestartEvent.reset) = true := fun e he =>
    decide_eq_true fun heq => hmid (heq ▸ he)
  rw [claimsSinceReset, List.takeWhile_append_of_pos hall, List.count_append] at hsuffix
  omega

/-! ## Steps -/

variable {s t : RestartState} {i : Nat} {c : RestartCopy}

theorem copies_setCopy {j : Nat} {c' : RestartCopy} (h : (s.setCopy i c).copies j = some c') :
    c' = c ∨ s.copies j = some c' := by
  have h : Function.update s.copies i (some c) j = some c' := h
  by_cases hj : j = i
  · rw [hj, Function.update_self] at h
    exact .inl (Option.some.inj h).symm
  · rw [Function.update_of_ne hj] at h
    exact .inr h

theorem not_writesFlag_synced (c : RestartCopy) : ¬ WritesFlag c.synced := fun h => h rfl

theorem update_counted_flag (restartCount : Int) (now : Nat) :
    (s.update i c (countedValues restartCount now)).row .restartLimitReached =
      if c.attributes .restartLimitReached = c.original .restartLimitReached then
        s.row .restartLimitReached
      else c.attributes .restartLimitReached :=
  Copy.save_fill_none rfl

theorem update_reset_flag :
    (s.update i c resetValues).row .restartLimitReached =
      if false = c.original .restartLimitReached then s.row .restartLimitReached else false :=
  Copy.save_fill_some rfl

theorem Invariant.setCopy (h : Invariant s) (hc : ¬ WritesFlag c) : Invariant (s.setCopy i c) where
  unsaved j c' hget hwrites := by
    rcases copies_setCopy hget with rfl | hget
    · exact absurd hwrites hc
    · exact h.unsaved j c' hget hwrites
  unsaved_claimed j c' hget hwrites := by
    rcases copies_setCopy hget with rfl | hget
    · exact absurd hwrites hc
    · exact h.unsaved_claimed j c' hget hwrites
  claimed := h.claimed
  once := h.once

theorem Invariant.counted (h : Invariant s) (hc : s.copies i = some c) (restartCount : Int)
    (now : Nat) : Invariant (s.update i c (countedValues restartCount now)) := by
  have hset := h.setCopy (i := i) (not_writesFlag_synced (c.fill (countedValues restartCount now)))
  refine ⟨hset.unsaved, hset.unsaved_claimed, fun hpos => ?_, hset.once⟩
  rw [update_counted_flag]
  split
  · exact h.claimed hpos
  · next hne => exact h.unsaved i c hc hne

theorem suffix_cons {e : RestartEvent} {older log : List RestartEvent} (h : older <:+ e :: log) :
    older = e :: log ∨ older <:+ log := List.suffix_cons_iff.mp h

theorem Invariant.refused (h : Invariant s) : Invariant (s.note .refused) where
  unsaved := h.unsaved
  unsaved_claimed j c hget hwrites := List.mem_cons_of_mem _ (h.unsaved_claimed j c hget hwrites)
  claimed hpos := h.claimed (by rwa [note, claimsSinceReset_refused] at hpos)
  once older hsuffix := by
    rcases suffix_cons hsuffix with rfl | hsuffix
    · rw [claimsSinceReset_refused]
      exact h.once _ (List.suffix_refl _)
    · exact h.once older hsuffix

/-- The row is claimed only while it is not. -/
theorem Invariant.of_claim (h : Invariant s) (i : Nat) (c : RestartCopy) :
    Invariant (s.claim i c) := by
  rw [claim]
  split
  · exact Invariant.refused ⟨h.unsaved, h.unsaved_claimed, h.claimed, h.once⟩
  · next hflag =>
      have hnone : claimsSinceReset s.log = 0 := by
        by_contra hpos
        exact hflag (h.claimed (Nat.pos_of_ne_zero hpos))
      refine ⟨fun j c' hget hwrites => ?_, fun j c' _ _ => List.mem_cons_self ..,
        fun _ => Function.update_self RestartColumn.restartLimitReached true s.row,
        fun older hsuffix => ?_⟩
      · rcases copies_setCopy hget with rfl | hget
        · rfl
        · exact h.unsaved j c' hget hwrites
      · rcases suffix_cons hsuffix with rfl | hsuffix
        · rw [claimsSinceReset_claimed]
          exact Nat.le_of_eq (congrArg (· + 1) hnone)
        · exact h.once older hsuffix

theorem Invariant.reset (h : Invariant s) (i : Nat) (c : RestartCopy) :
    Invariant ((s.update i c resetValues).note .reset) := by
  have hset := h.setCopy (i := i) (not_writesFlag_synced (c.fill resetValues))
  refine ⟨hset.unsaved, fun j c' hget hwrites =>
    List.mem_cons_of_mem _ (hset.unsaved_claimed j c' hget hwrites), fun hpos => ?_,
    fun older hsuffix => ?_⟩
  · rw [note, claimsSinceReset_reset] at hpos
    exact absurd hpos (Nat.lt_irrefl 0)
  · rcases suffix_cons hsuffix with rfl | hsuffix
    · rw [claimsSinceReset_reset]
      exact Nat.zero_le 1
    · exact h.once older hsuffix

/-- What a count comes to, up to the claim it may leave to be made. -/
theorem Invariant.count (h : Invariant s) (hc : s.copies i = some c) (observed : Int) (now : Nat) :
    Invariant (s.count i c observed now) := by
  have hupdated : Invariant (if (evaluation c observed).restartCountChanged then
      s.update i c (countedValues (evaluation c observed).restartCount now) else s) := by
    split
    · exact h.counted hc ..
    · exact h
  rw [RestartState.count]
  split
  · exact ⟨hupdated.unsaved, hupdated.unsaved_claimed, hupdated.claimed, hupdated.once⟩
  · exact hupdated.refused

theorem invariant_step {a : RestartAction} (h : Invariant s) (hst : step s a = some t) :
    Invariant t := by
  cases a with
  | load i =>
      rw [step] at hst
      split at hst
      · cases hst
      · obtain rfl := Option.some.inj hst
        exact h.setCopy fun hwrites => hwrites rfl
  | count i observed now =>
      rw [step] at hst
      split at hst
      · cases hst
      · obtain ⟨c, hc, rfl⟩ := Option.map_eq_some_iff.mp hst
        exact h.count hc observed now
  | claim i =>
      rw [step] at hst
      split at hst
      · obtain ⟨c, hc, rfl⟩ := Option.map_eq_some_iff.mp hst
        exact h.of_claim i c
      · cases hst
  | reset i =>
      rw [step] at hst
      split at hst
      · cases hst
      · obtain ⟨c, hc, rfl⟩ := Option.map_eq_some_iff.mp hst
        exact h.reset i c

/-! ## Runs -/

/-- Only one copy is meant. -/
theorem fresh_iff {P : RestartCopy → Prop} (hc : s.copies i = some c) :
    (∀ c' ∈ s.copies i, P c') ↔ P c := by
  rw [hc]
  exact ⟨fun h => h c rfl, fun h c' hc' => Option.some.inj hc' ▸ h⟩

/-- Of a count only the update may set the flag. -/
theorem clearAfterReset_count_iff (observed : Int) (now : Nat) :
    ClearAfterReset (s.count i c observed now) ↔ (settled s.log = some .reset →
      (if (evaluation c observed).restartCountChanged ∧ WritesFlag c then
        c.attributes .restartLimitReached else s.row .restartLimitReached) = false) := by
  have hflag : (if (evaluation c observed).restartCountChanged then
      s.update i c (countedValues (evaluation c observed).restartCount now) else s).row
        .restartLimitReached = if (evaluation c observed).restartCountChanged ∧ WritesFlag c then
          c.attributes .restartLimitReached else s.row .restartLimitReached := by
    split
    · next hchanged =>
        rw [update_counted_flag]
        by_cases heq : c.attributes .restartLimitReached = c.original .restartLimitReached
        · rw [if_pos heq, if_neg fun h => h.2 heq]
        · rw [if_neg heq, if_pos ⟨hchanged, heq⟩]
    · next hchanged => rw [if_neg fun h => hchanged h.1]
  have hlog : (if (evaluation c observed).restartCountChanged then
      s.update i c (countedValues (evaluation c observed).restartCount now) else s).log =
        s.log := by
    split <;> rfl
  rw [← hflag, ← hlog, RestartState.count]
  by_cases hreached : (evaluation c observed).restartLimitReached = true
  · rw [if_pos hreached]
    rfl
  · rw [if_neg hreached, ClearAfterReset, note, settled_refused]

theorem clearAfterReset_count (h : Invariant s) (hclear : ClearAfterReset s)
    (hc : s.copies i = some c) (observed : Int) (now : Nat) :
    ClearAfterReset (s.count i c observed now) ↔ Fresh s (.count i observed now) := by
  have hfresh : Fresh s (.count i observed now) ↔ (WritesFlag c →
      (evaluation c observed).restartCountChanged = true → s.row .restartLimitReached = true) :=
    fresh_iff hc
  rw [clearAfterReset_count_iff, hfresh]
  by_cases hwrites : (evaluation c observed).restartCountChanged = true ∧ WritesFlag c
  · rw [if_pos hwrites, h.unsaved i c hc hwrites.2]
    constructor
    · -- The copy has claimed the row, which was not reset since.
      intro hnot _ _
      exact h.claimed ((settled_of_claimed (h.unsaved_claimed i c hc hwrites.2)).resolve_left
        fun hreset => Bool.noConfusion (hnot hreset))
    · intro hflag hreset
      have hfalse := hclear hreset
      rw [hflag hwrites.2 hwrites.1] at hfalse
      exact hfalse
  · rw [if_neg hwrites]
    exact ⟨fun _ hw hchanged => absurd ⟨hchanged, hw⟩ hwrites, fun _ => hclear⟩

/-- Whether a step keeps the flag clear after a reset is said by `Fresh`. -/
theorem clearAfterReset_step {a : RestartAction} (h : Invariant s) (hclear : ClearAfterReset s)
    (hst : step s a = some t) : ClearAfterReset t ↔ Fresh s a := by
  cases a with
  | load i =>
      rw [step] at hst
      split at hst
      · cases hst
      · obtain rfl := Option.some.inj hst
        exact ⟨fun _ => trivial, fun _ => hclear⟩
  | count i observed now =>
      rw [step] at hst
      split at hst
      · cases hst
      · obtain ⟨c, hc, rfl⟩ := Option.map_eq_some_iff.mp hst
        exact clearAfterReset_count h hclear hc observed now
  | claim i =>
      rw [step] at hst
      split at hst
      · obtain ⟨c, hc, rfl⟩ := Option.map_eq_some_iff.mp hst
        refine ⟨fun _ => trivial, fun _ => ?_⟩
        rw [RestartState.claim]
        split
        · intro hsettled
          exact hclear (by rwa [note, settled_refused] at hsettled)
        · exact nofun
      · cases hst
  | reset i =>
      rw [step] at hst
      split at hst
      · cases hst
      · obtain ⟨c, hc, rfl⟩ := Option.map_eq_some_iff.mp hst
        have hiff : ClearAfterReset ((s.update i c resetValues).note .reset) ↔
            (s.update i c resetValues).row .restartLimitReached = false :=
          ⟨fun hclear => hclear rfl, fun hflag _ => hflag⟩
        have hfresh : Fresh s (.reset i) ↔
            c.original .restartLimitReached = true ∨ s.row .restartLimitReached = false :=
          fresh_iff hc
        rw [hiff, hfresh, update_reset_flag]
        cases c.original .restartLimitReached with
        | false => simp
        | true => simp

theorem invariant_start (row : RestartRow) : Invariant (start row) where
  unsaved _ _ h := nomatch h
  unsaved_claimed _ _ h := nomatch h
  claimed h := absurd h (Nat.lt_irrefl 0)
  once older h := by
    obtain rfl := List.suffix_nil.mp h
    exact Nat.zero_le 1

/-- Between two resets the row is claimed once at most. After a reset the flag stays clear
exactly where each reset is of a fresh copy, and no count writes an unsaved claim. -/
theorem claimed_once_and_cleared_iff (row : RestartRow)
    {trail : List (RestartState × RestartAction)} {s : RestartState}
    (h : Runs step (start row) trail s) :
    (∀ newer mid older, s.log = newer ++ (mid ++ older) → .reset ∉ mid →
      mid.count .claimed ≤ 1) ∧
    (Throughout ClearAfterReset trail s ↔ ∀ p ∈ trail, Fresh p.1 p.2) := by
  have hinvariant : Invariant s :=
    (h.reaches fun _ _ => trivial : Reaches step Any (start row) s).invariant
      (fun _ _ _ hI _ hst => invariant_step hI hst) (invariant_start row)
  refine ⟨fun newer mid older => count_claimed_le hinvariant.once, ?_⟩
  exact h.throughout_iff (fun _ _ _ hI _ hst => invariant_step hI hst)
    (fun _ _ _ => clearAfterReset_step) (invariant_start row) nofun

/-- The limit is three restarts. -/
def limitedRow : RestartRow
  | .restartCount => some 0
  | .maxRestartCount => some 3
  | .restartLimitReached => false
  | .lastRestartAt => none
  | .lastRestartType => none

instance : DecidableRel Fresh := fun s a =>
  match a with
  | .reset i => inferInstanceAs (Decidable (∀ c ∈ s.copies i,
      c.original .restartLimitReached = true ∨ s.row .restartLimitReached = false))
  | .count i observed _ => inferInstanceAs (Decidable (∀ c ∈ s.copies i,
      WritesFlag c → (evaluation c observed).restartCountChanged = true →
        s.row .restartLimitReached = true))
  | .load _ | .claim _ => isTrue trivial

/-- The resetting caller has loaded the row after the claim. -/
theorem fresh_copy_clears : ∃ trail s, Runs step (start limitedRow) trail s ∧
    s.log = [.reset, .claimed] ∧ Throughout ClearAfterReset trail s := by
  obtain ⟨trail, s, hrun, hfresh, hlog⟩ := exists_runs_of_execIf step Fresh
    [.load 0, .count 0 3 10, .claim 0, .load 1, .reset 1] (start limitedRow)
    (fun s => s.log = [.reset, .claimed]) (by decide)
  exact ⟨trail, s, hrun, of_decide_eq_true hlog,
    (claimed_once_and_cleared_iff limitedRow hrun).2.mpr hfresh⟩

/-- The resetting caller has loaded the row before the claim. -/
theorem stale_copy_resets_nothing : ¬ ∀ (row : RestartRow)
    (trail : List (RestartState × RestartAction)) (s : RestartState),
    Runs step (start row) trail s → Throughout ClearAfterReset trail s := by
  intro h
  obtain ⟨trail, s, hrun, -, hset⟩ := exists_runs_of_execIf step Any
    [.load 1, .load 0, .count 0 3 10, .claim 0, .reset 1] (start limitedRow)
    (fun s => s.log = [.reset, .claimed] && s.row .restartLimitReached) (by decide)
  rw [Bool.and_eq_true, decide_eq_true_iff] at hset
  have hclear := (h limitedRow trail s hrun).2 (by rw [hset.1]; rfl)
  rw [hset.2] at hclear
  cases hclear

end RestartState

end OnePloy
