import Mathlib.Data.List.Chain
import Mathlib.Logic.Relation

/-!
# Runs of a labelled system

A system is a partial step function `step : σ → α → Option σ`: the label
carries every choice that is not the system's own (whose turn it is, what a
remote party answers, how far the clock moves), and `none` says that the
action is not enabled. `ok` restricts a run to the actions it allows in the
state they are taken in; `Any` is no restriction.

`Reaches.invariant` is the induction over a run, once and for all;
`execIf` replays a concrete list of actions, so that a run can be exhibited
by evaluation.
-/

namespace Conc

variable {σ α : Type*}

/-- One enabled step whose action `ok` allows. -/
def Steps (step : σ → α → Option σ) (ok : σ → α → Prop) (s s' : σ) : Prop :=
  ∃ a, ok s a ∧ step s a = some s'

/-- `s'` is the end of a run from `s` all of whose steps `ok` allows. -/
abbrev Reaches (step : σ → α → Option σ) (ok : σ → α → Prop) : σ → σ → Prop :=
  Relation.ReflTransGen (Steps step ok)

/-- Every action is allowed. -/
def Any (_ : σ) (_ : α) : Prop := True

instance : DecidableRel (Any : σ → α → Prop) := fun _ _ => isTrue trivial

/-- Invariants: what holds at the start and is kept by every allowed step
holds at the end of every run. -/
theorem Reaches.invariant {step : σ → α → Option σ} {ok : σ → α → Prop}
    {I : σ → Prop}
    (hstep : ∀ s a s', I s → ok s a → step s a = some s' → I s')
    {s s' : σ} (h : Reaches step ok s s') (hs : I s) : I s' := by
  induction h with
  | refl => exact hs
  | tail _ hst ih =>
      obtain ⟨a, hok, hst⟩ := hst
      exact hstep _ a _ ih hok hst

/-- Loosening the restriction on a run. -/
theorem Reaches.mono {step : σ → α → Option σ} {ok ok' : σ → α → Prop}
    (himp : ∀ s a, ok s a → ok' s a) {s s' : σ} (h : Reaches step ok s s') :
    Reaches step ok' s s' :=
  Relation.ReflTransGen.mono (fun _ _ ⟨a, hok, hst⟩ => ⟨a, himp _ a hok, hst⟩) _ _ h

/-- What holds now and did not hold at the start goes back to a step that
brought it about. -/
theorem Reaches.since {step : σ → α → Option σ} {ok : σ → α → Prop} {P Q : σ → Prop}
    {s₀ s : σ}
    (hstep : ∀ t a t', Reaches step ok s₀ t → ok t a → step t a = some t' → Q t' → Q t ∨ P t)
    (h : Reaches step ok s₀ s) (h₀ : ¬ Q s₀) (hQ : Q s) :
    ∃ t, Reaches step ok s₀ t ∧ P t ∧ Reaches step ok t s := by
  induction h with
  | refl => exact absurd hQ h₀
  | tail hrun hst ih =>
      obtain ⟨a, hok, ha⟩ := hst
      rcases hstep _ a _ hrun hok ha hQ with hbefore | hP
      · obtain ⟨t, ht, hPt, hrest⟩ := ih hbefore
        exact ⟨t, ht, hPt, hrest.tail ⟨a, hok, ha⟩⟩
      · exact ⟨_, hrun, hP, .single ⟨a, hok, ha⟩⟩

/-- Replay `as` from `s`: `none` as soon as an action is refused by `ok` or
not enabled. -/
def execIf (step : σ → α → Option σ) (ok : σ → α → Prop) [DecidableRel ok] :
    σ → List α → Option σ
  | s, [] => some s
  | s, a :: as => if ok s a then (step s a).bind (execIf step ok · as) else none

theorem execIf_reaches {step : σ → α → Option σ} {ok : σ → α → Prop}
    [DecidableRel ok] : ∀ {as : List α} {s s' : σ},
      execIf step ok s as = some s' → Reaches step ok s s'
  | [], s, s', h => by
      obtain rfl : s = s' := Option.some.inj h
      exact .refl
  | a :: as, s, s', h => by
      rw [execIf] at h
      split at h
      · next hok =>
          obtain ⟨t, ht, htail⟩ := Option.bind_eq_some_iff.mp h
          exact .head ⟨a, hok, ht⟩ (execIf_reaches htail)
      · cases h

/-- A replay that ends in a state with `p` exhibits a run to such a state. -/
theorem exists_reaches_of_execIf (step : σ → α → Option σ) (ok : σ → α → Prop)
    [DecidableRel ok] (s : σ) (as : List α) (p : σ → Bool)
    (h : (execIf step ok s as).any p = true) :
    ∃ s', Reaches step ok s s' ∧ p s' = true := by
  cases hs' : execIf step ok s as with
  | none => rw [hs'] at h; cases h
  | some s' =>
      rw [hs', Option.any_some] at h
      exact ⟨s', execIf_reaches hs', h⟩

/-- The same for a run that goes on after a state with `p`. -/
theorem exists_reaches_twice (step : σ → α → Option σ) (ok : σ → α → Prop) [DecidableRel ok]
    (s : σ) (as : List α) (p : σ → Bool) (bs : List α) (q : σ → Bool)
    (h : (execIf step ok s as).any (fun t => p t && (execIf step ok t bs).any q) = true) :
    ∃ t, Reaches step ok s t ∧ p t = true ∧ ∃ u, Reaches step ok t u ∧ q u = true := by
  obtain ⟨t, hst, ht⟩ := exists_reaches_of_execIf step ok s as _ h
  rw [Bool.and_eq_true] at ht
  exact ⟨t, hst, ht.1, exists_reaches_of_execIf step ok t bs q ht.2⟩

/-! ## Runs with their trails -/

/-- A run with the states it passes and the action taken in each. -/
inductive Runs (step : σ → α → Option σ) : σ → List (σ × α) → σ → Prop
  | nil (s : σ) : Runs step s [] s
  | cons {s t u : σ} {a : α} {trail : List (σ × α)} (hst : step s a = some t)
      (hrest : Runs step t trail u) : Runs step s ((s, a) :: trail) u

/-- `P` holds at the start, at every state passed and at the end. -/
def Throughout (P : σ → Prop) (trail : List (σ × α)) (u : σ) : Prop :=
  (∀ p ∈ trail, P p.1) ∧ P u

theorem Runs.reaches {step : σ → α → Option σ} {ok : σ → α → Prop} {s u : σ}
    {trail : List (σ × α)} (h : Runs step s trail u) (hok : ∀ p ∈ trail, ok p.1 p.2) :
    Reaches step ok s u := by
  induction h with
  | nil s => exact .refl
  | cons hst _ ih =>
      exact .head ⟨_, hok _ (List.mem_cons_self ..), hst⟩
        (ih fun p hp => hok p (List.mem_cons_of_mem _ hp))

/-- Where `ok` says of each step whether it keeps `P`, `P` holds throughout a
run exactly when every step of it is `ok`. -/
theorem Runs.throughout_iff {step : σ → α → Option σ} {ok : σ → α → Prop} {I P : σ → Prop}
    (hI : ∀ s a t, I s → P s → step s a = some t → I t)
    (hP : ∀ s a t, I s → P s → step s a = some t → (P t ↔ ok s a))
    {s u : σ} {trail : List (σ × α)} (h : Runs step s trail u) (hIs : I s) (hPs : P s) :
    Throughout P trail u ↔ ∀ p ∈ trail, ok p.1 p.2 := by
  induction h with
  | nil s => exact ⟨fun _ => nofun, fun _ => ⟨nofun, hPs⟩⟩
  | @cons s t u a trail hst _ ih =>
      have hkeep := hP s a t hIs hPs hst
      have hrest := ih (hI s a t hIs hPs hst)
      rw [List.forall_mem_cons]
      constructor
      · rintro ⟨hall, hu⟩
        rw [List.forall_mem_cons] at hall
        have ht : P t := by
          cases trail with
          | nil => cases ‹Runs step t [] u›; exact hu
          | cons q trail =>
              cases ‹Runs step t (q :: trail) u›
              exact hall.2 _ (List.mem_cons_self ..)
        exact ⟨hkeep.mp ht, (hrest ht).mp ⟨hall.2, hu⟩⟩
      · rintro ⟨hok, hall⟩
        obtain ⟨hpassed, hu⟩ := (hrest (hkeep.mpr hok)).mpr hall
        exact ⟨List.forall_mem_cons.mpr ⟨hPs, hpassed⟩, hu⟩

/-- An invariant of the steps that `ok` allows holds throughout a run of such steps. -/
theorem Runs.throughout {step : σ → α → Option σ} {ok : σ → α → Prop} {I : σ → Prop}
    (hstep : ∀ s a t, I s → ok s a → step s a = some t → I t) {s u : σ}
    {trail : List (σ × α)} (h : Runs step s trail u) (hs : I s) (hok : ∀ p ∈ trail, ok p.1 p.2) :
    Throughout I trail u := by
  induction h with
  | nil s => exact ⟨fun p hp => absurd hp List.not_mem_nil, hs⟩
  | cons hst _ ih =>
      rw [List.forall_mem_cons] at hok
      obtain ⟨hpassed, hu⟩ := ih (hstep _ _ _ hs hok.1 hst) hok.2
      exact ⟨List.forall_mem_cons.mpr ⟨hs, hpassed⟩, hu⟩

theorem Throughout.mono {P Q : σ → Prop} (himp : ∀ s, P s → Q s) {trail : List (σ × α)} {u : σ}
    (h : Throughout P trail u) : Throughout Q trail u :=
  ⟨fun p hp => himp p.1 (h.1 p hp), himp u h.2⟩

/-- Where `ok` says of each step whether its states are related, the states of a
run form a chain exactly when every step of it is `ok`. -/
theorem Runs.isChain_iff {step : σ → α → Option σ} {ok : σ → α → Prop} {R : σ → σ → Prop}
    (hR : ∀ s a t, step s a = some t → (R s t ↔ ok s a)) {s u : σ} {trail : List (σ × α)}
    (h : Runs step s trail u) :
    (trail.map Prod.fst ++ [u]).IsChain R ↔ ∀ p ∈ trail, ok p.1 p.2 := by
  induction h with
  | nil s => exact ⟨fun _ => nofun, fun _ => .singleton s⟩
  | @cons s t u a trail hst hrest ih =>
      rw [List.forall_mem_cons, ← ih, ← hR s a t hst]
      cases hrest with
      | nil => simp
      | cons => exact List.isChain_cons_cons

/-- A replay gives a run whose steps `ok` allows. -/
theorem exists_runs_of_execIf (step : σ → α → Option σ) (ok : σ → α → Prop) [DecidableRel ok] :
    ∀ (as : List α) (s : σ) (p : σ → Bool), (execIf step ok s as).any p = true →
      ∃ trail u, Runs step s trail u ∧ (∀ q ∈ trail, ok q.1 q.2) ∧ p u = true
  | [], s, p, h => ⟨[], s, .nil s, nofun, h⟩
  | a :: as, s, p, h => by
      rw [execIf] at h
      split at h
      · next hok =>
          cases hst : step s a with
          | none => rw [hst] at h; cases h
          | some t =>
              rw [hst] at h
              obtain ⟨trail, u, hrun, hall, hu⟩ := exists_runs_of_execIf step ok as t p h
              exact ⟨(s, a) :: trail, u, .cons hst hrun,
                List.forall_mem_cons.mpr ⟨hok, hall⟩, hu⟩
      · cases h

end Conc
