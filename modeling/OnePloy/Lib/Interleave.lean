import OnePloy.Lib.Reach

/-!
# Interleaved programs over a shared store, with row locks

A `Machine` describes programs that share a store of type `D`. A program is
its local state `L`; each of its statements (`stmt`) reads and writes the
store in one go and moves to the next local state, the label `α` standing for
what the statement receives from outside. Between two statements of one
program any number of statements of others may run, and so may the
environment (`env`).

Locks are held by local states (`held`): they last until the program moves to
a state that does not hold them. A statement names the rows it locks or
writes (`needs`), and it runs only when no other program holds one of them;
otherwise it waits, which here is simply not being enabled. So an open
transaction is a sequence of local states that hold its rows, and what it has
read without locking may be stale by the time it writes.

`Obligations` is the proof rule: an invariant of the store, an assertion for
every local state and a relation between local states of different programs,
kept by the program's own statements, by the statements of the others that
respect its locks, and by the environment. `Obligations.reaches` is the induction
over all interleavings.
-/

namespace Conc

structure Machine (D L α ε R : Type) where
  /-- Local states in which a new program may start. -/
  start : L → Bool
  stmt : D → L → α → Option (D × L)
  needs : D → L → α → List R
  held : L → List R
  env : D → ε → Option D
  envNeeds : D → ε → List R
  held_start : ∀ {l}, start l = true → held l = []
  held_stmt : ∀ {d l a d' l'}, stmt d l a = some (d', l') →
    ∀ r ∈ held l', r ∈ held l ∨ r ∈ needs d l a

/-- The store and the programs started so far, in the order they started. -/
structure World (D L : Type) where
  db : D
  procs : List L

inductive Action (L α ε : Type)
  | spawn (l : L)
  | run (i : Nat) (a : α)
  | env (e : ε)

namespace Machine

variable {D L α ε R : Type} (M : Machine D L α ε R)

/-- One program running without the others, the same label throughout. -/
def Alone (a : α) : D × L → D × L → Prop :=
  Relation.ReflTransGen fun p q => M.stmt p.1 p.2 a = some q

variable [DecidableEq R]

/-- None of `rs` is held by a program other than the `i`-th. -/
def freeFor (procs : List L) (i : Nat) (rs : List R) : Bool :=
  procs.zipIdx.all fun (m, j) => j == i || rs.all fun r => !(M.held m).contains r

/-- None of `rs` is held by any program. -/
def free (procs : List L) (rs : List R) : Bool :=
  procs.all fun m => rs.all fun r => !(M.held m).contains r

def step (w : World D L) : Action L α ε → Option (World D L)
  | .spawn l => if M.start l then some ⟨w.db, w.procs ++ [l]⟩ else none
  | .run i a => do
      let l ← w.procs[i]?
      let (d, l') ← M.stmt w.db l a
      if M.freeFor w.procs i (M.needs w.db l a) then some ⟨d, w.procs.set i l'⟩ else none
  | .env e => do
      let d ← M.env w.db e
      if M.free w.procs (M.envNeeds w.db e) then some ⟨d, w.procs⟩ else none

/-! ## What a step can do -/

variable {M}

theorem freeFor_iff {procs : List L} {i : Nat} {rs : List R} :
    M.freeFor procs i rs = true ↔
      ∀ (j : Nat) m, procs[j]? = some m → j ≠ i → ∀ r ∈ rs, r ∉ M.held m := by
  simp only [freeFor, List.all_eq_true, Bool.or_eq_true, beq_iff_eq,
    Bool.not_eq_true', Prod.forall]
  constructor
  · intro h j m hj hne r hr hm
    rcases h m j (List.mem_zipIdx_iff_getElem?.mpr hj) with heq | hall
    · exact hne heq
    · have := hall r hr
      rw [List.contains_iff_mem.mpr hm] at this
      cases this
  · intro h m j hmem
    by_cases hji : j = i
    · exact Or.inl hji
    · refine Or.inr fun r hr => ?_
      have := h j m (List.mem_zipIdx_iff_getElem?.mp hmem) hji r hr
      simpa using this

theorem free_iff {procs : List L} {rs : List R} :
    M.free procs rs = true ↔
      ∀ (j : Nat) m, procs[j]? = some m → ∀ r ∈ rs, r ∉ M.held m := by
  simp only [free, List.all_eq_true, Bool.not_eq_true']
  constructor
  · intro h j m hj r hr hm
    have := h m (List.mem_of_getElem? hj) r hr
    rw [List.contains_iff_mem.mpr hm] at this
    cases this
  · intro h m hm r hr
    obtain ⟨j, hj⟩ := List.mem_iff_getElem?.mp hm
    simpa using h j m hj r hr

theorem step_spawn {w w' : World D L} {l : L}
    (h : M.step w (.spawn l) = some w') :
    M.start l = true ∧ w' = ⟨w.db, w.procs ++ [l]⟩ := by
  simp only [step] at h
  split at h
  · next hl => exact ⟨hl, (Option.some.inj h).symm⟩
  · cases h

theorem step_run {w w' : World D L} {i : Nat} {a : α}
    (h : M.step w (.run i a) = some w') :
    ∃ l d l', w.procs[i]? = some l ∧ M.stmt w.db l a = some (d, l') ∧
      M.freeFor w.procs i (M.needs w.db l a) = true ∧
      w' = ⟨d, w.procs.set i l'⟩ := by
  simp only [step, Option.bind_eq_bind, Option.bind_eq_some_iff] at h
  obtain ⟨l, hl, ⟨d, l'⟩, hst, h⟩ := h
  split at h
  · next hfree => exact ⟨l, d, l', hl, hst, hfree, (Option.some.inj h).symm⟩
  · cases h

theorem step_env {w w' : World D L} {e : ε}
    (h : M.step w (.env e) = some w') :
    ∃ d, M.env w.db e = some d ∧
      M.free w.procs (M.envNeeds w.db e) = true ∧ w' = ⟨d, w.procs⟩ := by
  simp only [step, Option.bind_eq_bind, Option.bind_eq_some_iff] at h
  obtain ⟨d, hd, h⟩ := h
  split at h
  · next hfree => exact ⟨d, hd, hfree, (Option.some.inj h).symm⟩
  · cases h

/-! ## Locks exclude each other -/

theorem getElem?_concat_some {procs : List L} {l m : L} {i : Nat}
    (h : (procs ++ [l])[i]? = some m) : procs[i]? = some m ∨ m = l := by
  rw [List.getElem?_append] at h
  split at h
  · exact Or.inl h
  · exact Or.inr (List.mem_singleton.mp (List.mem_of_getElem? h))

theorem getElem?_set_some {procs : List L} {l m : L} {i j : Nat}
    (h : (procs.set i l)[j]? = some m) :
    (j = i ∧ m = l) ∨ (j ≠ i ∧ procs[j]? = some m) := by
  by_cases hij : i = j
  · subst hij
    rw [List.getElem?_set_self'] at h
    obtain ⟨-, -, rfl⟩ := Option.map_eq_some_iff.mp h
    exact Or.inl ⟨rfl, rfl⟩
  · rw [List.getElem?_set_ne hij] at h
    exact Or.inr ⟨Ne.symm hij, h⟩

variable (M) in
/-- No row is held by two programs. -/
def Exclusive (procs : List L) : Prop :=
  ∀ (i j : Nat) l m, i ≠ j → procs[i]? = some l → procs[j]? = some m →
    ∀ r ∈ M.held l, r ∉ M.held m

omit [DecidableEq R] in
theorem Exclusive.append {procs : List L} {l : L} (h : M.Exclusive procs)
    (hl : M.held l = []) : M.Exclusive (procs ++ [l]) := by
  intro i j p q hij hi hj r hp hq
  rcases getElem?_concat_some hi with hi | rfl
  · rcases getElem?_concat_some hj with hj | rfl
    · exact h i j p q hij hi hj r hp hq
    · rw [hl] at hq
      cases hq
  · rw [hl] at hp
    cases hp

/-- A statement that respects the locks of the others leaves all locks
exclusive: what it adds was free. -/
theorem Exclusive.set {procs : List L} {i : Nat} {l l' : L} {ns : List R}
    (h : M.Exclusive procs) (hi : procs[i]? = some l)
    (hfree : M.freeFor procs i ns = true)
    (hheld : ∀ r ∈ M.held l', r ∈ M.held l ∨ r ∈ ns) :
    M.Exclusive (procs.set i l') := by
  rw [freeFor_iff] at hfree
  have hnew : ∀ (j : Nat) m, j ≠ i → procs[j]? = some m → ∀ r ∈ M.held l', r ∉ M.held m := by
    intro j m hji hj r hr
    rcases hheld r hr with hr | hr
    · exact h i j l m (Ne.symm hji) hi hj r hr
    · exact hfree j m hj hji r hr
  intro j k p q hjk hj hk r hp hq
  rcases getElem?_set_some hj with ⟨rfl, rfl⟩ | ⟨hji, hj'⟩
  · rcases getElem?_set_some hk with ⟨rfl, -⟩ | ⟨hki, hk'⟩
    · exact hjk rfl
    · exact hnew k q hki hk' r hp hq
  · rcases getElem?_set_some hk with ⟨rfl, rfl⟩ | ⟨-, hk'⟩
    · exact hnew j p hji hj' r hq hp
    · exact h j k p q hjk hj' hk' r hp hq

/-! ## The proof rule -/

/-- An invariant of the store, an assertion for each local state, and a
relation between the local states of two different programs. -/
structure Assertions (D L : Type) where
  store : D → Prop
  at_ : L → D → Prop
  pair : L → L → Prop := fun _ _ => True

variable (M) in
/-- The assertions hold in `w`, and the locks are exclusive. -/
structure Good (S : Assertions D L) (w : World D L) : Prop where
  store : S.store w.db
  at_ : ∀ {i : Nat} {l}, w.procs[i]? = some l → S.at_ l w.db
  pair : ∀ {i j : Nat} {l m}, i ≠ j → w.procs[i]? = some l →
    w.procs[j]? = some m → S.pair l m
  exclusive : M.Exclusive w.procs

/-- A world in which no program has started. -/
def idle (d : D) : World D L := ⟨d, []⟩

omit [DecidableEq R] in
theorem good_idle {S : Assertions D L} {d : D} (h : S.store d) :
    M.Good S (idle d) where
  store := h
  at_ hi := by simp [idle] at hi
  pair _ hi := by simp [idle] at hi
  exclusive _ _ _ _ _ hi := by simp [idle] at hi

variable (M) in
/-- What has to be checked of the assertions: each program's own statements
(`own`), the statements of the others (`other`) and the environment keep
them. `ok` may rule steps out. -/
structure Obligations (ok : World D L → Action L α ε → Prop)
    (S : Assertions D L) : Prop where
  start : ∀ {d l}, S.store d → M.start l = true → S.at_ l d
  startPair : ∀ {d l m}, M.start l = true → S.at_ m d → S.pair l m ∧ S.pair m l
  own : ∀ {w i a l d l'}, M.Good S w → ok w (.run i a) →
    w.procs[i]? = some l → M.stmt w.db l a = some (d, l') →
    S.store d ∧ S.at_ l' d
  other : ∀ {w i a l d l'} {j : Nat} {m}, M.Good S w → ok w (.run i a) →
    w.procs[i]? = some l → M.stmt w.db l a = some (d, l') →
    j ≠ i → w.procs[j]? = some m →
    (∀ r ∈ M.needs w.db l a, r ∉ M.held m) →
    (∀ r ∈ M.held l, r ∉ M.held m) →
    S.at_ m d ∧ S.pair l' m ∧ S.pair m l'
  env : ∀ {w e d}, M.Good S w → ok w (.env e) → M.env w.db e = some d →
    S.store d
  envOther : ∀ {w e d} {j : Nat} {m}, M.Good S w → ok w (.env e) →
    M.env w.db e = some d → w.procs[j]? = some m →
    (∀ r ∈ M.envNeeds w.db e, r ∉ M.held m) → S.at_ m d

theorem Obligations.step {ok : World D L → Action L α ε → Prop}
    {S : Assertions D L} (O : M.Obligations ok S) {w w' : World D L}
    {a : Action L α ε} (hw : M.Good S w) (hok : ok w a)
    (h : M.step w a = some w') : M.Good S w' := by
  cases a with
  | spawn l =>
      obtain ⟨hl, rfl⟩ := step_spawn h
      have hstart := O.start hw.store hl
      refine ⟨hw.store, fun hi => ?_, fun hij hi hj => ?_,
        hw.exclusive.append (M.held_start hl)⟩
      · rcases getElem?_concat_some hi with hi | rfl
        · exact hw.at_ hi
        · exact hstart
      · rcases getElem?_concat_some hi with hi' | rfl
        · rcases getElem?_concat_some hj with hj' | rfl
          · exact hw.pair hij hi' hj'
          · exact (O.startPair hl (hw.at_ hi')).2
        · rcases getElem?_concat_some hj with hj' | rfl
          · exact (O.startPair hl (hw.at_ hj')).1
          · exact (O.startPair hl hstart).1
  | run i a =>
      obtain ⟨l, d, l', hl, hst, hfree, rfl⟩ := step_run h
      obtain ⟨hd, hl'⟩ := O.own hw hok hl hst
      have hother : ∀ {j : Nat} {m}, j ≠ i → w.procs[j]? = some m →
          S.at_ m d ∧ S.pair l' m ∧ S.pair m l' := fun hji hj =>
        O.other hw hok hl hst hji hj (freeFor_iff.mp hfree _ _ hj hji)
          (hw.exclusive _ _ _ _ (Ne.symm hji) hl hj)
      refine ⟨hd, fun hj => ?_, fun hjk hj hk => ?_,
        hw.exclusive.set hl hfree (M.held_stmt hst)⟩
      · rcases getElem?_set_some hj with ⟨rfl, rfl⟩ | ⟨hji, hj⟩
        · exact hl'
        · exact (hother hji hj).1
      · rcases getElem?_set_some hj with ⟨rfl, rfl⟩ | ⟨hji, hj'⟩
        · rcases getElem?_set_some hk with ⟨rfl, -⟩ | ⟨hki, hk'⟩
          · exact absurd rfl hjk
          · exact (hother hki hk').2.1
        · rcases getElem?_set_some hk with ⟨-, rfl⟩ | ⟨-, hk'⟩
          · exact (hother hji hj').2.2
          · exact hw.pair hjk hj' hk'
  | env e =>
      obtain ⟨d, hd, hfree, rfl⟩ := step_env h
      exact ⟨O.env hw hok hd,
        fun hj => O.envOther hw hok hd hj (free_iff.mp hfree _ _ hj),
        hw.pair, hw.exclusive⟩

/-- The induction over all interleavings. -/
theorem Obligations.reaches {ok : World D L → Action L α ε → Prop}
    {S : Assertions D L} (O : M.Obligations ok S) {w w' : World D L}
    (h : Reaches M.step ok w w') (hw : M.Good S w) : M.Good S w' :=
  h.invariant (fun _ _ _ hg hok hst => O.step hg hok hst) hw

end Machine

end Conc
