import OnePloy.Lib.Interleave
import OnePloy.Lib.Table
import OnePloy.Lib.StableSort

/-!
# The `force_disabled` flag of a server

`force_disabled` has two writers that know nothing of each other:
`ServerTransferClaimer::markTransferred` sets it on a server that has moved to
another instance, and `ServerLimitCheckJob` sets and clears it as the team's
number of servers crosses its limit. `Server::forceEnableServer` is the guard
between them: it leaves a server alone whose metadata say `transferred`.

Each of them is a program of a few statements. Eloquent reads a row once and
writes back what became dirty on that copy, so a program decides on what it
read, and the others may write in between. The transaction of
`markTransferred` holds the lock of its server row; the settings row it reads
without one.

`away` is no column: it lists the servers whose transfer was committed here and
that were not claimed here since.
-/

namespace OnePloy

open Conc

/-- `server_metadata.transfer.status`. -/
inductive TransferStatus
  | imported
  | claimed
  | transferred
  deriving DecidableEq, Repr

/-- A server with the flag of its settings row. -/
structure ServerRow where
  teamId : Nat
  createdAt : Nat
  transfer : Option TransferStatus
  forceDisabled : Bool
  deriving DecidableEq, Repr

structure FlagStore where
  servers : Table ServerRow
  /-- `teams.custom_server_limit`. -/
  customServerLimit : Nat → Option Int
  away : List Nat

namespace ServerRow

def isTransferredAway (s : ServerRow) : Bool := s.transfer == some .transferred

def disabled (s : ServerRow) : ServerRow := { s with forceDisabled := true }

def enabled (s : ServerRow) : ServerRow := { s with forceDisabled := false }

end ServerRow

/-- `Team::limits`. -/
def FlagStore.limits (selfHosted : Bool) (d : FlagStore) (team : Nat) : Int :=
  if selfHosted || team == 0 then 999999999999 else (d.customServerLimit team).getD 2

/-! ## The programs -/

/-- Where a program is. A copy is a server as the program read it. -/
inductive FlagCall
  | markTransferred (id : Nat)
  /-- In the transaction: the server is locked, its settings were read. -/
  | marking (id : Nat) (disabled : Bool)
  /-- `clearLocalSshArtifacts`, after the commit. -/
  | clearLocalSshArtifacts (id : Nat)
  | clearing (id : Nat)
  | claim (id : Nat)
  | claiming (id : Nat)
  | serverLimitCheck (team : Nat)
  /-- The job has its team with the team's limit. -/
  | checking (team : Nat) (limit : Int)
  | disable (rest : List (Nat × ServerRow))
  /-- Before the write of `forceDisableServer`. -/
  | disabling (id : Nat) (rest : List (Nat × ServerRow))
  | enable (rest : List (Nat × ServerRow))
  /-- Before the write of `forceEnableServer`. -/
  | enabling (copy : Nat × ServerRow) (rest : List (Nat × ServerRow))
  | done

/-- `sortByDesc('created_at')`. -/
def newestFirst (servers : List (Nat × ServerRow)) : List (Nat × ServerRow) :=
  servers.insertionSort fun p q => q.2.createdAt ≤ p.2.createdAt

/-- What `ServerLimitCheckJob` decides once it has counted the servers. -/
def overLimit (limit : Int) (servers : List (Nat × ServerRow)) : FlagCall :=
  let toDisable : Int := servers.length - limit
  if 0 < toDisable then .disable ((newestFirst servers).take toDisable.toNat)
  else .enable servers

namespace FlagStore

/-- The commit of `markTransferred`. The settings are only written where the
flag was not set when they were read. -/
def commitTransfer (d : FlagStore) (id : Nat) (disabled : Bool) : FlagStore where
  servers := d.servers.modify id fun s =>
    { s with transfer := some .transferred, forceDisabled := !disabled || s.forceDisabled }
  customServerLimit := d.customServerLimit
  away := id :: d.away

/-- The commit of `claim`. -/
def commitClaim (d : FlagStore) (id : Nat) : FlagStore where
  servers := d.servers.modify id ({ · with transfer := some .claimed })
  customServerLimit := d.customServerLimit
  away := d.away.filter (· ≠ id)

def setServer (d : FlagStore) (id : Nat) (f : ServerRow → ServerRow) : FlagStore :=
  { d with servers := d.servers.modify id f }

end FlagStore

/-- One statement of a program. The label says whether it goes through: where
it does not (an exception, a lost database, a killed worker) the program ends
and an open transaction is rolled back. -/
def FlagCall.stmt (selfHosted : Bool) (d : FlagStore) :
    FlagCall → Bool → Option (FlagStore × FlagCall)
  | .done, _ => none
  | _, false => some (d, .done)
  | .markTransferred id, true =>
      -- `id === 0` and `findOrFail` throw
      if id = 0 then some (d, .done)
      else (d.servers.get? id).elim (some (d, .done)) fun s => some (d, .marking id s.forceDisabled)
  | .marking id disabled, true => some (d.commitTransfer id disabled, .clearLocalSshArtifacts id)
  | .clearLocalSshArtifacts id, true =>
      (d.servers.get? id).elim (some (d, .done)) fun s =>
        if s.forceDisabled then some (d, .done) else some (d, .clearing id)
  | .clearing id, true => some (d.setServer id .disabled, .done)
  | .claim id, true =>
      if id = 0 then some (d, .done)
      else (d.servers.get? id).elim (some (d, .done)) fun _ => some (d, .claiming id)
  | .claiming id, true => some (d.commitClaim id, .done)
  | .serverLimitCheck team, true => some (d, .checking team (d.limits selfHosted team))
  | .checking team limit, true =>
      some (d, overLimit limit (d.servers.select fun _ s => s.teamId == team))
  | .disable [], true => some (d, .done)
  | .disable (copy :: rest), true =>
      (d.servers.get? copy.1).elim (some (d, .done)) fun s =>
        -- a flag that is set already is not dirty
        if s.forceDisabled then some (d, .disable rest) else some (d, .disabling copy.1 rest)
  | .disabling id rest, true => some (d.setServer id .disabled, .disable rest)
  | .enable [], true => some (d, .done)
  | .enable (copy :: rest), true =>
      (d.servers.get? copy.1).elim (some (d, .done)) fun s =>
        if s.forceDisabled && !copy.2.isTransferredAway then some (d, .enabling copy rest)
        else some (d, .enable rest)
  | .enabling copy rest, true => some (d.setServer copy.1 .enabled, .enable rest)

def FlagCall.isStart : FlagCall → Bool
  | .markTransferred _ | .claim _ | .serverLimitCheck _ => true
  | _ => false

/-- The server row a transaction holds. -/
def FlagCall.held : FlagCall → List Nat
  | .marking id _ | .claiming id => [id]
  | _ => []

/-- The server row a statement locks or writes. -/
def FlagCall.needs : FlagCall → List Nat
  | .markTransferred id | .marking id _ | .claim id | .claiming id => [id]
  | _ => []

/-- What else happens on the instance. -/
inductive FlagEvent
  | createServer (team createdAt : Nat) (imported : Bool)
  | deleteServer (id : Nat)
  /-- A change of a team's limit, by Stripe or by hand; the job it dispatches
  is started on its own. -/
  | setLimit (team : Nat) (limit : Option Int)

def FlagStore.event (d : FlagStore) : FlagEvent → FlagStore
  | .createServer team createdAt imported =>
      let transfer := if imported then some .imported else none
      { d with servers := d.servers.insert (ServerRow.mk team createdAt transfer false) }
  | .deleteServer id => { d with servers := d.servers.deleteWhere fun i _ => i == id }
  | .setLimit team limit =>
      { d with customServerLimit := fun t => if t = team then limit else d.customServerLimit t }

/-- The statements that write; all others read or compute. -/
def FlagCall.writes : FlagCall → Bool
  | .marking .. | .clearing _ | .claiming _ | .disabling .. | .enabling .. => true
  | _ => false

/-- All that a statement can do. -/
theorem FlagCall.stmt_cases {selfHosted : Bool} {d d' : FlagStore} {l l' : FlagCall} {a : Bool}
    (h : l.stmt selfHosted d a = some (d', l')) :
    (d' = d ∧ (a = true → l.writes = false) ∧ (l' = .done ∨
      (∃ id s, l = .markTransferred id ∧ d.servers.get? id = some s ∧
        l' = .marking id s.forceDisabled) ∨
      (∃ id, l = .clearLocalSshArtifacts id ∧ l' = .clearing id) ∨
      (∃ id s, l = .claim id ∧ d.servers.get? id = some s ∧ l' = .claiming id) ∨
      (∃ team, l = .serverLimitCheck team ∧ l' = .checking team (d.limits selfHosted team)) ∨
      (∃ team limit, l = .checking team limit ∧
        l' = overLimit limit (d.servers.select fun _ s => s.teamId == team)) ∨
      (∃ copy rest, l = .disable (copy :: rest) ∧
        (l' = .disable rest ∨ l' = .disabling copy.1 rest)) ∨
      (∃ copy rest, l = .enable (copy :: rest) ∧
        (l' = .enable rest ∨ copy.2.isTransferredAway = false ∧ l' = .enabling copy rest)))) ∨
    (a = true ∧
      ((∃ id disabled, l = .marking id disabled ∧ d' = d.commitTransfer id disabled ∧
        l' = .clearLocalSshArtifacts id) ∨
      (∃ id, l = .clearing id ∧ d' = d.setServer id .disabled ∧ l' = .done) ∨
      (∃ id, l = .claiming id ∧ d' = d.commitClaim id ∧ l' = .done) ∨
      (∃ id rest, l = .disabling id rest ∧ d' = d.setServer id .disabled ∧ l' = .disable rest) ∨
      (∃ copy rest, l = .enabling copy rest ∧ d' = d.setServer copy.1 .enabled ∧
        l' = .enable rest))) := by
  cases a with
  | false =>
      cases l <;> simp only [stmt, reduceCtorEq] at h <;> cases h <;>
        exact .inl ⟨rfl, fun ha => absurd ha Bool.false_ne_true, .inl rfl⟩
  | true =>
      cases l with
      | done => cases h
      | markTransferred id =>
          simp only [stmt] at h
          split at h
          · cases h; exact .inl ⟨rfl, fun _ => rfl, .inl rfl⟩
          · cases hs : d.servers.get? id with
            | none => rw [hs] at h; cases h; exact .inl ⟨rfl, fun _ => rfl, .inl rfl⟩
            | some s =>
                rw [hs] at h
                cases h
                exact .inl ⟨rfl, fun _ => rfl, .inr (.inl ⟨id, s, rfl, hs, rfl⟩)⟩
      | clearLocalSshArtifacts id =>
          simp only [stmt] at h
          cases hs : d.servers.get? id with
          | none => rw [hs] at h; cases h; exact .inl ⟨rfl, fun _ => rfl, .inl rfl⟩
          | some s =>
              rw [hs, Option.elim_some] at h
              split at h
              · cases h; exact .inl ⟨rfl, fun _ => rfl, .inl rfl⟩
              · cases h; exact .inl ⟨rfl, fun _ => rfl, .inr (.inr (.inl ⟨id, rfl, rfl⟩))⟩
      | claim id =>
          simp only [stmt] at h
          split at h
          · cases h; exact .inl ⟨rfl, fun _ => rfl, .inl rfl⟩
          · cases hs : d.servers.get? id with
            | none => rw [hs] at h; cases h; exact .inl ⟨rfl, fun _ => rfl, .inl rfl⟩
            | some s =>
                rw [hs] at h; cases h
                exact .inl ⟨rfl, fun _ => rfl, .inr (.inr (.inr (.inl ⟨id, s, rfl, hs, rfl⟩)))⟩
      | serverLimitCheck team =>
          cases h
          exact .inl ⟨rfl, fun _ => rfl, .inr (.inr (.inr (.inr (.inl ⟨team, rfl, rfl⟩))))⟩
      | checking team limit =>
          cases h
          exact .inl ⟨rfl, fun _ => rfl,
            .inr (.inr (.inr (.inr (.inr (.inl ⟨team, limit, rfl, rfl⟩)))))⟩
      | disable rest =>
          cases rest with
          | nil => cases h; exact .inl ⟨rfl, fun _ => rfl, .inl rfl⟩
          | cons copy rest =>
              simp only [stmt] at h
              cases hs : d.servers.get? copy.1 with
              | none => rw [hs] at h; cases h; exact .inl ⟨rfl, fun _ => rfl, .inl rfl⟩
              | some s =>
                  rw [hs, Option.elim_some] at h
                  refine .inl ⟨?_, fun _ => rfl,
                    .inr (.inr (.inr (.inr (.inr (.inr (.inl ⟨copy, rest, rfl, ?_⟩))))))⟩
                  · split at h <;> cases h <;> rfl
                  · split at h
                    · cases h; exact .inl rfl
                    · cases h; exact .inr rfl
      | enable rest =>
          cases rest with
          | nil => cases h; exact .inl ⟨rfl, fun _ => rfl, .inl rfl⟩
          | cons copy rest =>
              simp only [stmt] at h
              cases hs : d.servers.get? copy.1 with
              | none => rw [hs] at h; cases h; exact .inl ⟨rfl, fun _ => rfl, .inl rfl⟩
              | some s =>
                  rw [hs, Option.elim_some] at h
                  refine .inl ⟨?_, fun _ => rfl,
                    .inr (.inr (.inr (.inr (.inr (.inr (.inr ⟨copy, rest, rfl, ?_⟩))))))⟩
                  · split at h <;> cases h <;> rfl
                  · split at h
                    · next hc =>
                        cases h
                        rw [Bool.and_eq_true, Bool.not_eq_true'] at hc
                        exact .inr ⟨hc.2, rfl⟩
                    · cases h; exact .inl rfl
      | marking id disabled => cases h; exact .inr ⟨rfl, .inl ⟨id, disabled, rfl, rfl, rfl⟩⟩
      | clearing id => cases h; exact .inr ⟨rfl, .inr (.inl ⟨id, rfl, rfl, rfl⟩)⟩
      | claiming id => cases h; exact .inr ⟨rfl, .inr (.inr (.inl ⟨id, rfl, rfl, rfl⟩))⟩
      | disabling id rest =>
          cases h; exact .inr ⟨rfl, .inr (.inr (.inr (.inl ⟨id, rest, rfl, rfl, rfl⟩)))⟩
      | enabling copy rest =>
          cases h; exact .inr ⟨rfl, .inr (.inr (.inr (.inr ⟨copy, rest, rfl, rfl, rfl⟩)))⟩

@[simp] theorem held_overLimit (limit : Int) (servers : List (Nat × ServerRow)) :
    (overLimit limit servers).held = [] := by
  unfold overLimit
  dsimp only
  split <;> rfl

/-- What a program holds after a statement it held before or asked for. -/
theorem FlagCall.held_stmt {selfHosted : Bool} {d d' : FlagStore} {l l' : FlagCall} {a : Bool}
    (h : l.stmt selfHosted d a = some (d', l')) : ∀ r ∈ l'.held, r ∈ l.held ∨ r ∈ l.needs := by
  intro r hr
  rcases FlagCall.stmt_cases h with ⟨-, -, hread⟩ | ⟨-, hwrite⟩
  · rcases hread with rfl | ⟨id, s, rfl, -, rfl⟩ | ⟨id, rfl, rfl⟩ | ⟨id, s, rfl, -, rfl⟩ |
      ⟨team, rfl, rfl⟩ | ⟨team, limit, rfl, rfl⟩ | ⟨copy, rest, rfl, rfl | rfl⟩ |
      ⟨copy, rest, rfl, rfl | ⟨-, rfl⟩⟩
    · cases hr
    · exact .inr hr
    · cases hr
    · exact .inr hr
    · cases hr
    · rw [held_overLimit] at hr; cases hr
    all_goals cases hr
  · rcases hwrite with ⟨id, _, -, -, rfl⟩ | ⟨id, -, -, rfl⟩ | ⟨id, -, -, rfl⟩ |
      ⟨id, rest, -, -, rfl⟩ | ⟨copy, rest, -, -, rfl⟩ <;> cases hr

/-- The instance: its programs interleave, one statement at a time. -/
def flagMachine (selfHosted : Bool) : Machine FlagStore FlagCall Bool FlagEvent Nat where
  start := FlagCall.isStart
  stmt d l a := l.stmt selfHosted d a
  needs _ l _ := l.needs
  held := FlagCall.held
  env d e := some (d.event e)
  envNeeds _ e :=
    match e with
    | .deleteServer id => [id]
    | _ => []
  held_start {l} h := by cases l <;> first | rfl | cases h
  held_stmt := FlagCall.held_stmt

/-! ## The law, and the steps that may break it -/

variable {selfHosted : Bool}

/-- A server that was transferred and not claimed since is disabled. -/
def FlagStore.StaysDisabled (d : FlagStore) : Prop :=
  ∀ id s, d.servers.get? id = some s → id ∈ d.away → s.forceDisabled = true

/-- No decision taken before a transfer is written after it: a limit check
enables a server only while the server, as it stands, is not transferred away,
and a transfer that has read the flag as set commits with the flag still set. -/
def unraced (w : World FlagStore FlagCall) : Action FlagCall Bool FlagEvent → Bool
  | .run i true =>
      match w.procs[i]? with
      | some (.enabling copy _) =>
          (w.db.servers.get? copy.1).all fun s => !s.isTransferredAway
      | some (.marking id true) => (w.db.servers.get? id).all fun s => s.forceDisabled
      | _ => true
  | _ => true

/-- The metadata say `transferred` of exactly the servers that are away. -/
structure FlagStore.WellMarked (d : FlagStore) : Prop where
  transferred_iff : ∀ id s, d.servers.get? id = some s → (s.isTransferredAway = true ↔ id ∈ d.away)
  known : ∀ id ∈ d.away, id < d.servers.nextId

namespace FlagStore

variable {d : FlagStore}

/-! ## What each write does to the metadata -/

theorem get?_commitTransfer (id : Nat) (disabled : Bool) (i : Nat) :
    (d.commitTransfer id disabled).servers.get? i =
      if i = id then (d.servers.get? i).map fun s =>
        { s with transfer := some .transferred, forceDisabled := !disabled || s.forceDisabled }
      else d.servers.get? i :=
  Table.get?_modify ..

theorem get?_commitClaim (id i : Nat) :
    (d.commitClaim id).servers.get? i =
      if i = id then (d.servers.get? i).map ({ · with transfer := some .claimed })
      else d.servers.get? i :=
  Table.get?_modify ..

theorem get?_setServer (id : Nat) (f : ServerRow → ServerRow) (i : Nat) :
    (d.setServer id f).servers.get? i =
      if i = id then (d.servers.get? i).map f else d.servers.get? i :=
  Table.get?_modify ..

theorem WellMarked.commitTransfer (h : d.WellMarked) {id : Nat} (hid : id < d.servers.nextId)
    (disabled : Bool) : (d.commitTransfer id disabled).WellMarked where
  transferred_iff i s hs := by
    rw [get?_commitTransfer] at hs
    rw [FlagStore.commitTransfer, List.mem_cons]
    split at hs
    · next hi =>
        obtain ⟨t, -, rfl⟩ := Option.map_eq_some_iff.mp hs
        exact ⟨fun _ => .inl hi, fun _ => rfl⟩
    · next hi => rw [h.transferred_iff i s hs, or_iff_right hi]
  known i hi := by
    rcases List.mem_cons.mp hi with rfl | hi
    · exact hid
    · exact h.known i hi

theorem WellMarked.commitClaim (h : d.WellMarked) (id : Nat) : (d.commitClaim id).WellMarked where
  transferred_iff i s hs := by
    rw [get?_commitClaim] at hs
    have hmem : i ∈ (d.commitClaim id).away ↔ i ∈ d.away ∧ i ≠ id := by
      simp [FlagStore.commitClaim]
    rw [hmem]
    split at hs
    · next hi =>
        obtain ⟨t, -, rfl⟩ := Option.map_eq_some_iff.mp hs
        exact ⟨fun hfalse => (by cases hfalse), fun haway => absurd hi haway.2⟩
    · next hi => rw [h.transferred_iff i s hs, and_iff_left hi]
  known i hi := h.known i (List.mem_filter.mp hi).1

theorem WellMarked.setServer (h : d.WellMarked) (id : Nat) {f : ServerRow → ServerRow}
    (hf : ∀ s, (f s).transfer = s.transfer) : (d.setServer id f).WellMarked where
  transferred_iff i s hs := by
    rw [get?_setServer] at hs
    split at hs
    · obtain ⟨t, ht, rfl⟩ := Option.map_eq_some_iff.mp hs
      rw [ServerRow.isTransferredAway, hf]
      exact h.transferred_iff i t ht
    · exact h.transferred_iff i s hs
  known := h.known

theorem WellMarked.event (h : d.WellMarked) (e : FlagEvent) : (d.event e).WellMarked := by
  cases e with
  | createServer team createdAt imported =>
      refine ⟨fun i s hs => ?_, fun i hi => Nat.lt_succ_of_lt (h.known i hi)⟩
      rw [FlagStore.event, Table.get?_insert] at hs
      split at hs
      · next hi =>
          subst hi
          cases hs
          -- a new key was never handed out, so it is not among those away
          refine ⟨fun hfalse => ?_, fun haway => absurd (h.known _ haway) (Nat.lt_irrefl _)⟩
          cases imported <;> cases hfalse
      · exact h.transferred_iff i s hs
  | deleteServer id =>
      refine ⟨fun i s hs => ?_, h.known⟩
      exact h.transferred_iff i s (Table.get?_deleteWhere.mp hs).1
  | setLimit team limit => exact ⟨h.transferred_iff, h.known⟩

/-! ## What each write does to the law -/

theorem StaysDisabled.commitTransfer_iff (h : d.StaysDisabled) (id : Nat) (disabled : Bool) :
    (d.commitTransfer id disabled).StaysDisabled ↔
      (disabled = true → ∀ s, d.servers.get? id = some s → s.forceDisabled = true) := by
  constructor
  · intro hafter hread s hs
    have := hafter id _ (by rw [get?_commitTransfer, if_pos rfl, hs]; rfl) (List.mem_cons_self ..)
    rwa [hread] at this
  · intro hflag i s hs hi
    rw [get?_commitTransfer] at hs
    split at hs
    · next hid =>
        subst hid
        obtain ⟨t, ht, rfl⟩ := Option.map_eq_some_iff.mp hs
        cases disabled with
        | false => rfl
        | true => exact hflag rfl t ht
    · next hid => exact h i s hs ((List.mem_cons.mp hi).resolve_left hid)

theorem StaysDisabled.commitClaim (h : d.StaysDisabled) (id : Nat) :
    (d.commitClaim id).StaysDisabled := by
  intro i s hs hi
  obtain ⟨hi, hne⟩ := List.mem_filter.mp hi
  rw [get?_commitClaim, if_neg (by simpa using hne)] at hs
  exact h i s hs hi

theorem StaysDisabled.disable (h : d.StaysDisabled) (id : Nat) :
    (d.setServer id .disabled).StaysDisabled := by
  intro i s hs hi
  rw [get?_setServer] at hs
  split at hs
  · obtain ⟨t, -, rfl⟩ := Option.map_eq_some_iff.mp hs
    rfl
  · exact h i s hs hi

theorem StaysDisabled.enable_iff (h : d.StaysDisabled) (hmarked : d.WellMarked) (id : Nat) :
    (d.setServer id .enabled).StaysDisabled ↔
      ∀ s, d.servers.get? id = some s → s.isTransferredAway = false := by
  constructor
  · intro hafter s hs
    by_contra haway
    have hin := (hmarked.transferred_iff id s hs).mp (by simpa using haway)
    have := hafter id _ (by rw [get?_setServer, if_pos rfl, hs]; rfl) hin
    cases this
  · intro hhere i s hs hi
    rw [get?_setServer] at hs
    split at hs
    · next hid =>
        subst hid
        obtain ⟨t, ht, rfl⟩ := Option.map_eq_some_iff.mp hs
        have hin := (hmarked.transferred_iff i t ht).mpr hi
        rw [hhere t ht] at hin
        cases hin
    · exact h i s hs hi

theorem StaysDisabled.event (h : d.StaysDisabled) (hmarked : d.WellMarked) (e : FlagEvent) :
    (d.event e).StaysDisabled := by
  intro i s hs hi
  cases e with
  | createServer team createdAt imported =>
      rw [FlagStore.event, Table.get?_insert] at hs
      split at hs
      · next hid =>
          subst hid
          exact absurd (hmarked.known _ hi) (Nat.lt_irrefl _)
      · exact h i s hs hi
  | deleteServer id => exact h i s (Table.get?_deleteWhere.mp hs).1 hi
  | setLimit team limit => exact h i s hs hi

@[simp] theorem event_nextId_le (e : FlagEvent) :
    d.servers.nextId ≤ (d.event e).servers.nextId := by
  cases e <;> simp [FlagStore.event]

end FlagStore

/-! ## Runs -/

/-- The metadata are well marked, and a transaction holds a server the
instance knows. -/
structure FlagInv (w : World FlagStore FlagCall) : Prop where
  marked : w.db.WellMarked
  held_lt : ∀ l ∈ w.procs, ∀ id ∈ l.held, id < w.db.servers.nextId

theorem FlagCall.stmt_marked {d d' : FlagStore} {l l' : FlagCall} {a : Bool}
    (h : l.stmt selfHosted d a = some (d', l')) (hd : d.WellMarked)
    (hheld : ∀ id ∈ l.held, id < d.servers.nextId) :
    d'.WellMarked ∧ d'.servers.nextId = d.servers.nextId ∧
      ∀ id ∈ l'.held, id < d.servers.nextId := by
  rcases FlagCall.stmt_cases h with ⟨rfl, -, hread⟩ | ⟨-, hwrite⟩
  · refine ⟨hd, rfl, fun r hr => ?_⟩
    rcases hread with rfl | ⟨id, s, rfl, hs, rfl⟩ | ⟨id, rfl, rfl⟩ | ⟨id, s, rfl, hs, rfl⟩ |
      ⟨team, rfl, rfl⟩ | ⟨team, limit, rfl, rfl⟩ | ⟨copy, rest, rfl, rfl | rfl⟩ |
      ⟨copy, rest, rfl, rfl | ⟨-, rfl⟩⟩
    · cases hr
    · rw [List.mem_singleton.mp hr]; exact Table.get?_lt hs
    · cases hr
    · rw [List.mem_singleton.mp hr]; exact Table.get?_lt hs
    · cases hr
    · rw [held_overLimit] at hr; cases hr
    all_goals cases hr
  · rcases hwrite with ⟨id, disabled, rfl, rfl, rfl⟩ | ⟨id, rfl, rfl, rfl⟩ | ⟨id, rfl, rfl, rfl⟩ |
      ⟨id, rest, rfl, rfl, rfl⟩ | ⟨copy, rest, rfl, rfl, rfl⟩
    · exact ⟨hd.commitTransfer (hheld id (List.mem_singleton_self _)) disabled,
        Table.modify_nextId .., nofun⟩
    · exact ⟨hd.setServer id fun _ => rfl, Table.modify_nextId .., nofun⟩
    · exact ⟨hd.commitClaim id, Table.modify_nextId .., nofun⟩
    · exact ⟨hd.setServer id fun _ => rfl, Table.modify_nextId .., nofun⟩
    · exact ⟨hd.setServer copy.1 fun _ => rfl, Table.modify_nextId .., nofun⟩

theorem FlagInv.step {w w' : World FlagStore FlagCall} {a : Action FlagCall Bool FlagEvent}
    (hw : FlagInv w) (hstep : (flagMachine selfHosted).step w a = some w') : FlagInv w' := by
  cases a with
  | spawn l =>
      obtain ⟨hl, rfl⟩ := Machine.step_spawn hstep
      refine ⟨hw.marked, fun m hm id hid => ?_⟩
      rcases List.mem_append.mp hm with hm | hm
      · exact hw.held_lt m hm id hid
      · rw [List.mem_singleton.mp hm] at hid
        have hnone : l.held = [] := (flagMachine selfHosted).held_start hl
        rw [hnone] at hid
        cases hid
  | env e =>
      obtain ⟨d, hd, -, rfl⟩ := Machine.step_env hstep
      cases hd
      exact ⟨hw.marked.event e, fun m hm id hid =>
        Nat.lt_of_lt_of_le (hw.held_lt m hm id hid) (FlagStore.event_nextId_le e)⟩
  | run i a =>
      obtain ⟨l, d, l', hi, hst, -, rfl⟩ := Machine.step_run hstep
      obtain ⟨hmarked, hnext, hheld⟩ := FlagCall.stmt_marked hst hw.marked
        (hw.held_lt l (List.mem_of_getElem? hi))
      refine ⟨hmarked, fun m hm id hid => ?_⟩
      rw [hnext]
      rcases List.mem_or_eq_of_mem_set hm with hm | rfl
      · exact hw.held_lt m hm id hid
      · exact hheld id hid

/-- A step keeps the law exactly when it is not a raced write. -/
theorem staysDisabled_step {w w' : World FlagStore FlagCall}
    {a : Action FlagCall Bool FlagEvent} (hw : FlagInv w) (hlaw : w.db.StaysDisabled)
    (hstep : (flagMachine selfHosted).step w a = some w') :
    w'.db.StaysDisabled ↔ unraced w a = true := by
  cases a with
  | spawn l =>
      obtain ⟨-, rfl⟩ := Machine.step_spawn hstep
      exact ⟨fun _ => rfl, fun _ => hlaw⟩
  | env e =>
      obtain ⟨d, hd, -, rfl⟩ := Machine.step_env hstep
      cases hd
      exact ⟨fun _ => rfl, fun _ => hlaw.event hw.marked e⟩
  | run i a =>
      obtain ⟨l, d, l', hi, hst, -, rfl⟩ := Machine.step_run hstep
      rcases FlagCall.stmt_cases hst with ⟨rfl, hreads, -⟩ | ⟨rfl, hwrite⟩
      · refine iff_of_true hlaw ?_
        cases a with
        | false => rfl
        | true =>
            have hl := hreads rfl
            rw [unraced, hi]
            cases l with
            | marking id disabled => cases hl
            | enabling copy rest => cases hl
            | _ => rfl
      · rw [unraced, hi]
        rcases hwrite with ⟨id, disabled, rfl, rfl, -⟩ | ⟨id, rfl, rfl, -⟩ | ⟨id, rfl, rfl, -⟩ |
          ⟨id, rest, rfl, rfl, -⟩ | ⟨copy, rest, rfl, rfl, -⟩
        · dsimp only
          rw [hlaw.commitTransfer_iff]
          cases disabled with
          | false => exact iff_of_true nofun rfl
          | true => simp [Option.all_eq_true]
        · exact iff_of_true (hlaw.disable id) rfl
        · exact iff_of_true (hlaw.commitClaim id) rfl
        · exact iff_of_true (hlaw.disable id) rfl
        · dsimp only
          rw [hlaw.enable_iff hw.marked]
          simp [Option.all_eq_true]

/-- No server of the instance has been transferred yet. -/
structure FlagStore.NoneAway (d : FlagStore) : Prop where
  away : d.away = []
  here : ∀ id s, d.servers.get? id = some s → s.isTransferredAway = false

variable {d : FlagStore}

theorem FlagStore.NoneAway.inv (h : d.NoneAway) : FlagInv (Machine.idle d) where
  marked :=
    { transferred_iff := fun id s hs => by simp [Machine.idle, h.away, h.here id s hs]
      known := fun id hid => by simp [Machine.idle, h.away] at hid }
  held_lt _ hm := by cases hm

theorem FlagStore.NoneAway.staysDisabled (h : d.NoneAway) : d.StaysDisabled := by
  intro id s _ hid
  rw [h.away] at hid
  cases hid

/-- A transferred server stays disabled throughout a run exactly when no write
of the run is raced. -/
theorem transferred_stays_disabled_iff {trail : List (World FlagStore FlagCall × _)}
    {u : World FlagStore FlagCall} (h : d.NoneAway)
    (hrun : Runs (flagMachine selfHosted).step (Machine.idle d) trail u) :
    Throughout (fun w => w.db.StaysDisabled) trail u ↔ ∀ p ∈ trail, unraced p.1 p.2 = true :=
  hrun.throughout_iff (fun _ _ _ hw _ hst => FlagInv.step hw hst)
    (fun _ _ _ hw hlaw hst => staysDisabled_step hw hlaw hst) h.inv h.staysDisabled

/-- One server of one team, which may have one server. -/
def oneServer : FlagStore where
  servers := Table.empty.insert (ServerRow.mk 1 1790800000 none false)
  customServerLimit team := if team = 1 then some 1 else none
  away := []

theorem oneServer_noneAway : oneServer.NoneAway where
  away := rfl
  here id s hs := by
    rw [oneServer, Table.get?_insert, Table.get?_empty] at hs
    split at hs
    · cases hs; rfl
    · cases hs

def isAwayDisabled (w : World FlagStore FlagCall) : Bool :=
  (w.db.servers.get? 1).any fun s => w.db.away.contains 1 && s.forceDisabled

def isAwayEnabled (w : World FlagStore FlagCall) : Bool :=
  (w.db.servers.get? 1).any fun s => w.db.away.contains 1 && !s.forceDisabled

/-- The limit drops to 0, a check disables the server, the limit is raised,
the server is transferred, and a check runs again. -/
def transferredOverLimit : List (Action FlagCall Bool FlagEvent) :=
  [.env (.setLimit 1 (some 0)),
    .spawn (.serverLimitCheck 1), .run 0 true, .run 0 true, .run 0 true, .run 0 true, .run 0 true,
    .env (.setLimit 1 (some 1)),
    .spawn (.markTransferred 1), .run 1 true, .run 1 true, .run 1 true,
    .spawn (.serverLimitCheck 1), .run 2 true, .run 2 true, .run 2 true, .run 2 true]

theorem transferred_over_limit_stays_disabled :
    ∃ trail u, Runs (flagMachine false).step (Machine.idle oneServer) trail u ∧
      isAwayDisabled u = true ∧ Throughout (fun w => w.db.StaysDisabled) trail u := by
  obtain ⟨trail, u, hrun, hok, hu⟩ := exists_runs_of_execIf (flagMachine false).step
    (fun w a => unraced w a = true) transferredOverLimit (Machine.idle oneServer)
    isAwayDisabled (by decide +kernel)
  exact ⟨trail, u, hrun, hu, (transferred_stays_disabled_iff oneServer_noneAway hrun).mpr hok⟩

/-- The second check has read the server before the transfer, and writes after it. -/
def enabledAfterTransfer : List (Action FlagCall Bool FlagEvent) :=
  [.env (.setLimit 1 (some 0)),
    .spawn (.serverLimitCheck 1), .run 0 true, .run 0 true, .run 0 true, .run 0 true, .run 0 true,
    .env (.setLimit 1 (some 1)),
    .spawn (.serverLimitCheck 1), .run 1 true, .run 1 true, .run 1 true,
    .spawn (.markTransferred 1), .run 2 true, .run 2 true, .run 2 true,
    .run 1 true]

theorem transferred_server_enabled_again :
    ¬ ∀ (selfHosted : Bool) (d : FlagStore) (w : World FlagStore FlagCall), d.NoneAway →
      Reaches (flagMachine selfHosted).step Any (Machine.idle d) w → w.db.StaysDisabled := by
  intro hlaw
  obtain ⟨w, hrun, hw⟩ := exists_reaches_of_execIf (flagMachine false).step Any
    (Machine.idle oneServer) enabledAfterTransfer isAwayEnabled (by decide +kernel)
  obtain ⟨s, hs, hflag⟩ := (Option.any_eq_true ..).mp hw
  rw [Bool.and_eq_true, Bool.not_eq_true', List.contains_iff_mem] at hflag
  have := hlaw false oneServer w oneServer_noneAway hrun 1 s hs hflag.1
  rw [hflag.2] at this
  cases this

/-! ## Checks and transfers one after the other -/

/-- A limit check that has read the servers and is enabling them. -/
def FlagCall.enables : FlagCall → Bool
  | .enable _ | .enabling .. => true
  | _ => false

def FlagCall.inTransfer : FlagCall → Bool
  | .marking .. => true
  | _ => false

/-- No transfer begins while a limit check enables servers, and no limit check
reads the servers while the transaction of a transfer is open. -/
def serial (w : World FlagStore FlagCall) : Action FlagCall Bool FlagEvent → Prop
  | .run i true =>
      match w.procs[i]? with
      | some (.markTransferred _) => ∀ m ∈ w.procs, m.enables = false
      | some (.checking ..) => ∀ m ∈ w.procs, m.inTransfer = false
      | _ => True
  | _ => True

/-- What a limit check took for a server still here is still here. -/
def FlagStore.Current (d : FlagStore) (copies : List (Nat × ServerRow)) : Prop :=
  ∀ c ∈ copies, c.2.isTransferredAway = false →
    ∀ s, d.servers.get? c.1 = some s → s.isTransferredAway = false

def FlagCall.Fresh : FlagCall → FlagStore → Prop
  | .marking id disabled, d => id < d.servers.nextId ∧
      (disabled = true → ∀ s, d.servers.get? id = some s → s.forceDisabled = true)
  | .enable rest, d => d.Current rest
  | .enabling copy rest, d => copy.2.isTransferredAway = false ∧ d.Current (copy :: rest)
  | _, _ => True

def serialAssertions : Machine.Assertions FlagStore FlagCall where
  store _ := True
  at_ := FlagCall.Fresh
  pair l m := (l.inTransfer = true → m.enables = false) ∧ (m.inTransfer = true → l.enables = false)

theorem FlagStore.Current.tail {copy : Nat × ServerRow} {rest : List (Nat × ServerRow)}
    (h : d.Current (copy :: rest)) : d.Current rest :=
  fun c hc => h c (List.mem_cons_of_mem _ hc)

theorem current_select (p : Nat → ServerRow → Bool) : d.Current (d.servers.select p) := by
  intro c hc hcopy s hs
  rw [(Table.mem_select.mp hc).1] at hs
  obtain rfl := Option.some.inj hs
  exact hcopy

/-- A transfer that is open needs its flag to stand, a limit check that enables
needs the servers it took to be still here. -/
theorem FlagCall.Fresh.mono {m : FlagCall} {d' : FlagStore} (h : m.Fresh d)
    (hnext : d.servers.nextId ≤ d'.servers.nextId)
    (hflag : m.inTransfer = true → ∀ id s', id < d.servers.nextId →
      d'.servers.get? id = some s' →
      ∃ s, d.servers.get? id = some s ∧ (s.forceDisabled = true → s'.forceDisabled = true))
    (haway : m.enables = true → ∀ id s', d'.servers.get? id = some s' →
      s'.isTransferredAway = true →
      ∃ s, d.servers.get? id = some s ∧ s.isTransferredAway = true) : m.Fresh d' := by
  have hcurrent : ∀ {copies}, m.enables = true → d.Current copies → d'.Current copies := by
    intro copies hm hcopies c hc hcopy s hs
    by_contra htrue
    obtain ⟨t, ht, htaway⟩ := haway hm c.1 s hs (by simpa using htrue)
    rw [hcopies c hc hcopy t ht] at htaway
    cases htaway
  cases m with
  | marking id disabled =>
      refine ⟨Nat.lt_of_lt_of_le h.1 hnext, fun hread s' hs' => ?_⟩
      obtain ⟨s, hs, himp⟩ := hflag rfl id s' h.1 hs'
      exact himp (h.2 hread s hs)
  | enable rest => exact hcurrent rfl h
  | enabling copy rest => exact ⟨h.1, hcurrent rfl h.2⟩
  | _ => trivial

theorem FlagCall.Fresh.setServer {m : FlagCall} (h : m.Fresh d) (id : Nat)
    {f : ServerRow → ServerRow} (htransfer : ∀ s, (f s).transfer = s.transfer)
    (hflag : m.inTransfer = true → ∀ s, s.forceDisabled = true → (f s).forceDisabled = true) :
    m.Fresh (d.setServer id f) := by
  refine h.mono (Nat.le_of_eq (Table.modify_nextId ..).symm) (fun hm i s' _ hs' => ?_)
    (fun _ i s' hs' haway => ?_)
  · rw [FlagStore.get?_setServer] at hs'
    split at hs'
    · obtain ⟨s, hs, rfl⟩ := Option.map_eq_some_iff.mp hs'
      exact ⟨s, hs, hflag hm s⟩
    · exact ⟨s', hs', fun hkept => hkept⟩
  · rw [FlagStore.get?_setServer] at hs'
    split at hs'
    · obtain ⟨s, hs, rfl⟩ := Option.map_eq_some_iff.mp hs'
      rw [ServerRow.isTransferredAway, htransfer] at haway
      exact ⟨s, hs, haway⟩
    · exact ⟨s', hs', haway⟩

theorem FlagCall.Fresh.commitClaim {m : FlagCall} (h : m.Fresh d) (id : Nat) :
    m.Fresh (d.commitClaim id) := by
  refine h.mono (Nat.le_of_eq (Table.modify_nextId ..).symm) (fun _ i s' _ hs' => ?_)
    (fun _ i s' hs' haway => ?_)
  all_goals
    rw [FlagStore.get?_commitClaim] at hs'
    split at hs'
  · obtain ⟨s, hs, rfl⟩ := Option.map_eq_some_iff.mp hs'
    exact ⟨s, hs, fun hkept => hkept⟩
  · exact ⟨s', hs', fun hkept => hkept⟩
  · obtain ⟨s, -, rfl⟩ := Option.map_eq_some_iff.mp hs'
    cases haway
  · exact ⟨s', hs', haway⟩

/-- The commit of a transfer only matters to limit checks that enable. -/
theorem FlagCall.Fresh.commitTransfer {m : FlagCall} (h : m.Fresh d) (id : Nat)
    (disabled : Bool) (hm : m.enables = false) : m.Fresh (d.commitTransfer id disabled) := by
  refine h.mono (Nat.le_of_eq (Table.modify_nextId ..).symm) (fun _ i s' _ hs' => ?_)
    (fun hfalse => absurd hfalse (by simp [hm]))
  rw [FlagStore.get?_commitTransfer] at hs'
  split at hs'
  · obtain ⟨s, hs, rfl⟩ := Option.map_eq_some_iff.mp hs'
    exact ⟨s, hs, fun hflag => by simp [hflag]⟩
  · exact ⟨s', hs', fun hkept => hkept⟩

theorem FlagCall.Fresh.event {m : FlagCall} (h : m.Fresh d) (e : FlagEvent) :
    m.Fresh (d.event e) := by
  refine h.mono (FlagStore.event_nextId_le e) (fun _ i s' hi hs' => ?_)
    (fun _ i s' hs' haway => ?_)
  · cases e with
    | createServer team createdAt imported =>
        rw [FlagStore.event, Table.get?_insert, if_neg (Nat.ne_of_lt hi)] at hs'
        exact ⟨s', hs', fun hkept => hkept⟩
    | deleteServer j => exact ⟨s', (Table.get?_deleteWhere.mp hs').1, id⟩
    | setLimit team limit => exact ⟨s', hs', fun hkept => hkept⟩
  · cases e with
    | createServer team createdAt imported =>
        rw [FlagStore.event, Table.get?_insert] at hs'
        split at hs'
        · cases hs'
          cases imported <;> cases haway
        · exact ⟨s', hs', haway⟩
    | deleteServer j => exact ⟨s', (Table.get?_deleteWhere.mp hs').1, haway⟩
    | setLimit team limit => exact ⟨s', hs', haway⟩

theorem FlagCall.stmt_fresh {d' : FlagStore} {l l' : FlagCall} {a : Bool}
    (h : l.stmt selfHosted d a = some (d', l')) (hl : l.Fresh d) : l'.Fresh d' := by
  rcases FlagCall.stmt_cases h with ⟨rfl, -, hread⟩ | ⟨-, hwrite⟩
  · rcases hread with rfl | ⟨id, s, rfl, hs, rfl⟩ | ⟨id, rfl, rfl⟩ | ⟨id, s, rfl, hs, rfl⟩ |
      ⟨team, rfl, rfl⟩ | ⟨team, limit, rfl, rfl⟩ | ⟨copy, rest, rfl, rfl | rfl⟩ |
      ⟨copy, rest, rfl, rfl | ⟨hcopy, rfl⟩⟩
    · trivial
    · refine ⟨Table.get?_lt hs, fun hread t ht => ?_⟩
      rw [hs] at ht
      obtain rfl := Option.some.inj ht
      exact hread
    · trivial
    · trivial
    · trivial
    · unfold overLimit
      dsimp only
      split
      · trivial
      · exact current_select _
    · trivial
    · trivial
    · exact FlagStore.Current.tail hl
    · exact ⟨hcopy, hl⟩
  · rcases hwrite with ⟨id, disabled, rfl, rfl, rfl⟩ | ⟨id, rfl, rfl, rfl⟩ | ⟨id, rfl, rfl, rfl⟩ |
      ⟨id, rest, rfl, rfl, rfl⟩ | ⟨copy, rest, rfl, rfl, rfl⟩
    all_goals try trivial
    have hrest : (FlagCall.enable rest).Fresh d := FlagStore.Current.tail hl.2
    exact hrest.setServer copy.1 (fun _ => rfl) nofun

/-- A program enters a transfer, or begins to enable servers, with the
statements that `serial` watches. -/
theorem FlagCall.stmt_enters {d' : FlagStore} {l l' : FlagCall} {a : Bool}
    (h : l.stmt selfHosted d a = some (d', l')) :
    (l'.inTransfer = true → ∃ id, l = .markTransferred id ∧ a = true) ∧
      (l'.enables = true →
        l.enables = true ∨ ∃ team limit, l = .checking team limit ∧ a = true) := by
  cases a with
  | false =>
      obtain rfl : l' = .done := by cases l <;> cases h <;> rfl
      exact ⟨nofun, nofun⟩
  | true =>
      rcases FlagCall.stmt_cases h with ⟨rfl, -, hread⟩ | ⟨-, hwrite⟩
      · rcases hread with rfl | ⟨id, s, rfl, -, rfl⟩ | ⟨id, rfl, rfl⟩ | ⟨id, s, rfl, -, rfl⟩ |
          ⟨team, rfl, rfl⟩ | ⟨team, limit, rfl, rfl⟩ | ⟨copy, rest, rfl, rfl | rfl⟩ |
          ⟨copy, rest, rfl, rfl | ⟨-, rfl⟩⟩
        case inr.inl => exact ⟨fun _ => ⟨id, rfl, rfl⟩, nofun⟩
        case inr.inr.inr.inr.inr.inl =>
          refine ⟨fun htransfer => ?_, fun _ => .inr ⟨team, limit, rfl, rfl⟩⟩
          unfold overLimit at htransfer
          dsimp only at htransfer
          split at htransfer <;> cases htransfer
        all_goals exact ⟨nofun, by first | exact fun _ => .inl rfl | (intro hfalse; cases hfalse)⟩
      · rcases hwrite with ⟨id, disabled, rfl, rfl, rfl⟩ | ⟨id, rfl, rfl, rfl⟩ |
          ⟨id, rfl, rfl, rfl⟩ | ⟨id, rest, rfl, rfl, rfl⟩ | ⟨copy, rest, rfl, rfl, rfl⟩
        all_goals exact ⟨nofun, by first | exact fun _ => .inl rfl | (intro hfalse; cases hfalse)⟩

theorem FlagCall.isStart_idle {l : FlagCall} (h : l.isStart = true) :
    l.inTransfer = false ∧ l.enables = false := by
  cases l <;> first | exact ⟨rfl, rfl⟩ | cases h

theorem serialObligations : (flagMachine selfHosted).Obligations serial serialAssertions where
  start {_ l} _ hl := by cases l <;> trivial
  startPair {_ l m} hl _ := by
    obtain ⟨htransfer, henables⟩ := FlagCall.isStart_idle hl
    exact ⟨⟨fun h => absurd h (by simp [htransfer]), fun _ => henables⟩,
      ⟨fun _ => henables, fun h => absurd h (by simp [htransfer])⟩⟩
  own hw _ hi hst := ⟨trivial, FlagCall.stmt_fresh hst (hw.at_ hi)⟩
  other {w i a l d l' j m} hw hok hi hst hji hj _ _ := by
    have hapart := hw.pair (Ne.symm hji) hi hj
    have hm := List.mem_of_getElem? hj
    obtain ⟨htransfer, henables⟩ := FlagCall.stmt_enters hst
    have hpair : (l'.inTransfer = true → m.enables = false) ∧
        (m.inTransfer = true → l'.enables = false) := by
      constructor
      · intro hl'
        obtain ⟨id, rfl, rfl⟩ := htransfer hl'
        rw [serial, hi] at hok
        exact hok m hm
      · intro hmt
        by_contra hl'
        rcases henables (by simpa using hl') with hl | ⟨team, limit, rfl, rfl⟩
        · rw [hapart.2 hmt] at hl
          cases hl
        · rw [serial, hi] at hok
          have := hok m hm
          rw [hmt] at this
          cases this
    refine ⟨?_, hpair, hpair.2, hpair.1⟩
    have hfresh : m.Fresh w.db := hw.at_ hj
    rcases FlagCall.stmt_cases hst with ⟨rfl, -, -⟩ | ⟨-, hwrite⟩
    · exact hfresh
    · rcases hwrite with ⟨id, disabled, rfl, rfl, rfl⟩ | ⟨id, rfl, rfl, rfl⟩ | ⟨id, rfl, rfl, rfl⟩ |
        ⟨id, rest, rfl, rfl, rfl⟩ | ⟨copy, rest, rfl, rfl, rfl⟩
      · exact hfresh.commitTransfer id disabled (hapart.1 rfl)
      · exact hfresh.setServer id (fun _ => rfl) fun _ _ _ => rfl
      · exact hfresh.commitClaim id
      · exact hfresh.setServer id (fun _ => rfl) fun _ _ _ => rfl
      · refine hfresh.setServer copy.1 (fun _ => rfl) fun hmt => ?_
        cases hapart.2 hmt
  env _ _ _ := trivial
  envOther hw _ hd hj _ := by
    cases hd
    exact FlagCall.Fresh.event (hw.at_ hj) _

theorem unraced_of_fresh {w : World FlagStore FlagCall} {a : Action FlagCall Bool FlagEvent}
    (hw : ∀ {i : Nat} {l}, w.procs[i]? = some l → l.Fresh w.db) : unraced w a = true := by
  cases a with
  | run i a =>
      cases a with
      | false => rfl
      | true =>
          rw [unraced]
          split
          · next copy rest hi =>
              obtain ⟨hcopy, hcurrent⟩ := hw hi
              rw [Option.all_eq_true]
              intro s hs
              rw [hcurrent copy (List.mem_cons_self ..) hcopy s hs]
              rfl
          · next id hi =>
              rw [Option.all_eq_true]
              exact (hw hi).2 rfl
          · rfl
  | _ => rfl

/-- Where no transfer overlaps a limit check that enables servers, a
transferred server is disabled in every state. -/
theorem serial_keeps_transferred_disabled {w : World FlagStore FlagCall} (h : d.NoneAway)
    (hrun : Reaches (flagMachine selfHosted).step serial (Machine.idle d) w) :
    w.db.StaysDisabled := by
  have hinv := hrun.invariant (I := fun w => (flagMachine selfHosted).Good serialAssertions w ∧
      FlagInv w ∧ w.db.StaysDisabled) (fun w a w' hw hok hst =>
    ⟨serialObligations.step hw.1 hok hst, hw.2.1.step hst,
      (staysDisabled_step hw.2.1 hw.2.2 hst).mpr (unraced_of_fresh fun hi => hw.1.at_ hi)⟩)
    ⟨Machine.good_idle trivial, h.inv, h.staysDisabled⟩
  exact hinv.2.2

end OnePloy
