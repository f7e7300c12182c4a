import OnePloy.TerminalServer

/-!
# No terminal outlives its connection

A process is ended when its timer goes off or its connection closes, and each of these is
a loop that gives up after five attempts. Two more ways lead past them: a connection that
closes while its hosts are fetched is entered in the Map afterwards, and a command that
waits for the process before it starts its own behind the close.
-/

namespace OnePloy

open Conc Js

def AfterKill.isCommand : AfterKill → Bool
  | .command .. => true
  | _ => false

namespace TerminalServer

variable {toLowerCase : Utf16 → Utf16} {H : TerminalHistory} {s s' : TerminalServer}
  {c p k t : Nat} {userId : String} {e : TerminalSession} {q : PtyProcess}
  {f : TerminalSession → TerminalSession} {g : PtyProcess → PtyProcess}

/-- Some loop ends the process of the session. -/
def IsKilling (s : TerminalServer) (c : Nat) : Prop :=
  ∃ k loop, s.kills.get? k = some loop ∧ loop.session = c

/-- Some loop ends it because the connection has closed. -/
def IsClosing (s : TerminalServer) (c : Nat) (userId : String) : Prop :=
  ∃ k loop, s.kills.get? k = some loop ∧ loop.session = c ∧ loop.next = .close userId

/-- A connection closes once its hosts are known and no command waits, and no loop gives
up. -/
def Tidy (s : TerminalServer) : TerminalEvent → Prop
  | .close c => (∀ r ∈ s.sessions.rows, r.1 = c → r.2.fetching = false) ∧
      ∀ r ∈ s.kills.rows, r.2.session = c → r.2.next.isCommand = false
  | .tick k => ∀ r ∈ s.kills.rows, r.1 = k → r.2.killAttempts < maxAttempts ∨
      ∀ r' ∈ s.sessions.rows, r'.1 = r.2.session → r'.2.isActive = false
  | _ => True

def Calm (H : TerminalHistory) (s : TerminalServer) (event : TerminalEvent) : Prop :=
  Heard H s event ∧ s.Tidy event

structure Tended (s : TerminalServer) : Prop where
  /-- Something is going to end a live process. -/
  cared {p : Nat} {q : PtyProcess} : s.ptys.get? p = some q → q.alive = true →
    (∃ e t, s.sessions.get? q.session = some e ∧ e.terminalSessionTimer = some t ∧
      s.timers.get? t = some e.userId) ∨ s.IsKilling q.session
  listed {p : Nat} {q : PtyProcess} {e : TerminalSession} : s.ptys.get? p = some q →
    q.alive = true → s.sessions.get? q.session = some e →
      s.userSessions e.userId = some q.session
  /-- The Map has the sessions that are open or on their way out. -/
  listedOpen {c : Nat} {e : TerminalSession} : s.sessions.get? c = some e →
    s.userSessions e.userId = some c → e.isOpen = true ∨ s.IsClosing c e.userId
  waits {k : Nat} {loop : KillLoop} {e : TerminalSession} : s.kills.get? k = some loop →
    loop.next.isCommand = true → s.sessions.get? loop.session = some e → e.isOpen = true
  fetches {c : Nat} {e : TerminalSession} : s.sessions.get? c = some e → e.fetching = true →
    e.isOpen = true
  timed {c t : Nat} {e : TerminalSession} : s.sessions.get? c = some e →
    e.terminalSessionTimer = some t → t < s.timers.nextId
  apart {c c' t : Nat} {e e' : TerminalSession} : s.sessions.get? c = some e →
    s.sessions.get? c' = some e' → e.terminalSessionTimer = some t →
      e'.terminalSessionTimer = some t → c = c'

/-! ### Parts of the handlers -/

/-- What is alive was alive. -/
theorem Tended.of_ptys (h : s.Tended) {ptys : Table PtyProcess}
    (hlive : ∀ p q', ptys.get? p = some q' → q'.alive = true →
      ∃ q, s.ptys.get? p = some q ∧ q'.session = q.session ∧ q.alive = true) :
    Tended { s with ptys := ptys } :=
  { h with
    cared := by
      intro p q' hq' halive'
      obtain ⟨q, hq, hsession, halive⟩ := hlive p q' hq' halive'
      rw [hsession]
      exact h.cared hq halive
    listed := by
      intro p q' e hq' halive' he
      obtain ⟨q, hq, hsession, halive⟩ := hlive p q' hq' halive'
      rw [hsession] at he ⊢
      exact h.listed hq halive he }

theorem Tended.modifyPty (h : s.Tended) (p : Nat)
    (hkeeps : ∀ q, (g q).session = q.session ∧ ((g q).alive = true → q.alive = true)) :
    (s.modifyPty p g).Tended := by
  refine h.of_ptys fun i q' hq' halive => ?_
  obtain ⟨q, hq, rfl⟩ := Table.get?_modify_some.mp hq'
  refine ⟨q, hq, ?_⟩
  split at halive
  · next hi =>
      rw [if_pos hi]
      exact ⟨(hkeeps q).1, (hkeeps q).2 halive⟩
  · next hi =>
      rw [if_neg hi]
      exact ⟨rfl, halive⟩

theorem Tended.attemptKill (h : s.Tended) (c : Nat) : (s.attemptKill c).Tended := by
  rw [TerminalServer.attemptKill]
  split
  · exact h
  · next p _ =>
      exact h.modifyPty p (g := fun q => { q with input := killCommand :: q.input })
        fun q => ⟨rfl, id⟩

/-- Sessions keep their users and their sockets, and get no timer. -/
theorem Tended.of_sessions (h : s.Tended) (sessions : Table TerminalSession)
    (timers : Table String) (hnextId : timers.nextId = s.timers.nextId)
    (hback : ∀ i e', sessions.get? i = some e' →
      ∃ e, s.sessions.get? i = some e ∧ e'.userId = e.userId ∧ e'.isOpen = e.isOpen ∧
        (e'.fetching = true → e.fetching = true) ∧
        ∀ t, e'.terminalSessionTimer = some t → e.terminalSessionTimer = some t)
    (hcared : ∀ p q e t, s.ptys.get? p = some q → q.alive = true →
      s.sessions.get? q.session = some e → e.terminalSessionTimer = some t →
      s.timers.get? t = some e.userId → ∃ e' t, sessions.get? q.session = some e' ∧
        e'.terminalSessionTimer = some t ∧ timers.get? t = some e'.userId) :
    Tended { s with sessions := sessions, timers := timers } := by
  constructor
  case cared =>
    intro p q hq halive
    rcases h.cared hq halive with ⟨e, t, he, htimer, harmed⟩ | hkilling
    · exact .inl (hcared p q e t hq halive he htimer harmed)
    · exact .inr hkilling
  case listed =>
    intro p q e' hq halive he'
    obtain ⟨e, he, hid, -⟩ := hback _ e' he'
    rw [hid]
    exact h.listed hq halive he
  case listedOpen =>
    intro i e' he' hi
    obtain ⟨e, he, hid, hopen, -⟩ := hback i e' he'
    rw [hid] at hi ⊢
    rw [hopen]
    exact h.listedOpen he hi
  case waits =>
    intro k loop e' hloop hnext he'
    obtain ⟨e, he, -, hopen, -⟩ := hback _ e' he'
    rw [hopen]
    exact h.waits hloop hnext he
  case fetches =>
    intro i e' he' hfetching
    obtain ⟨e, he, -, hopen, hsame, -⟩ := hback i e' he'
    rw [hopen]
    exact h.fetches he (hsame hfetching)
  case timed =>
    intro i t e' he' htimer
    obtain ⟨e, he, -, -, -, hsame⟩ := hback i e' he'
    exact hnextId ▸ h.timed he (hsame t htimer)
  case apart =>
    intro i i' t e₁ e₂ he₁ he₂ htimer₁ htimer₂
    obtain ⟨e₁', he₁', -, -, -, hsame₁⟩ := hback i e₁ he₁
    obtain ⟨e₂', he₂', -, -, -, hsame₂⟩ := hback i' e₂ he₂
    exact h.apart he₁' he₂' (hsame₁ t htimer₁) (hsame₂ t htimer₂)

theorem Tended.modifySession (h : s.Tended) (c : Nat)
    (hkeeps : ∀ e, (f e).userId = e.userId ∧ (f e).isOpen = e.isOpen ∧
      ((f e).fetching = true → e.fetching = true) ∧
      (f e).terminalSessionTimer = e.terminalSessionTimer) :
    (s.modifySession c f).Tended := by
  refine h.of_sessions _ s.timers rfl (fun i e' he' => ?_)
    fun p q e t _ _ he htimer harmed => ?_
  · obtain ⟨e, he, rfl⟩ := Table.get?_modify_some.mp he'
    refine ⟨e, he, ?_⟩
    split
    · obtain ⟨hid, hopen, hfetching, htimer⟩ := hkeeps e
      exact ⟨hid, hopen, hfetching, fun t ht => htimer ▸ ht⟩
    · exact ⟨rfl, rfl, id, fun t ht => ht⟩
  · refine ⟨_, t, Table.get?_modify_of_some c f he, ?_⟩
    split
    · obtain ⟨hid, -, -, hsame⟩ := hkeeps e
      exact ⟨hsame.trans htimer, harmed.trans (congrArg some hid.symm)⟩
    · exact ⟨htimer, harmed⟩

/-- The timer of another session is another timer. -/
theorem Tended.clearTimer (h : s.Tended) (hidle : ∀ p q, s.ptys.get? p = some q →
    q.session = c → q.alive = false) : (s.clearTimer c).Tended := by
  refine h.of_sessions _ (s.timers.deleteWhere _) rfl (fun i e' he' => ?_)
    fun p q e t hq halive he htimer harmed => ?_
  · obtain ⟨e, he, rfl⟩ := Table.get?_modify_some.mp he'
    refine ⟨e, he, ?_⟩
    split
    · exact ⟨rfl, rfl, id, fun t ht => by cases ht⟩
    · exact ⟨rfl, rfl, id, fun t ht => ht⟩
  · have hne : q.session ≠ c := by
      intro hsession
      rw [hidle p q hq hsession] at halive
      cases halive
    refine ⟨e, t, (Table.get?_modify_ne _ hne).trans he, htimer,
      Table.get?_deleteWhere.mpr ⟨harmed, Bool.eq_false_iff.mpr fun hcleared => ?_⟩⟩
    cases he' : s.sessions.get? c with
    | none =>
        rw [he'] at hcleared
        cases hcleared
    | some e' =>
        rw [he', Option.any_some, beq_iff_eq] at hcleared
        exact hne (h.apart he he' htimer hcleared)

theorem Tended.insertKill (h : s.Tended) (loop : KillLoop)
    (hwaits : loop.next.isCommand = true → ∀ e, s.sessions.get? loop.session = some e →
      e.isOpen = true) :
    Tended { s with kills := s.kills.insert loop } := by
  have hkept : ∀ {k loop'}, s.kills.get? k = some loop' →
      (s.kills.insert loop).get? k = some loop' := fun hk => Table.get?_insert_of_some _ hk
  refine { h with cared := ?_, listedOpen := ?_, waits := ?_ }
  · intro p q hq halive
    rcases h.cared hq halive with harmed | ⟨k, loop', hk, hsession⟩
    · exact .inl harmed
    · exact .inr ⟨k, loop', hkept hk, hsession⟩
  · intro i e he hi
    rcases h.listedOpen he hi with hopen | ⟨k, loop', hk, hnext⟩
    · exact .inl hopen
    · exact .inr ⟨k, loop', hkept hk, hnext⟩
  · intro k loop' e hk hnext he
    rw [Table.get?_insert] at hk
    split at hk
    · obtain rfl := Option.some.inj hk
      exact hwaits hnext e he
    · exact h.waits hk hnext he

theorem Tended.countKill (h : s.Tended) (k killAttempts : Nat) :
    Tended { s with kills := s.kills.modify k ({ · with killAttempts := killAttempts }) } := by
  have hkept : ∀ {i loop}, s.kills.get? i = some loop →
      ∃ loop', (s.kills.modify k ({ · with killAttempts := killAttempts })).get? i = some loop' ∧
        loop'.session = loop.session ∧ loop'.next = loop.next := by
    intro i loop hi
    refine ⟨_, Table.get?_modify_of_some k _ hi, ?_⟩
    split <;> exact ⟨rfl, rfl⟩
  refine { h with cared := ?_, listedOpen := ?_, waits := ?_ }
  · intro p q hq halive
    rcases h.cared hq halive with harmed | ⟨i, loop, hi, hsession⟩
    · exact .inl harmed
    · obtain ⟨loop', hi', hsame, -⟩ := hkept hi
      exact .inr ⟨i, loop', hi', hsame.trans hsession⟩
  · intro c e he hc
    rcases h.listedOpen he hc with hopen | ⟨i, loop, hi, hsession, hnext⟩
    · exact .inl hopen
    · obtain ⟨loop', hi', hsame, hsame'⟩ := hkept hi
      exact .inr ⟨i, loop', hi', hsame.trans hsession, hsame'.trans hnext⟩
  · intro i loop' e hi hnext he
    obtain ⟨loop, hloop, rfl⟩ := Table.get?_modify_some.mp hi
    split at hnext <;> split at he <;> exact h.waits hloop hnext he

/-- The process of the session had ended, and a close is not behind the loop. -/
theorem Tended.removeKill (h : s.Tended) {loop : KillLoop} (hloop : s.kills.get? k = some loop)
    (hidle : ∀ p q, s.ptys.get? p = some q → q.session = loop.session → q.alive = false)
    (hnext : ∀ userId, loop.next ≠ .close userId) : (s.removeKill k).Tended := by
  have hkept : ∀ {i loop'}, s.kills.get? i = some loop' → i ≠ k →
      (s.removeKill k).kills.get? i = some loop' :=
    fun hi hne => Table.get?_deleteWhere.mpr ⟨hi, by simpa using hne⟩
  refine { h with cared := ?_, listedOpen := ?_, waits := ?_ }
  · intro p q hq halive
    rcases h.cared hq halive with harmed | ⟨i, loop', hi, hsession⟩
    · exact .inl harmed
    · refine .inr ⟨i, loop', hkept hi ?_, hsession⟩
      rintro rfl
      obtain rfl := Option.some.inj (hloop.symm.trans hi)
      rw [hidle p q hq hsession.symm] at halive
      cases halive
  · intro c e he hc
    rcases h.listedOpen he hc with hopen | ⟨i, loop', hi, hsession, hclose⟩
    · exact .inl hopen
    · refine .inr ⟨i, loop', hkept hi ?_, hsession, hclose⟩
      rintro rfl
      obtain rfl := Option.some.inj (hloop.symm.trans hi)
      exact hnext e.userId hclose
  · intro i loop' e hi hcommand he
    exact h.waits (Table.get?_deleteWhere.mp hi).1 hcommand he

/-- A session without a live process leaves the Map, and its loop goes with it. -/
theorem Tended.forget (h : s.Tended) (hknown : Known H s) (he : s.sessions.get? c = some e)
    (hidle : ∀ p q, s.ptys.get? p = some q → q.session = c → q.alive = false)
    (kills : Table KillLoop)
    (hkills : ∀ k loop, kills.get? k = some loop → s.kills.get? k = some loop)
    (hothers : ∀ k loop, s.kills.get? k = some loop → loop.session ≠ c →
      kills.get? k = some loop) :
    Tended { s with
      kills := kills
      userSessions := Function.update s.userSessions e.userId none } := by
  have hother : ∀ {i e'}, s.sessions.get? i = some e' → i ≠ c → e'.userId ≠ e.userId :=
    fun he' hi hsame => hi (hknown.named he' he hsame)
  refine { h with cared := ?_, listed := ?_, listedOpen := ?_, waits := ?_ }
  · intro p q hq halive
    have hne : q.session ≠ c := by
      intro hsession
      rw [hidle p q hq hsession] at halive
      cases halive
    rcases h.cared hq halive with harmed | ⟨i, loop, hi, hsession⟩
    · exact .inl harmed
    · exact .inr ⟨i, loop, hothers i loop hi (hsession.symm ▸ hne), hsession⟩
  · intro p q e' hq halive he'
    have hne : q.session ≠ c := by
      intro hsession
      rw [hidle p q hq hsession] at halive
      cases halive
    simp only [Function.update_of_ne (hother he' hne)]
    exact h.listed hq halive he'
  · intro i e' he' hi
    by_cases hsame : e'.userId = e.userId
    · simp [hsame] at hi
    · simp only [Function.update_of_ne hsame] at hi
      rcases h.listedOpen he' hi with hopen | ⟨j, loop, hj, hsession, hclose⟩
      · exact .inl hopen
      · refine .inr ⟨j, loop, hothers j loop hj fun heq => hsame ?_, hsession, hclose⟩
        obtain rfl := hsession.symm.trans heq
        obtain rfl := Option.some.inj (he.symm.trans he')
        rfl
  · intro k loop e' hk hcommand he'
    exact h.waits (hkills k loop hk) hcommand he'

theorem Tended.spawn (h : s.Tended) (he : s.sessions.get? c = some e)
    (hc : s.userSessions e.userId = some c) (arguments : List Utf16) :
    (s.spawn c c e.userId arguments).Tended := by
  have hbefore : ∀ {p q}, (s.ptys.insert ⟨c, c, arguments, true, [], 80, 30, false⟩).get? p
      = some q → s.ptys.get? p = some q ∨ q.session = c := by
    intro p q hq
    rw [Table.get?_insert] at hq
    split at hq
    · obtain rfl := Option.some.inj hq
      exact .inr rfl
    · exact .inl hq
  have hback : ∀ {i e'}, (s.spawn c c e.userId arguments).sessions.get? i = some e' →
      ∃ e₀, s.sessions.get? i = some e₀ ∧ e'.userId = e₀.userId ∧ e'.isOpen = e₀.isOpen ∧
        e'.fetching = e₀.fetching ∧
        (i = c ∧ e'.terminalSessionTimer = some s.timers.nextId ∨
          i ≠ c ∧ e'.terminalSessionTimer = e₀.terminalSessionTimer) := by
    intro i e' he'
    obtain ⟨e₀, he₀, rfl⟩ := Table.get?_modify_some.mp he'
    refine ⟨e₀, he₀, ?_⟩
    split
    · next hi => exact ⟨rfl, rfl, rfl, .inl ⟨hi, rfl⟩⟩
    · next hi => exact ⟨rfl, rfl, rfl, .inr ⟨hi, rfl⟩⟩
  have hnew : ∃ e' t, (s.spawn c c e.userId arguments).sessions.get? c = some e' ∧
      e'.terminalSessionTimer = some t ∧
      (s.spawn c c e.userId arguments).timers.get? t = some e'.userId :=
    ⟨_, s.timers.nextId, Table.get?_modify_self _ he, rfl, Table.get?_insert_self ..⟩
  constructor
  case cared =>
    intro p q hq halive
    by_cases hsession : q.session = c
    · rw [hsession]
      exact .inl hnew
    · rcases h.cared ((hbefore hq).resolve_right hsession) halive with
        ⟨e', t, he', htimer, harmed⟩ | hkilling
      · exact .inl ⟨e', t, (Table.get?_modify_ne _ hsession).trans he', htimer,
          Table.get?_insert_of_some _ harmed⟩
      · exact .inr hkilling
  case listed =>
    intro p q e' hq halive he'
    obtain ⟨e₀, he₀, hid, -⟩ := hback he'
    rw [hid]
    rcases hbefore hq with hq | hsession
    · exact h.listed hq halive he₀
    · rw [hsession] at he₀ ⊢
      obtain rfl := Option.some.inj (he.symm.trans he₀)
      exact hc
  case listedOpen =>
    intro i e' he' hi
    obtain ⟨e₀, he₀, hid, hopen, -⟩ := hback he'
    rw [hid] at hi ⊢
    rw [hopen]
    exact h.listedOpen he₀ hi
  case waits =>
    intro k loop e' hloop hnext he'
    obtain ⟨e₀, he₀, -, hopen, -⟩ := hback he'
    rw [hopen]
    exact h.waits hloop hnext he₀
  case fetches =>
    intro i e' he' hfetching
    obtain ⟨e₀, he₀, -, hopen, hsame, -⟩ := hback he'
    rw [hopen]
    exact h.fetches he₀ (hsame ▸ hfetching)
  case timed =>
    intro i t e' he' htimer
    obtain ⟨e₀, he₀, -, -, -, ⟨-, hsome⟩ | ⟨-, hsame⟩⟩ := hback he'
    · obtain rfl := Option.some.inj (hsome.symm.trans htimer)
      exact Nat.lt_succ_self _
    · exact Nat.lt_succ_of_lt (h.timed he₀ (hsame ▸ htimer))
  case apart =>
    intro i i' t e₁ e₂ he₁ he₂ htimer₁ htimer₂
    obtain ⟨e₁', he₁', -, -, -, ⟨hi₁, hsome₁⟩ | ⟨hi₁, hsame₁⟩⟩ := hback he₁ <;>
      obtain ⟨e₂', he₂', -, -, -, ⟨hi₂, hsome₂⟩ | ⟨hi₂, hsame₂⟩⟩ := hback he₂
    · exact hi₁.trans hi₂.symm
    · obtain rfl := Option.some.inj (hsome₁.symm.trans htimer₁)
      exact absurd (h.timed he₂' (hsame₂ ▸ htimer₂)) (Nat.lt_irrefl _)
    · obtain rfl := Option.some.inj (hsome₂.symm.trans htimer₂)
      exact absurd (h.timed he₁' (hsame₁ ▸ htimer₁)) (Nat.lt_irrefl _)
    · exact h.apart he₁' he₂' (hsame₁ ▸ htimer₁) (hsame₂ ▸ htimer₂)

/-! ### Handlers -/

theorem Sound.idle (h : s.Sound toLowerCase H) (he : s.sessions.get? c = some e)
    (hidle : e.isActive = false ∨ e.ptyProcess = none) :
    ∀ p q, s.ptys.get? p = some q → q.session = c → q.alive = false := by
  intro p q hq hsession
  refine Bool.eq_false_iff.mpr fun halive => ?_
  obtain ⟨e', he', hactive, hp⟩ := h.alive hq halive
  obtain rfl := Option.some.inj (he.symm.trans (hsession ▸ he'))
  rcases hidle with hidle | hnone
  · rw [hidle] at hactive
    cases hactive
  · rw [hnone] at hp
    cases hp

theorem Tended.runCommand (h : s.Tended) (hs : s.Sound toLowerCase H)
    (he : s.sessions.get? c = some e) (hidle : e.isActive = false)
    (hc : s.userSessions e.userId = some c) (command : Utf16) :
    (s.runCommand toLowerCase c c e.userId command).Tended := by
  have hcleared := h.clearTimer (hs.idle he (.inl hidle))
  rw [TerminalServer.runCommand]
  split
  · exact { hcleared with }
  · next arguments _ =>
      exact hcleared.spawn (e := { e with terminalSessionTimer := none })
        (Table.get?_modify_self _ he) hc arguments

/-- The connection that asks is open. -/
theorem Tended.killPtyProcess (h : s.Tended) {next : AfterKill}
    (hclose : ∀ userId, next ≠ .close userId)
    (hwaits : next.isCommand = true → ∀ c e, s.userSessions userId = some c →
      s.sessions.get? c = some e → e.isOpen = true) :
    (s.killPtyProcess toLowerCase userId next).Tended := by
  have hfailed : (s.afterKill toLowerCase false next).Tended := by
    cases next with
    | nothing => exact h
    | command socket session userId command => exact { h with }
    | close userId => exact absurd rfl (hclose userId)
  rw [TerminalServer.killPtyProcess]
  split
  · exact hfailed
  · next c hc =>
    split
    · exact (h.attemptKill c).insertKill _ fun hnext e he => hwaits hnext c e hc he
    · exact hfailed

theorem Tended.handleCommand (h : s.Tended) (hs : s.Sound toLowerCase H)
    (he : s.sessions.get? c = some e) (hopen : e.isOpen = true)
    (hc : s.userSessions e.userId = some c) (command : Utf16) :
    (s.handleCommand toLowerCase c e.userId command).Tended := by
  rw [TerminalServer.handleCommand, hc]
  simp only [he, Option.any_some]
  split
  · refine h.killPtyProcess (fun userId hclose => by cases hclose)
      fun _ c' e' hc' he' => ?_
    obtain rfl := Option.some.inj (hc.symm.trans hc')
    obtain rfl := Option.some.inj (he.symm.trans he')
    exact hopen
  · next hidle => exact h.runCommand hs he (Bool.eq_false_iff.mpr hidle) hc command

theorem Tended.handleRequest (h : s.Tended) (hs : s.Sound toLowerCase H)
    (hc : s.userSessions userId = some c) (he : s.sessions.get? c = some e)
    (hopen : e.isOpen = true) (request : TerminalRequest) :
    (s.handleRequest toLowerCase c request).Tended := by
  obtain ⟨e', he', rfl, -⟩ := hs.entered hc
  obtain rfl := Option.some.inj (he.symm.trans he')
  rw [TerminalServer.handleRequest, he]
  simp only
  split
  · exact h
  · cases request with
    | message | resize | pause | resume =>
        cases e.ptyProcess with
        | none => exact h
        | some p => exact h.modifyPty p fun q => ⟨rfl, id⟩
    | ping => exact { h with }
    | checkActive force =>
        simp only
        split
        · exact h.killPtyProcess (fun userId hclose => by cases hclose)
            fun hcommand => by cases hcommand
        · exact { h with }
    | command command => exact h.handleCommand hs he hopen hc command
    | throwing whileActive => exact { h with }
    | unknown => exact h

/-! No handler opens or closes a socket. -/

theorem isOpen_modify (sessions : Table TerminalSession) (c i : Nat)
    (hf : ∀ e, (f e).isOpen = e.isOpen) :
    ((sessions.modify c f).get? i).map (·.isOpen) = (sessions.get? i).map (·.isOpen) := by
  rw [Table.get?_modify_map, Option.map_map]
  refine Option.map_congr fun e _ => ?_
  simp only [Function.comp]
  split
  · exact hf e
  · rfl

theorem isOpen_spawn (socket session i : Nat) (arguments : List Utf16) :
    ((s.spawn socket session userId arguments).sessions.get? i).map (·.isOpen)
      = (s.sessions.get? i).map (·.isOpen) :=
  isOpen_modify s.sessions session i
    (f := ({ · with
      ptyProcess := some s.ptys.nextId
      isActive := true
      terminalSessionTimer := some s.timers.nextId })) fun _ => rfl

theorem isOpen_runCommand (socket session i : Nat) (command : Utf16) :
    ((s.runCommand toLowerCase socket session userId command).sessions.get? i).map (·.isOpen)
      = (s.sessions.get? i).map (·.isOpen) := by
  have hcleared := isOpen_modify s.sessions session i
    (f := ({ · with terminalSessionTimer := none })) fun _ => rfl
  rw [TerminalServer.runCommand]
  split
  · exact hcleared
  · exact (isOpen_spawn ..).trans hcleared

theorem isOpen_afterKill (result : Bool) (next : AfterKill) (i : Nat) :
    ((s.afterKill toLowerCase result next).sessions.get? i).map (·.isOpen)
      = (s.sessions.get? i).map (·.isOpen) := by
  cases next with
  | nothing => rfl
  | command socket session userId command =>
      rw [afterKill]
      split
      · exact isOpen_runCommand ..
      · rfl
  | close userId => rfl

theorem isOpen_killPtyProcess (next : AfterKill) (i : Nat) :
    ((s.killPtyProcess toLowerCase userId next).sessions.get? i).map (·.isOpen)
      = (s.sessions.get? i).map (·.isOpen) := by
  rw [TerminalServer.killPtyProcess]
  split
  · exact isOpen_afterKill ..
  · split
    · rfl
    · exact isOpen_afterKill ..

theorem isOpen_handleRequest (request : TerminalRequest) (i : Nat) :
    ((s.handleRequest toLowerCase c request).sessions.get? i).map (·.isOpen)
      = (s.sessions.get? i).map (·.isOpen) := by
  rw [TerminalServer.handleRequest]
  split
  · rfl
  · next e _ =>
    split
    · rfl
    · cases request with
      | message | resize | pause | resume => cases e.ptyProcess <;> rfl
      | ping | throwing | unknown => rfl
      | checkActive force =>
          simp only
          split
          · exact isOpen_killPtyProcess ..
          · rfl
      | command command =>
          simp only [TerminalServer.handleCommand]
          split
          · rfl
          · split
            · exact isOpen_killPtyProcess ..
            · exact isOpen_runCommand ..

/-- Handling messages of an open connection that is in the Map. -/
structure Serving (toLowerCase : Utf16 → Utf16) (H : TerminalHistory) (s : TerminalServer)
    (c : Nat) (userId : String) : Prop extends Sound toLowerCase H s, Tended s where
  serves : s.userSessions userId = some c
  stays : (s.sessions.get? c).map (·.isOpen) = some true

theorem Serving.handleRequest (h : s.Serving toLowerCase H c userId) {request : TerminalRequest}
    (hasked : H.asked c request) :
    (s.handleRequest toLowerCase c request).Serving toLowerCase H c userId := by
  obtain ⟨e, he, hopen⟩ := Option.map_eq_some_iff.mp h.stays
  have hsound := h.toSound.handleRequest h.serves hasked
  have htended := h.toTended.handleRequest h.toSound h.serves he hopen request
  exact { hsound, htended with
    serves := (congrFun (userSessions_handleRequest _) _).trans h.serves
    stays := (isOpen_handleRequest _ _).trans h.stays }

theorem Serving.handleMessage (h : s.Serving toLowerCase H c userId) {message : TerminalMessage}
    (hasked : ∀ request ∈ message, H.asked c request) :
    (s.handleMessage toLowerCase c message).Serving toLowerCase H c userId := by
  induction message generalizing s with
  | nil => exact h
  | cons request message ih =>
      rw [List.forall_mem_cons] at hasked
      exact ih (h.handleRequest hasked.1) hasked.2

theorem Serving.handleMessages (h : s.Serving toLowerCase H c userId)
    {messages : List TerminalMessage}
    (hasked : ∀ m ∈ messages, ∀ request ∈ m, H.asked c request) :
    (messages.foldl (TerminalServer.handleMessage toLowerCase c) s).Serving toLowerCase H c
      userId := by
  induction messages generalizing s with
  | nil => exact h
  | cons m messages ih =>
      rw [List.forall_mem_cons] at hasked
      exact ih (h.handleMessage hasked.1) hasked.2

/-! ### Events -/

theorem Tended.connect (h : s.Tended) (hs : s.Sound toLowerCase H) (userId : String) :
    (s.connect userId).Tended := by
  have hafter : ∀ {i e'}, (s.connect userId).sessions.get? i = some e' →
      s.sessions.get? i = some e' ∨ i = s.sessions.nextId ∧
        e' = ⟨userId, true, true, none, false, [], false, [], none⟩ := by
    intro i e' he'
    rw [TerminalServer.connect, Table.get?_insert] at he'
    split at he'
    · next hi => exact .inr ⟨hi, (Option.some.inj he').symm⟩
    · exact .inl he'
  refine { h with
    cared := ?_, listed := ?_, listedOpen := ?_, waits := ?_, fetches := ?_, timed := ?_
    apart := ?_ }
  · intro p q hq halive
    rcases h.cared hq halive with ⟨e, t, he, htimer, harmed⟩ | hkilling
    · exact .inl ⟨e, t, Table.get?_insert_of_some _ he, htimer, harmed⟩
    · exact .inr hkilling
  · intro p q e hq halive he
    obtain ⟨e', he', -⟩ := hs.alive hq halive
    obtain rfl := Option.some.inj (he.symm.trans (Table.get?_insert_of_some _ he'))
    exact h.listed hq halive he'
  · intro i e he hi
    rcases hafter he with he | ⟨-, rfl⟩
    · exact h.listedOpen he hi
    · exact .inl rfl
  · intro k loop e hloop hnext he
    rcases hafter he with he | ⟨-, rfl⟩
    · exact h.waits hloop hnext he
    · rfl
  · intro i e he hfetching
    rcases hafter he with he | ⟨-, rfl⟩
    · exact h.fetches he hfetching
    · rfl
  · intro i t e he htimer
    rcases hafter he with he | ⟨-, rfl⟩
    · exact h.timed he htimer
    · cases htimer
  · intro i i' t e e' he he' htimer htimer'
    rcases hafter he with he | ⟨-, rfl⟩
    · rcases hafter he' with he' | ⟨-, rfl⟩
      · exact h.apart he he' htimer htimer'
      · cases htimer'
    · cases htimer

/-- The hosts arrive for a connection that is open. -/
theorem Tended.enter (h : s.Tended) (hs : s.Sound toLowerCase H)
    (he : s.sessions.get? c = some e) (hfetching : e.fetching = true)
    (ipAddresses : List Utf16) :
    Tended { s with
      sessions := s.sessions.modify c ({ · with
        fetching := false
        authorizedIPs := ipAddresses
        authReady := true
        pendingMessages := [] })
      userSessions := Function.update s.userSessions e.userId (some c) } := by
  have hopen := h.fetches he hfetching
  have hentered := h.modifySession c (f := ({ · with
    fetching := false
    authorizedIPs := ipAddresses
    authReady := true
    pendingMessages := [] })) fun e => ⟨rfl, rfl, fun hf => (by cases hf), rfl⟩
  have hid : ∀ {i e'}, (s.sessions.modify c ({ · with
      fetching := false
      authorizedIPs := ipAddresses
      authReady := true
      pendingMessages := [] })).get? i = some e' → (e'.userId = e.userId → i = c) ∧
        (i = c → e'.isOpen = true) := by
    intro i e' he'
    obtain ⟨e₀, he₀, rfl⟩ := Table.get?_modify_some.mp he'
    constructor
    · intro hsame
      refine hs.named he₀ he ?_
      split at hsame <;> exact hsame
    · rintro rfl
      obtain rfl := Option.some.inj (he.symm.trans he₀)
      rw [if_pos rfl]
      exact hopen
  refine { hentered with listed := ?_, listedOpen := ?_ }
  · intro p q e' hq halive he'
    by_cases hsame : e'.userId = e.userId
    · simp [hsame, (hid he').1 hsame]
    · simp only [Function.update_of_ne hsame]
      exact hentered.listed hq halive he'
  · intro i e' he' hi
    by_cases hsame : e'.userId = e.userId
    · exact .inl ((hid he').2 ((hid he').1 hsame))
    · simp only [Function.update_of_ne hsame] at hi
      exact hentered.listedOpen he' hi

/-- A socket closes whose session is on its way out of the Map or not in it. -/
theorem Tended.shut (h : s.Tended) (he : s.sessions.get? c = some e)
    (hfetching : e.fetching = false)
    (hwaits : ∀ k loop, s.kills.get? k = some loop → loop.session = c →
      loop.next.isCommand = false)
    (hgoes : s.userSessions e.userId = some c → s.IsClosing c e.userId) :
    (s.modifySession c ({ · with isOpen := false })).Tended := by
  have hback : ∀ {i e'}, (s.sessions.modify c ({ · with isOpen := false })).get? i = some e' →
      ∃ e₀, s.sessions.get? i = some e₀ ∧ e'.userId = e₀.userId ∧ e'.fetching = e₀.fetching ∧
        e'.terminalSessionTimer = e₀.terminalSessionTimer ∧
        (i ≠ c → e'.isOpen = e₀.isOpen) := by
    intro i e' he'
    obtain ⟨e₀, he₀, rfl⟩ := Table.get?_modify_some.mp he'
    refine ⟨e₀, he₀, ?_⟩
    split
    · next hi => exact ⟨rfl, rfl, rfl, fun hne => absurd hi hne⟩
    · exact ⟨rfl, rfl, rfl, fun _ => rfl⟩
  constructor
  case cared =>
    intro p q hq halive
    rcases h.cared hq halive with ⟨e', t, he', htimer, harmed⟩ | hkilling
    · refine .inl ⟨_, t, Table.get?_modify_of_some c _ he', ?_⟩
      split <;> exact ⟨htimer, harmed⟩
    · exact .inr hkilling
  case listed =>
    intro p q e' hq halive he'
    obtain ⟨e₀, he₀, hid, -⟩ := hback he'
    rw [hid]
    exact h.listed hq halive he₀
  case listedOpen =>
    intro i e' he' hi
    obtain ⟨e₀, he₀, hid, -, -, hopen⟩ := hback he'
    rw [hid] at hi ⊢
    by_cases hic : i = c
    · subst hic
      obtain rfl := Option.some.inj (he.symm.trans he₀)
      exact .inr (hgoes hi)
    · rw [hopen hic]
      exact h.listedOpen he₀ hi
  case waits =>
    intro k loop e' hloop hnext he'
    obtain ⟨e₀, he₀, -, -, -, hopen⟩ := hback he'
    have hne : loop.session ≠ c := by
      intro hc
      rw [hwaits k loop hloop hc] at hnext
      cases hnext
    rw [hopen hne]
    exact h.waits hloop hnext he₀
  case fetches =>
    intro i e' he' hstill
    obtain ⟨e₀, he₀, -, hsame, -, hopen⟩ := hback he'
    rw [hsame] at hstill
    have hne : i ≠ c := by
      rintro rfl
      obtain rfl := Option.some.inj (he.symm.trans he₀)
      rw [hfetching] at hstill
      cases hstill
    rw [hopen hne]
    exact h.fetches he₀ hstill
  case timed =>
    intro i t e' he' htimer
    obtain ⟨e₀, he₀, -, -, hsame, -⟩ := hback he'
    exact h.timed he₀ (hsame ▸ htimer)
  case apart =>
    intro i i' t e₁ e₂ he₁ he₂ htimer₁ htimer₂
    obtain ⟨e₁', he₁', -, -, hsame₁, -⟩ := hback he₁
    obtain ⟨e₂', he₂', -, -, hsame₂, -⟩ := hback he₂
    exact h.apart he₁' he₂' (hsame₁ ▸ htimer₁) (hsame₂ ▸ htimer₂)

theorem Tended.handleClose (h : s.Tended) (hs : s.Sound toLowerCase H)
    (htidy : s.Tidy (.close c)) (hstep : s.handleClose toLowerCase c = some s') : s'.Tended := by
  obtain ⟨e, he, hstep⟩ := Option.bind_eq_some_iff.mp hstep
  obtain ⟨he, -⟩ := Option.filter_eq_some_iff.mp he
  obtain rfl := Option.some.inj hstep
  have hfetching := htidy.1 (c, e) (Table.mem_rows.mpr he) rfl
  have hwaits : ∀ k loop, s.kills.get? k = some loop → loop.session = c →
      loop.next.isCommand = false :=
    fun k loop hloop => htidy.2 (k, loop) (Table.mem_rows.mpr hloop)
  have hclosed : (s.modifySession c ({ · with isOpen := false })).sessions.get? c
      = some { e with isOpen := false } := Table.get?_modify_self _ he
  have hgone : (∀ p q, s.ptys.get? p = some q → q.session = c → q.alive = false) →
      Tended { s.modifySession c ({ · with isOpen := false }) with
        userSessions := Function.update s.userSessions e.userId none } := by
    intro hidle
    refine (h.forget hs.toKnown he hidle s.kills (fun _ _ hk => hk)
      fun _ _ hk _ => hk).shut he hfetching hwaits fun hin => ?_
    simp only [Function.update_self] at hin
    cases hin
  rw [TerminalServer.killPtyProcess]
  split
  · next hnone =>
      refine hgone fun p q hq hsession => Bool.eq_false_iff.mpr fun halive => ?_
      have hin := h.listed hq halive (hsession ▸ he)
      cases hnone.symm.trans hin
  · next c' hc' =>
      obtain ⟨e', he', hid, -⟩ := hs.entered hc'
      obtain rfl := hs.named he' he hid
      rw [hclosed, Option.bind_some]
      split
      · next hsome =>
          have hkilling := (h.attemptKill c').insertKill ⟨c', 1, .close e.userId⟩
            fun hnext => by cases hnext
          have hshut := hkilling.shut he hfetching (fun k loop hk hsession => by
              rw [Table.get?_insert] at hk
              split at hk
              · obtain rfl := Option.some.inj hk
                rfl
              · exact hwaits k loop hk hsession)
            fun _ => ⟨_, _, Table.get?_insert_self .., rfl, rfl⟩
          have hsame : (s.modifySession c' ({ · with isOpen := false })).attemptKill c'
              = (s.attemptKill c').modifySession c' ({ · with isOpen := false }) := by
            rw [TerminalServer.attemptKill, TerminalServer.attemptKill, hclosed, he]
            rfl
          rw [hsame]
          exact hshut
      · next hnone =>
          exact hgone (hs.idle he (.inr (Option.not_isSome_iff_eq_none.mp hnone)))

theorem Tended.onExit (h : s.Tended) (hs : s.Sound toLowerCase H)
    (hstep : s.onExit p = some s') : s'.Tended := by
  obtain ⟨q, hq, hstep⟩ := Option.bind_eq_some_iff.mp hstep
  obtain ⟨hq, halive⟩ := Option.filter_eq_some_iff.mp hq
  obtain rfl := Option.some.inj hstep
  obtain ⟨e, he, -⟩ := hs.alive hq halive
  have hended := h.modifyPty p (g := ({ · with alive := false })) fun q =>
    ⟨rfl, fun hdead => (by cases hdead)⟩
  have hexited := hended.modifySession q.session (f := ({ · with isActive := false }))
    fun e => ⟨rfl, rfl, id, rfl⟩
  have htended : Tended (((s.modifyPty p ({ · with alive := false })).send q.socket
      .ptyExited).modifySession q.session ({ · with isActive := false })) := { hexited with }
  exact htended.clearTimer ((hs.exited hq halive).idle (Table.get?_modify_self _ he) (.inl rfl))

theorem Tended.afterAttempt (h : s.Tended) (hs : s.Sound toLowerCase H)
    (htidy : s.Tidy (.tick k)) (hstep : s.afterAttempt toLowerCase k = some s') :
    s'.Tended := by
  obtain ⟨loop, hloop, hstep⟩ := Option.bind_eq_some_iff.mp hstep
  obtain ⟨e, he, hready, hnext⟩ := hs.loops hloop
  simp only [he, Option.any_some] at hstep
  split at hstep
  · next hactive =>
    split at hstep
    · obtain rfl := Option.some.inj hstep
      exact (h.attemptKill loop.session).countKill k _
    · next hlast =>
        rcases htidy (k, loop) (Table.mem_rows.mpr hloop) rfl with hmore | hidle
        · exact absurd hmore hlast
        · rw [hidle (loop.session, e) (Table.mem_rows.mpr he) rfl] at hactive
          cases hactive
  · next hended =>
      obtain rfl := Option.some.inj hstep
      have hidle : e.isActive = false := by
        refine Bool.eq_false_iff.mpr fun hactive => hended ?_
        obtain ⟨p, q, hp, -⟩ := hs.active he hactive
        rw [hactive, hp]
        rfl
      have hdead := hs.idle he (.inl hidle)
      have hcleared := h.clearTimer hdead
      have hscleared := hs.clearTimer loop.session
      have he' : (s.clearTimer loop.session).sessions.get? loop.session
          = some { e with terminalSessionTimer := none } := Table.get?_modify_self _ he
      cases hafter : loop.next with
      | nothing =>
          exact hcleared.removeKill hloop hdead fun userId hclose => by
            rw [hafter] at hclose
            cases hclose
      | command socket session userId command =>
          rw [hafter] at hnext
          have hin := hs.present he (h.waits hloop (by rw [hafter]; rfl) he) hready
          obtain ⟨rfl, rfl, rfl, -⟩ := hnext
          have hremoved := hcleared.removeKill hloop hdead fun userId hclose => by
            rw [hafter] at hclose
            cases hclose
          exact hremoved.runCommand (hscleared.removeKill k) he' hidle hin command
      | close userId =>
          rw [hafter] at hnext
          obtain ⟨rfl, -⟩ := hnext
          refine hcleared.forget hscleared.toKnown he' hdead _
            (fun i loop' hi => (Table.get?_deleteWhere.mp hi).1) fun i loop' hi hne => ?_
          refine Table.get?_deleteWhere.mpr ⟨hi, beq_eq_false_iff_ne.mpr ?_⟩
          rintro rfl
          obtain rfl := Option.some.inj (hloop.symm.trans hi)
          exact hne rfl

/-- A timer that goes off leaves the process to a loop. -/
theorem Tended.onTimeout (h : s.Tended) (hs : s.Sound toLowerCase H)
    (hstep : s.onTimeout toLowerCase t = some s') : s'.Tended := by
  obtain ⟨userId, ht, hstep⟩ := Option.bind_eq_some_iff.mp hstep
  obtain rfl := Option.some.inj hstep
  have hfired : ∀ {s₁ : TerminalServer}, s₁.Tended → s₁.timers = s.timers →
      (∀ p q e, s₁.ptys.get? p = some q → q.alive = true →
        s₁.sessions.get? q.session = some e → e.userId = userId → s₁.IsKilling q.session) →
      Tended { s₁ with timers := s.timers.deleteWhere fun i _ => i == t } := by
    intro s₁ h₁ htimers hkilling
    refine { h₁ with cared := ?_, timed := ?_ }
    · intro p q hq halive
      rcases h₁.cared hq halive with ⟨e, t', he, htimer, harmed⟩ | hkilled
      · by_cases hsame : t' = t
        · rw [hsame, htimers, ht] at harmed
          exact .inr (hkilling p q e hq halive he (Option.some.inj harmed).symm)
        · refine .inl ⟨e, t', he, htimer, Table.get?_deleteWhere.mpr ⟨htimers ▸ harmed, ?_⟩⟩
          simpa using hsame
      · exact .inr hkilled
    · intro c t' e he htimer
      have hbound := h₁.timed he htimer
      rwa [htimers] at hbound
  rw [TerminalServer.killPtyProcess]
  split
  · next hnone =>
      refine hfired h rfl fun p q e hq halive he hid => ?_
      have hin := h.listed hq halive he
      rw [hid] at hin
      cases hnone.symm.trans hin
  · next c hc =>
      obtain ⟨e, he, rfl, -⟩ := hs.entered hc
      split
      · have hkilling := (h.attemptKill c).insertKill ⟨c, 1, .nothing⟩
          fun hnext => by cases hnext
        refine hfired hkilling rfl fun p q e' hq halive he' hid => ?_
        obtain rfl := hs.named he' he hid
        exact ⟨_, _, Table.get?_insert_self .., rfl⟩
      · next hnone =>
          refine hfired h rfl fun p q e' hq halive he' hid => ?_
          obtain rfl := hs.named he' he hid
          obtain ⟨e₀, he₀, -, hp⟩ := hs.alive hq halive
          simp [he₀, hp] at hnone

theorem Tended.step (h : s.Tended) (hs : s.Sound toLowerCase H) {event : TerminalEvent}
    (hcalm : Calm H s event) (hstep : s.step toLowerCase event = some s') : s'.Tended := by
  obtain ⟨⟨-, hhas⟩, htidy⟩ := hcalm
  unfold TerminalServer.step at hstep
  split at hstep
  · cases hstep
  cases event with
  | connect userId =>
      obtain rfl := Option.some.inj hstep
      exact h.connect hs userId
  | message c message =>
      obtain ⟨e, he, hstep⟩ := Option.bind_eq_some_iff.mp hstep
      obtain ⟨he, hopen⟩ := Option.filter_eq_some_iff.mp he
      split at hstep
      · next hready =>
          obtain rfl := Option.some.inj hstep
          have hserving : s.Serving toLowerCase H c e.userId :=
            { hs, h with
              serves := hs.present he hopen hready
              stays := by rw [he, Option.map_some, hopen] }
          exact (hserving.handleMessage hhas).toTended
      · obtain rfl := Option.some.inj hstep
        exact h.modifySession c fun e => ⟨rfl, rfl, id, rfl⟩
  | authorized c ipAddresses =>
      obtain ⟨e, he, hstep⟩ := Option.bind_eq_some_iff.mp hstep
      obtain ⟨he, hfetching⟩ := Option.filter_eq_some_iff.mp he
      obtain rfl := Option.some.inj hstep
      have hopen := h.fetches he hfetching
      have hentered := hs.enter he hhas
      have htended := h.enter hs he hfetching ipAddresses
      have hserving : Serving toLowerCase H _ c e.userId :=
        { hentered, htended with
          serves := Function.update_self ..
          stays := by rw [Table.get?_modify_self _ he, Option.map_some, hopen] }
      exact (hserving.handleMessages fun m hm request hrequest =>
        hs.pending he hm hrequest).toTended
  | refused c =>
      obtain ⟨e, he, hstep⟩ := Option.bind_eq_some_iff.mp hstep
      obtain rfl := Option.some.inj hstep
      exact h.modifySession c fun e => ⟨rfl, rfl, fun hf => (by cases hf), rfl⟩
  | error c =>
      obtain ⟨e, he, hstep⟩ := Option.bind_eq_some_iff.mp hstep
      obtain rfl := Option.some.inj hstep
      exact h.killPtyProcess (fun userId hclose => by cases hclose)
        fun hcommand => by cases hcommand
  | close c => exact h.handleClose hs htidy hstep
  | data p data =>
      obtain ⟨q, hq, hstep⟩ := Option.bind_eq_some_iff.mp hstep
      obtain rfl := Option.some.inj hstep
      exact { h with }
  | exit p => exact h.onExit hs hstep
  | tick k => exact h.afterAttempt hs htidy hstep
  | timeout t => exact h.onTimeout hs hstep

theorem emptyServer_tended : Tended emptyServer where
  cared hq := by cases hq
  listed hq := by cases hq
  listedOpen he := by cases he
  waits hk := by cases hk
  fetches he := by cases he
  timed he := by cases he
  apart he := by cases he

/-- Every live process has a timer or a loop that is going to end it, and the connection it
serves is open or its close is what the loop waits for. -/
def NoneOutlives (s : TerminalServer) : Prop :=
  ∀ p q, s.ptys.get? p = some q → q.alive = true →
    ∃ e, s.sessions.get? q.session = some e ∧
      (e.isOpen = true ∨ s.IsClosing q.session e.userId) ∧
      ((∃ t, e.terminalSessionTimer = some t ∧ s.timers.get? t = some e.userId) ∨
        s.IsKilling q.session)

instance : DecidableRel Tidy := fun s event =>
  match event with
  | .close c => inferInstanceAs (Decidable ((∀ r ∈ s.sessions.rows, r.1 = c →
      r.2.fetching = false) ∧ ∀ r ∈ s.kills.rows, r.2.session = c → r.2.next.isCommand = false))
  | .tick k => inferInstanceAs (Decidable (∀ r ∈ s.kills.rows, r.1 = k →
      r.2.killAttempts < maxAttempts ∨
        ∀ r' ∈ s.sessions.rows, r'.1 = r.2.session → r'.2.isActive = false))
  | .connect _ | .message .. | .authorized .. | .refused _ | .error _ | .data .. | .exit _
  | .timeout _ => isTrue trivial

/-- A connection closes while its hosts are fetched; the command that waits for them is
started afterwards, and its process is left with nobody. -/
theorem outlives_by_late_hosts : ∃ trail u, Runs (step lowerAscii) emptyServer trail u ∧
    (∀ p ∈ trail, p.1.Fresh p.2) ∧ ¬ u.NoneOutlives := by
  obtain ⟨trail, u, hrun, hfresh, hu⟩ := exists_runs_of_execIf (step lowerAscii) Fresh
    [.connect "k3j9x1a7q", .message 1 [.command (terminalCommand "\\abc\necho hi\nabc")],
      .close 1, .authorized 1 [text "10.0.0.5"]] emptyServer
    (fun u => (u.ptys.get? 1).any (fun q => q.alive && q.session == 1) && u.kills.rows.isEmpty &&
      (u.sessions.get? 1).any (!·.isOpen)) (by decide +kernel)
  rw [Bool.and_eq_true, Bool.and_eq_true, Option.any_eq_true, Option.any_eq_true] at hu
  obtain ⟨⟨⟨q, hq, hlive⟩, hnone⟩, e, he, hclosed⟩ := hu
  rw [Bool.and_eq_true, beq_iff_eq] at hlive
  refine ⟨trail, u, hrun, hfresh, fun h => ?_⟩
  obtain ⟨e', he', hopen | ⟨k, loop, hk, -⟩, -⟩ := h 1 q hq hlive.1
  · rw [hlive.2] at he'
    obtain rfl := Option.some.inj (he.symm.trans he')
    rw [hopen] at hclosed
    cases hclosed
  · rw [← Table.mem_rows, List.isEmpty_iff.mp hnone] at hk
    cases hk

end TerminalServer

end OnePloy
