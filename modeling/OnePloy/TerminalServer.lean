import OnePloy.Lib.Reach
import OnePloy.Lib.Table
import OnePloy.TerminalReach
import Mathlib.Logic.Function.Basic

/-!
# The terminal server

`terminal-server.js` runs one event to its end before it takes the next: a socket
opens, sends or closes, the backend answers with the hosts a connection may reach, a
process writes or exits, a timer goes off. What a function does behind an `await` waits
in the state: a connection for its hosts, a loop of `killPtyProcess` for its next
attempt. The clients and the network choose the events.

A session is named by its connection. `verifyClient` has let a client in before it
connects. A message is what the handlers take of it once `JSON.parse` has read it.
-/

namespace OnePloy

open Conc Js

/-! ## Messages -/

/-- A key of a message with its value. -/
inductive TerminalRequest
  | message (data : Utf16)
  | resize (cols rows : Int)
  | pause
  | resume
  | ping
  /-- `force`: the value is `force`. -/
  | checkActive (force : Bool)
  | command (command : Utf16)
  /-- A value that its handler throws on. Nothing catches it and the server ends. -/
  | throwing (whileActive : Bool)
  | unknown
  deriving DecidableEq

def TerminalRequest.needsActive : TerminalRequest → Bool
  | .checkActive _ | .command _ | .ping => false
  | .throwing whileActive => whileActive
  | _ => true

abbrev TerminalMessage := List TerminalRequest

inductive TerminalReply
  | pong
  | active (isActive : Bool)
  | answer (message : Utf16)
  | ptyReady
  | ptyExited
  | data (data : Utf16)
  deriving DecidableEq

/-! ## State -/

structure PtyProcess where
  /-- The session whose `isActive` its exit clears. -/
  session : Nat
  /-- The connection that gets what it writes. -/
  socket : Nat
  arguments : List Utf16
  alive : Bool
  /-- What was written to it, the latest first. -/
  input : List Utf16
  cols : Int
  rows : Int
  paused : Bool

structure TerminalSession where
  userId : String
  /-- The socket has not closed. -/
  isOpen : Bool
  /-- `/terminal/auth/ips` has not answered yet. -/
  fetching : Bool
  ptyProcess : Option Nat
  isActive : Bool
  authorizedIPs : List Utf16
  authReady : Bool
  pendingMessages : List TerminalMessage
  terminalSessionTimer : Option Nat

/-- What goes on behind `await killPtyProcess`. -/
inductive AfterKill
  | nothing
  | command (socket session : Nat) (userId : String) (command : Utf16)
  | close (userId : String)
  deriving DecidableEq

structure KillLoop where
  session : Nat
  killAttempts : Nat
  next : AfterKill

structure TerminalServer where
  sessions : Table TerminalSession
  userSessions : String → Option Nat
  ptys : Table PtyProcess
  kills : Table KillLoop
  /-- The timers of sessions that are armed, with their users. -/
  timers : Table String
  /-- What was sent, and on which connection, the latest first. -/
  sent : List (Nat × TerminalReply)
  /-- Something was thrown that nothing catches. -/
  crashed : Bool

def maxAttempts : Nat := 5

def killCommand : Utf16 := text "set +o history\nkill -TERM -$$ && exit\nset -o history\n"

namespace TerminalServer

/-! ## Sessions and processes -/

/-- A socket that is not open takes nothing. -/
def send (s : TerminalServer) (socket : Nat) (reply : TerminalReply) : TerminalServer :=
  { s with
    sent := if (s.sessions.get? socket).any (·.isOpen) then (socket, reply) :: s.sent
      else s.sent }

def modifySession (s : TerminalServer) (c : Nat) (f : TerminalSession → TerminalSession) :
    TerminalServer :=
  { s with sessions := s.sessions.modify c f }

def modifyPty (s : TerminalServer) (p : Nat) (f : PtyProcess → PtyProcess) : TerminalServer :=
  { s with ptys := s.ptys.modify p f }

def writePty (s : TerminalServer) (p : Nat) (data : Utf16) : TerminalServer :=
  s.modifyPty p fun q => { q with input := data :: q.input }

def clearTimer (s : TerminalServer) (c : Nat) : TerminalServer :=
  { s with
    sessions := s.sessions.modify c ({ · with terminalSessionTimer := none })
    timers := s.timers.deleteWhere fun t _ =>
      (s.sessions.get? c).any (·.terminalSessionTimer == some t) }

def removeKill (s : TerminalServer) (k : Nat) : TerminalServer :=
  { s with kills := s.kills.deleteWhere fun i _ => i == k }

/-- The process of the session, whichever it is by then. -/
def attemptKill (s : TerminalServer) (c : Nat) : TerminalServer :=
  { s with
    ptys := match (s.sessions.get? c).bind (·.ptyProcess) with
      | none => s.ptys
      | some p => (s.writePty p killCommand).ptys }

/-- `pty.spawn` and what `handleCommand` does with the process. -/
def spawn (s : TerminalServer) (socket session : Nat) (userId : String)
    (arguments : List Utf16) : TerminalServer :=
  { s with
    ptys := s.ptys.insert ⟨session, socket, arguments, true, [], 80, 30, false⟩
    timers := s.timers.insert userId
    sessions := s.sessions.modify session ({ · with
      ptyProcess := some s.ptys.nextId
      isActive := true
      terminalSessionTimer := some s.timers.nextId }) }.send socket .ptyReady

/-! ## Handlers -/

section

variable (toLowerCase : Utf16 → Utf16)

/-- `handleCommand` once no process is in its way. -/
def runCommand (s : TerminalServer) (socket session : Nat) (userId : String) (command : Utf16) :
    TerminalServer :=
  let s := s.clearTimer session
  let authorizedIPs := ((s.sessions.get? session).map (·.authorizedIPs)).getD []
  match OnePloy.handleCommand toLowerCase true command authorizedIPs with
  | .answered message => s.send socket (.answer message)
  | .spawned arguments => s.spawn socket session userId arguments

def afterKill (s : TerminalServer) (result : Bool) : AfterKill → TerminalServer
  | .nothing => s
  | .command socket session userId command =>
      if result then s.runCommand toLowerCase socket session userId command
      else s.send socket (.answer (text "unprocessable"))
  | .close userId => { s with userSessions := Function.update s.userSessions userId none }

def killPtyProcess (s : TerminalServer) (userId : String) (next : AfterKill) : TerminalServer :=
  match s.userSessions userId with
  | none => s.afterKill toLowerCase false next
  | some c =>
      if ((s.sessions.get? c).bind (·.ptyProcess)).isSome then
        { s.attemptKill c with kills := s.kills.insert ⟨c, 1, next⟩ }
      else s.afterKill toLowerCase false next

def handleCommand (s : TerminalServer) (socket : Nat) (userId : String) (command : Utf16) :
    TerminalServer :=
  match s.userSessions userId with
  | none => { s with crashed := true }
  | some c =>
      if (s.sessions.get? c).any (·.isActive) then
        s.killPtyProcess toLowerCase userId (.command socket c userId command)
      else s.runCommand toLowerCase socket c userId command

/-- `messageHandlers`. -/
def handleRequest (c : Nat) (s : TerminalServer) (request : TerminalRequest) : TerminalServer :=
  match s.sessions.get? c with
  | none => s
  | some e =>
      if request.needsActive && !e.isActive then s
      else
        match request with
        | .message data => e.ptyProcess.elim s fun p => s.writePty p data
        | .resize cols rows => e.ptyProcess.elim s fun p => s.modifyPty p ({ · with
            cols := if 0 < cols then cols else 80
            rows := if 0 < rows then rows else 30 })
        | .pause => e.ptyProcess.elim s fun p => s.modifyPty p ({ · with paused := true })
        | .resume => e.ptyProcess.elim s fun p => s.modifyPty p ({ · with paused := false })
        | .ping => s.send c .pong
        | .checkActive force =>
            if force && e.isActive then s.killPtyProcess toLowerCase e.userId .nothing
            else s.send c (.active e.isActive)
        | .command command => s.handleCommand toLowerCase c e.userId command
        | .throwing _ => { s with crashed := true }
        | .unknown => s

def handleMessage (c : Nat) (s : TerminalServer) (message : TerminalMessage) : TerminalServer :=
  message.foldl (handleRequest toLowerCase c) s

end

end TerminalServer

/-! ## Events -/

inductive TerminalEvent
  | connect (userId : String)
  | message (c : Nat) (message : TerminalMessage)
  /-- `/terminal/auth/ips` answers. -/
  | authorized (c : Nat) (ipAddresses : List Utf16)
  /-- The request fails, and the socket is told to close. -/
  | refused (c : Nat)
  | error (c : Nat)
  | close (c : Nat)
  | data (p : Nat) (data : Utf16)
  | exit (p : Nat)
  /-- Half a second after an attempt to kill. -/
  | tick (k : Nat)
  /-- The timer of a session. -/
  | timeout (t : Nat)

namespace TerminalServer

variable (toLowerCase : Utf16 → Utf16)

def connect (s : TerminalServer) (userId : String) : TerminalServer :=
  { s with sessions := s.sessions.insert ⟨userId, true, true, none, false, [], false, [], none⟩ }

def receive (s : TerminalServer) (c : Nat) (message : TerminalMessage) :
    Option TerminalServer := do
  let e ← (s.sessions.get? c).filter (·.isOpen)
  if e.authReady then return s.handleMessage toLowerCase c message
  else return s.modifySession c fun e =>
    { e with pendingMessages := e.pendingMessages ++ [message] }

/-- The session is entered, then the messages that waited are handled. -/
def authorize (s : TerminalServer) (c : Nat) (ipAddresses : List Utf16) :
    Option TerminalServer := do
  let e ← (s.sessions.get? c).filter (·.fetching)
  let s := { s with
    sessions := s.sessions.modify c ({ · with
      fetching := false
      authorizedIPs := ipAddresses
      authReady := true
      pendingMessages := [] })
    userSessions := Function.update s.userSessions e.userId (some c) }
  return e.pendingMessages.foldl (handleMessage toLowerCase c) s

def refuse (s : TerminalServer) (c : Nat) : Option TerminalServer := do
  let _ ← (s.sessions.get? c).filter (·.fetching)
  return s.modifySession c ({ · with fetching := false })

def handleError (s : TerminalServer) (c : Nat) : Option TerminalServer := do
  let e ← (s.sessions.get? c).filter (·.isOpen)
  return s.killPtyProcess toLowerCase e.userId .nothing

def handleClose (s : TerminalServer) (c : Nat) : Option TerminalServer := do
  let e ← (s.sessions.get? c).filter (·.isOpen)
  return (s.modifySession c ({ · with isOpen := false })).killPtyProcess toLowerCase e.userId
    (.close e.userId)

def onData (s : TerminalServer) (p : Nat) (data : Utf16) : Option TerminalServer := do
  let q ← s.ptys.get? p
  return s.send q.socket (.data data)

def onExit (s : TerminalServer) (p : Nat) : Option TerminalServer := do
  let q ← (s.ptys.get? p).filter (·.alive)
  let s := (s.modifyPty p ({ · with alive := false })).send q.socket .ptyExited
  return (s.modifySession q.session ({ · with isActive := false })).clearTimer q.session

/-- The timer between two attempts. -/
def afterAttempt (s : TerminalServer) (k : Nat) : Option TerminalServer := do
  let loop ← s.kills.get? k
  if (s.sessions.get? loop.session).any fun e => e.isActive && e.ptyProcess.isSome then
    if loop.killAttempts < maxAttempts then
      return { s.attemptKill loop.session with
        kills := s.kills.modify k ({ · with killAttempts := loop.killAttempts + 1 }) }
    else return (s.removeKill k).afterKill toLowerCase false loop.next
  else
    return ((s.clearTimer loop.session).removeKill k).afterKill toLowerCase true loop.next

def onTimeout (s : TerminalServer) (t : Nat) : Option TerminalServer := do
  let userId ← s.timers.get? t
  return { s with timers := s.timers.deleteWhere fun i _ => i == t }.killPtyProcess toLowerCase
    userId .nothing

/-- Nothing happens to a server that has ended. -/
def step (s : TerminalServer) (event : TerminalEvent) : Option TerminalServer :=
  if s.crashed then none
  else
    match event with
    | .connect userId => some (s.connect userId)
    | .message c message => s.receive toLowerCase c message
    | .authorized c ipAddresses => s.authorize toLowerCase c ipAddresses
    | .refused c => s.refuse c
    | .error c => s.handleError toLowerCase c
    | .close c => s.handleClose toLowerCase c
    | .data p data => s.onData p data
    | .exit p => s.onExit p
    | .tick k => s.afterAttempt toLowerCase k
    | .timeout t => s.onTimeout toLowerCase t

end TerminalServer

def emptyServer : TerminalServer := ⟨.empty, fun _ => none, .empty, .empty, .empty, [], false⟩

/-! ## What the clients and the backend said -/

/-- What a run took in: what each connection asked for, the hosts it was given, and what
each process wrote. -/
structure TerminalHistory where
  asked : Nat → TerminalRequest → Prop
  hosts : Nat → List Utf16 → Prop
  wrote : Nat → Utf16 → Prop

def historyOf (trail : List (TerminalServer × TerminalEvent)) : TerminalHistory where
  asked c request := ∃ s m, (s, .message c m) ∈ trail ∧ request ∈ m
  hosts c ipAddresses := ∃ s, (s, .authorized c ipAddresses) ∈ trail
  wrote p data := ∃ s, (s, .data p data) ∈ trail

namespace TerminalHistory

variable (H : TerminalHistory) (toLowerCase : Utf16 → Utf16)

/-- The history has the event. -/
def Has : TerminalEvent → Prop
  | .message c message => ∀ request ∈ message, H.asked c request
  | .authorized c ipAddresses => H.hosts c ipAddresses
  | .data p data => H.wrote p data
  | _ => True

/-- The connection of the process asked for it and was allowed it. -/
def Started (q : PtyProcess) : Prop :=
  ∃ command ipAddresses, H.asked q.socket (.command command) ∧ H.hosts q.socket ipAddresses ∧
    handleCommand toLowerCase true command ipAddresses = .spawned q.arguments

/-- What goes on after a kill of the process of `c` goes on with `c`. -/
def Continues (c : Nat) (e : TerminalSession) : AfterKill → Prop
  | .nothing => True
  | .command socket session userId command =>
      socket = c ∧ session = c ∧ userId = e.userId ∧ H.asked c (.command command)
  | .close userId => userId = e.userId ∧ e.isOpen = false

end TerminalHistory

theorem historyOf_has {trail : List (TerminalServer × TerminalEvent)}
    {p : TerminalServer × TerminalEvent} (hp : p ∈ trail) : (historyOf trail).Has p.2 := by
  obtain ⟨s, event⟩ := p
  cases event with
  | message c message => exact fun request hrequest => ⟨s, message, hp, hrequest⟩
  | authorized c ipAddresses => exact ⟨s, hp⟩
  | data p data => exact ⟨s, hp⟩
  | connect | refused | error | close | exit | tick | timeout => trivial

/-! ## What holds between events -/

/-- What no event takes from a session. -/
structure TerminalSession.Keeps (e e' : TerminalSession) : Prop where
  userId : e'.userId = e.userId
  isOpen : e'.isOpen = true → e.isOpen = true
  authorizedIPs : e'.authorizedIPs = e.authorizedIPs
  authReady : e'.authReady = e.authReady

theorem TerminalSession.Keeps.refl (e : TerminalSession) : e.Keeps e := ⟨rfl, id, rfl, rfl⟩

theorem TerminalHistory.Continues.of_same {H : TerminalHistory} {c : Nat}
    {e e' : TerminalSession} {next : AfterKill} (h : H.Continues c e next)
    (hid : e'.userId = e.userId) (hopen : e'.isOpen = true → e.isOpen = true) :
    H.Continues c e' next := by
  cases next with
  | nothing => trivial
  | command socket session userId command =>
      obtain ⟨hsocket, hsession, huser, hasked⟩ := h
      exact ⟨hsocket, hsession, huser.trans hid.symm, hasked⟩
  | close userId =>
      obtain ⟨huser, hclosed⟩ := h
      refine ⟨huser.trans hid.symm, Bool.eq_false_iff.mpr fun hstays => ?_⟩
      rw [hopen hstays] at hclosed
      cases hclosed

namespace TerminalServer

variable {toLowerCase : Utf16 → Utf16} {H : TerminalHistory} {s s' : TerminalServer}
  {c p k t : Nat} {userId : String} {e : TerminalSession} {q : PtyProcess}
  {f : TerminalSession → TerminalSession} {g : PtyProcess → PtyProcess}

/-- The sessions, the Map and the loops fit together. -/
structure Known (H : TerminalHistory) (s : TerminalServer) : Prop where
  named {c c' : Nat} {e e' : TerminalSession} : s.sessions.get? c = some e →
    s.sessions.get? c' = some e' → e.userId = e'.userId → c = c'
  entered {userId : String} {c : Nat} : s.userSessions userId = some c →
    ∃ e, s.sessions.get? c = some e ∧ e.userId = userId ∧ e.authReady = true
  /-- A session stays in the Map for as long as its socket is open. -/
  present {c : Nat} {e : TerminalSession} : s.sessions.get? c = some e → e.isOpen = true →
    e.authReady = true → s.userSessions e.userId = some c
  hosts {c : Nat} {e : TerminalSession} : s.sessions.get? c = some e → e.authReady = true →
    H.hosts c e.authorizedIPs
  pending {c : Nat} {e : TerminalSession} {m : TerminalMessage} {request : TerminalRequest} :
    s.sessions.get? c = some e → m ∈ e.pendingMessages → request ∈ m → H.asked c request
  loops {k : Nat} {loop : KillLoop} : s.kills.get? k = some loop →
    ∃ e, s.sessions.get? loop.session = some e ∧ e.authReady = true ∧
      H.Continues loop.session e loop.next
  crashed : s.crashed = true → ∃ c whileActive, H.asked c (.throwing whileActive)

/-- The processes are those of the sessions, and all they got goes back to what was said. -/
structure Running (toLowerCase : Utf16 → Utf16) (H : TerminalHistory) (s : TerminalServer) :
    Prop where
  current {c p : Nat} {e : TerminalSession} : s.sessions.get? c = some e →
    e.ptyProcess = some p → ∃ q, s.ptys.get? p = some q ∧ q.session = c
  served {p : Nat} {q : PtyProcess} : s.ptys.get? p = some q → q.socket = q.session
  started {p : Nat} {q : PtyProcess} : s.ptys.get? p = some q → H.Started toLowerCase q
  input {p : Nat} {q : PtyProcess} {data : Utf16} : s.ptys.get? p = some q →
    data ∈ q.input → data = killCommand ∨ H.asked q.session (.message data)
  output {c : Nat} {data : Utf16} : (c, .data data) ∈ s.sent →
    ∃ p q, s.ptys.get? p = some q ∧ q.socket = c ∧ H.wrote p data
  /-- `isActive` is what has a live process. -/
  active {c : Nat} {e : TerminalSession} : s.sessions.get? c = some e → e.isActive = true →
    ∃ p q, e.ptyProcess = some p ∧ s.ptys.get? p = some q ∧ q.alive = true
  alive {p : Nat} {q : PtyProcess} : s.ptys.get? p = some q → q.alive = true →
    ∃ e, s.sessions.get? q.session = some e ∧ e.isActive = true ∧ e.ptyProcess = some p

structure Sound (toLowerCase : Utf16 → Utf16) (H : TerminalHistory) (s : TerminalServer) :
    Prop extends Known H s, Running toLowerCase H s

/-! ### Sessions -/

theorem keeps_of_modify {sessions : Table TerminalSession}
    (hkeeps : ∀ e, sessions.get? c = some e → e.Keeps (f e)) {i : Nat} {e' : TerminalSession}
    (he' : (sessions.modify c f).get? i = some e') :
    ∃ e, sessions.get? i = some e ∧ e.Keeps e' := by
  obtain ⟨e, he, rfl⟩ := Table.get?_modify_some.mp he'
  refine ⟨e, he, ?_⟩
  split
  · next hi => exact hkeeps e (hi ▸ he)
  · exact .refl e

theorem keeps_modify {sessions : Table TerminalSession}
    (hkeeps : ∀ e, sessions.get? c = some e → e.Keeps (f e)) {i : Nat}
    (he : sessions.get? i = some e) :
    ∃ e', (sessions.modify c f).get? i = some e' ∧ e.Keeps e' := by
  have he' := Table.get?_modify_of_some c f he
  obtain ⟨e₀, he₀, hkept⟩ := keeps_of_modify hkeeps he'
  obtain rfl := Option.some.inj (he.symm.trans he₀)
  exact ⟨_, he', hkept⟩

theorem Known.modifySession (h : Known H s) (c : Nat)
    (hkeeps : ∀ e, s.sessions.get? c = some e → e.Keeps (f e))
    (hpending : ∀ e, s.sessions.get? c = some e → ∀ m ∈ (f e).pendingMessages,
      ∀ request ∈ m, H.asked c request) :
    Known H (s.modifySession c f) := by
  constructor
  case named =>
    intro i i' e e' he he' hsame
    obtain ⟨e₀, he₀, hkept⟩ := keeps_of_modify hkeeps he
    obtain ⟨e₀', he₀', hkept'⟩ := keeps_of_modify hkeeps he'
    exact h.named he₀ he₀' (hkept.userId.symm.trans (hsame.trans hkept'.userId))
  case entered =>
    intro userId i hi
    obtain ⟨e, he, hid, hready⟩ := h.entered hi
    obtain ⟨e', he', hkept⟩ := keeps_modify hkeeps he
    exact ⟨e', he', hkept.userId.trans hid, hkept.authReady.trans hready⟩
  case present =>
    intro i e' he' hopen hready
    obtain ⟨e, he, hkept⟩ := keeps_of_modify hkeeps he'
    rw [hkept.userId]
    exact h.present he (hkept.isOpen hopen) (hkept.authReady ▸ hready)
  case hosts =>
    intro i e' he' hready
    obtain ⟨e, he, hkept⟩ := keeps_of_modify hkeeps he'
    rw [hkept.authorizedIPs]
    exact h.hosts he (hkept.authReady ▸ hready)
  case pending =>
    intro i e' m request he' hm hrequest
    obtain ⟨e, he, rfl⟩ := Table.get?_modify_some.mp he'
    split at hm
    · next hi =>
        subst hi
        exact hpending e he m hm request hrequest
    · exact h.pending he hm hrequest
  case loops =>
    intro k loop hloop
    obtain ⟨e, he, hready, hnext⟩ := h.loops hloop
    obtain ⟨e', he', hkept⟩ := keeps_modify hkeeps he
    exact ⟨e', he', hkept.authReady.trans hready, hnext.of_same hkept.userId hkept.isOpen⟩
  case crashed => exact h.crashed

theorem Running.modifySession (h : Running toLowerCase H s) (c : Nat)
    (hsame : ∀ e, (f e).ptyProcess = e.ptyProcess ∧ (f e).isActive = e.isActive) :
    Running toLowerCase H (s.modifySession c f) := by
  have hback : ∀ {i e'}, (s.sessions.modify c f).get? i = some e' →
      ∃ e, s.sessions.get? i = some e ∧ e'.ptyProcess = e.ptyProcess ∧
        e'.isActive = e.isActive := by
    intro i e' he'
    obtain ⟨e, he, rfl⟩ := Table.get?_modify_some.mp he'
    refine ⟨e, he, ?_⟩
    split
    · exact hsame e
    · exact ⟨rfl, rfl⟩
  refine { h with current := ?_, active := ?_, alive := ?_ }
  · intro i p e' he' hp
    obtain ⟨e, he, hpty, -⟩ := hback he'
    exact h.current he (hpty ▸ hp)
  · intro i e' he' hactive
    obtain ⟨e, he, hpty, hsame⟩ := hback he'
    rw [hpty]
    exact h.active he (hsame ▸ hactive)
  · intro p q hq halive
    obtain ⟨e, he, hactive, hp⟩ := h.alive hq halive
    have he' := Table.get?_modify_of_some c f he
    obtain ⟨e₀, he₀, hpty, hsame⟩ := hback he'
    obtain rfl := Option.some.inj (he.symm.trans he₀)
    exact ⟨_, he', hsame.trans hactive, hpty.trans hp⟩

theorem Sound.clearTimer (h : s.Sound toLowerCase H) (c : Nat) :
    (s.clearTimer c).Sound toLowerCase H :=
  have hknown := h.toKnown.modifySession c (f := ({ · with terminalSessionTimer := none }))
    (fun _ _ => ⟨rfl, id, rfl, rfl⟩) fun _ he _ hm _ hrequest => h.pending he hm hrequest
  have hrunning := h.toRunning.modifySession c (f := ({ · with terminalSessionTimer := none }))
    fun _ => ⟨rfl, rfl⟩
  { hknown, hrunning with }

/-! ### Processes -/

theorem Running.send (h : Running toLowerCase H s) (c : Nat) {reply : TerminalReply}
    (hdata : ∀ data, reply = .data data →
      ∃ p q, s.ptys.get? p = some q ∧ q.socket = c ∧ H.wrote p data) :
    Running toLowerCase H (s.send c reply) :=
  { h with
    output := by
      intro c' data hsent
      change _ ∈ ite _ _ _ at hsent
      split at hsent
      · rcases List.mem_cons.mp hsent with heq | hbefore
        · obtain ⟨rfl, hreply⟩ := Prod.mk.inj heq
          exact hdata data hreply.symm
        · exact h.output hbefore
      · exact h.output hsent }

theorem Running.modifyPty (h : Running toLowerCase H s) (p : Nat)
    (hkeeps : ∀ q, (g q).session = q.session ∧ (g q).socket = q.socket ∧
      (g q).arguments = q.arguments ∧ (g q).alive = q.alive)
    (hinput : ∀ q, s.ptys.get? p = some q → ∀ data ∈ (g q).input, data ∈ q.input ∨
      data = killCommand ∨ H.asked q.session (.message data)) :
    Running toLowerCase H (s.modifyPty p g) := by
  have hback : ∀ {i q'}, (s.ptys.modify p g).get? i = some q' → ∃ q, s.ptys.get? i = some q ∧
      q'.session = q.session ∧ q'.socket = q.socket ∧ q'.arguments = q.arguments ∧
      q'.alive = q.alive := by
    intro i q' hq'
    obtain ⟨q, hq, rfl⟩ := Table.get?_modify_some.mp hq'
    refine ⟨q, hq, ?_⟩
    split
    · exact hkeeps q
    · exact ⟨rfl, rfl, rfl, rfl⟩
  have hforth : ∀ {i q}, s.ptys.get? i = some q → ∃ q', (s.ptys.modify p g).get? i = some q' ∧
      q'.session = q.session ∧ q'.socket = q.socket ∧ q'.arguments = q.arguments ∧
      q'.alive = q.alive := by
    intro i q hq
    have hq' := Table.get?_modify_of_some p g hq
    obtain ⟨q₀, hq₀, hk⟩ := hback hq'
    obtain rfl := Option.some.inj (hq.symm.trans hq₀)
    exact ⟨_, hq', hk⟩
  constructor
  case current =>
    intro c i e he hi
    obtain ⟨q, hq, hsession⟩ := h.current he hi
    obtain ⟨q', hq', hk⟩ := hforth hq
    exact ⟨q', hq', hk.1.trans hsession⟩
  case served =>
    intro i q' hq'
    obtain ⟨q, hq, hsession, hsocket, -⟩ := hback hq'
    rw [hsocket, hsession, h.served hq]
  case started =>
    intro i q' hq'
    obtain ⟨q, hq, -, hsocket, harguments, -⟩ := hback hq'
    rw [TerminalHistory.Started, hsocket, harguments]
    exact h.started hq
  case input =>
    intro i q' data hq' hdata
    obtain ⟨q, hq, rfl⟩ := Table.get?_modify_some.mp hq'
    split at hdata
    · next hi =>
        rw [if_pos hi, (hkeeps q).1]
        rcases hinput q (hi ▸ hq) data hdata with hbefore | hasked
        · exact h.input hq hbefore
        · exact hasked
    · next hi =>
        rw [if_neg hi]
        exact h.input hq hdata
  case output =>
    intro c data hsent
    obtain ⟨i, q, hq, hsocket, hwrote⟩ := h.output hsent
    obtain ⟨q', hq', hk⟩ := hforth hq
    exact ⟨i, q', hq', hk.2.1.trans hsocket, hwrote⟩
  case active =>
    intro c e he hactive
    obtain ⟨i, q, hi, hq, halive⟩ := h.active he hactive
    obtain ⟨q', hq', hk⟩ := hforth hq
    exact ⟨i, q', hi, hq', hk.2.2.2.trans halive⟩
  case alive =>
    intro i q' hq' halive
    obtain ⟨q, hq, hsession, -, -, hsame⟩ := hback hq'
    rw [hsession]
    exact h.alive hq (hsame ▸ halive)

theorem Running.writePty (h : Running toLowerCase H s) {data : Utf16}
    (hdata : ∀ q, s.ptys.get? p = some q →
      data = killCommand ∨ H.asked q.session (.message data)) :
    Running toLowerCase H (s.writePty p data) := by
  refine h.modifyPty p (fun q => ⟨rfl, rfl, rfl, rfl⟩) fun q hq data' hdata' => ?_
  rcases List.mem_cons.mp hdata' with rfl | hbefore
  · exact .inr (hdata q hq)
  · exact .inl hbefore

/-- The session of the new process had no live one. -/
theorem Running.spawn (h : Running toLowerCase H s) (he : s.sessions.get? c = some e)
    (hidle : e.isActive = false) {arguments : List Utf16} {userId : String}
    (hstarted : ∃ command ipAddresses, H.asked c (.command command) ∧ H.hosts c ipAddresses ∧
      OnePloy.handleCommand toLowerCase true command ipAddresses = .spawned arguments) :
    Running toLowerCase H (s.spawn c c userId arguments) := by
  refine Running.send ?_ c fun data hdata => by cases hdata
  have hpty : ∀ {p q}, s.ptys.get? p = some q →
      (s.ptys.insert ⟨c, c, arguments, true, [], 80, 30, false⟩).get? p = some q :=
    fun hq => Table.get?_insert_of_some _ hq
  have hnew : (s.ptys.insert ⟨c, c, arguments, true, [], 80, 30, false⟩).get? s.ptys.nextId
      = some ⟨c, c, arguments, true, [], 80, 30, false⟩ := Table.get?_insert_self ..
  have hafter : ∀ {p q}, (s.ptys.insert ⟨c, c, arguments, true, [], 80, 30, false⟩).get? p
      = some q → s.ptys.get? p = some q ∨
        p = s.ptys.nextId ∧ q = ⟨c, c, arguments, true, [], 80, 30, false⟩ := by
    intro p q hq
    rw [Table.get?_insert] at hq
    split at hq
    · next hp => exact .inr ⟨hp, (Option.some.inj hq).symm⟩
    · exact .inl hq
  constructor
  case current =>
    intro i p e' he' hp
    obtain ⟨e₀, he₀, rfl⟩ := Table.get?_modify_some.mp he'
    split at hp
    · next hi =>
        obtain rfl := Option.some.inj hp
        exact ⟨_, hnew, hi.symm⟩
    · obtain ⟨q, hq, hsession⟩ := h.current he₀ hp
      exact ⟨q, hpty hq, hsession⟩
  case served =>
    intro p q hq
    rcases hafter hq with hq | ⟨-, rfl⟩
    · exact h.served hq
    · rfl
  case started =>
    intro p q hq
    rcases hafter hq with hq | ⟨-, rfl⟩
    · exact h.started hq
    · exact hstarted
  case input =>
    intro p q data hq hdata
    rcases hafter hq with hq | ⟨-, rfl⟩
    · exact h.input hq hdata
    · cases hdata
  case output =>
    intro c' data hsent
    obtain ⟨p, q, hq, hsocket, hwrote⟩ := h.output hsent
    exact ⟨p, q, hpty hq, hsocket, hwrote⟩
  case active =>
    intro i e' he' hactive
    obtain ⟨e₀, he₀, rfl⟩ := Table.get?_modify_some.mp he'
    by_cases hi : i = c
    · simp only [if_pos hi]
      exact ⟨s.ptys.nextId, _, rfl, hnew, rfl⟩
    · simp only [if_neg hi] at hactive ⊢
      obtain ⟨p, q, hp, hq, halive⟩ := h.active he₀ hactive
      exact ⟨p, q, hp, hpty hq, halive⟩
  case alive =>
    intro p q hq halive
    rcases hafter hq with hq | ⟨rfl, rfl⟩
    · obtain ⟨e', he', hactive, hp⟩ := h.alive hq halive
      have hne : q.session ≠ c := by
        intro hsame
        obtain rfl := Option.some.inj (he.symm.trans (hsame ▸ he'))
        rw [hidle] at hactive
        cases hactive
      exact ⟨e', (Table.get?_modify_ne _ hne).trans he', hactive, hp⟩
    · exact ⟨_, Table.get?_modify_self _ he, rfl, rfl⟩

theorem Running.exit (h : Running toLowerCase H s) (hq : s.ptys.get? p = some q)
    (halive : q.alive = true) :
    Running toLowerCase H ((s.modifyPty p ({ · with alive := false })).modifySession q.session
      ({ · with isActive := false })) := by
  obtain ⟨e, he, -, hp⟩ := h.alive hq halive
  have hforth : ∀ {i q'}, s.ptys.get? i = some q' → i ≠ p →
      (s.ptys.modify p ({ · with alive := false })).get? i = some q' :=
    fun hq' hi => (Table.get?_modify_ne _ hi).trans hq'
  have hback : ∀ {i q'}, (s.ptys.modify p ({ · with alive := false })).get? i = some q' →
      ∃ q₀, s.ptys.get? i = some q₀ ∧ q'.session = q₀.session ∧ q'.socket = q₀.socket ∧
        q'.arguments = q₀.arguments ∧ q'.input = q₀.input ∧
        (q'.alive = true → i ≠ p ∧ q₀.alive = true) := by
    intro i q' hq'
    obtain ⟨q₀, hq₀, rfl⟩ := Table.get?_modify_some.mp hq'
    refine ⟨q₀, hq₀, ?_⟩
    split
    · exact ⟨rfl, rfl, rfl, rfl, fun hdead => by cases hdead⟩
    · next hi => exact ⟨rfl, rfl, rfl, rfl, fun halive => ⟨hi, halive⟩⟩
  have hsome : ∀ {i q'}, s.ptys.get? i = some q' →
      ∃ q₀, (s.ptys.modify p ({ · with alive := false })).get? i = some q₀ ∧
        q₀.session = q'.session ∧ q₀.socket = q'.socket := by
    intro i q' hq'
    refine ⟨_, Table.get?_modify_of_some p _ hq', ?_⟩
    split <;> exact ⟨rfl, rfl⟩
  constructor
  case current =>
    intro i j e' he' hj
    obtain ⟨e₀, he₀, rfl⟩ := Table.get?_modify_some.mp he'
    have hj₀ : e₀.ptyProcess = some j := by
      split at hj <;> exact hj
    obtain ⟨q', hq', hsession⟩ := h.current he₀ hj₀
    obtain ⟨q₀, hq₀, hsame, -⟩ := hsome hq'
    exact ⟨q₀, hq₀, hsame.trans hsession⟩
  case served =>
    intro i q' hq'
    obtain ⟨q₀, hq₀, hsession, hsocket, -⟩ := hback hq'
    rw [hsocket, hsession, h.served hq₀]
  case started =>
    intro i q' hq'
    obtain ⟨q₀, hq₀, -, hsocket, harguments, -⟩ := hback hq'
    rw [TerminalHistory.Started, hsocket, harguments]
    exact h.started hq₀
  case input =>
    intro i q' data hq' hdata
    obtain ⟨q₀, hq₀, hsession, -, -, hinput, -⟩ := hback hq'
    rw [hsession]
    exact h.input hq₀ (hinput ▸ hdata)
  case output =>
    intro c data hsent
    obtain ⟨i, q', hq', hsocket, hwrote⟩ := h.output hsent
    obtain ⟨q₀, hq₀, -, hsame⟩ := hsome hq'
    exact ⟨i, q₀, hq₀, hsame.trans hsocket, hwrote⟩
  case active =>
    intro i e' he' hactive
    obtain ⟨e₀, he₀, rfl⟩ := Table.get?_modify_some.mp he'
    split at hactive
    · cases hactive
    · next hi =>
        simp only [if_neg hi]
        obtain ⟨j, q', hj, hq', halive'⟩ := h.active he₀ hactive
        refine ⟨j, q', hj, hforth hq' ?_, halive'⟩
        -- the process belongs to another session
        rintro rfl
        obtain rfl := Option.some.inj (hq.symm.trans hq')
        obtain ⟨q₀, hq₀, hsession⟩ := h.current he₀ hj
        obtain rfl := Option.some.inj (hq.symm.trans hq₀)
        exact hi hsession.symm
  case alive =>
    intro i q' hq' halive'
    obtain ⟨q₀, hq₀, hsession, -, -, -, hother⟩ := hback hq'
    obtain ⟨hi, halive₀⟩ := hother halive'
    obtain ⟨e₀, he₀, hactive, hj⟩ := h.alive hq₀ halive₀
    rw [hsession]
    have hne : q₀.session ≠ q.session := by
      intro hsame
      obtain rfl := Option.some.inj (he.symm.trans (hsame ▸ he₀))
      exact hi (Option.some.inj (hj.symm.trans hp))
    exact ⟨e₀, (Table.get?_modify_ne _ hne).trans he₀, hactive, hj⟩

/-! ### Loops and the Map -/

theorem Sound.send (h : s.Sound toLowerCase H) (c : Nat) {reply : TerminalReply}
    (hreply : ∀ data, reply ≠ .data data) : (s.send c reply).Sound toLowerCase H :=
  have hrunning := h.toRunning.send c fun data hdata => absurd hdata (hreply data)
  { h.toKnown, hrunning with }

theorem Sound.attemptKill (h : s.Sound toLowerCase H) (c : Nat) :
    (s.attemptKill c).Sound toLowerCase H := by
  rw [TerminalServer.attemptKill]
  split
  · exact h
  · next p _ =>
      have hwritten : Running toLowerCase H (s.writePty p killCommand) :=
        h.toRunning.writePty fun q _ => .inl rfl
      exact { h.toKnown, hwritten with }

theorem Sound.insertKill (h : s.Sound toLowerCase H) {loop : KillLoop}
    (hloop : ∃ e, s.sessions.get? loop.session = some e ∧ e.authReady = true ∧
      H.Continues loop.session e loop.next) :
    Sound toLowerCase H { s with kills := s.kills.insert loop } :=
  { h with
    loops := by
      intro k loop' hloop'
      rw [Table.get?_insert] at hloop'
      split at hloop'
      · obtain rfl := Option.some.inj hloop'
        exact hloop
      · exact h.loops hloop' }

theorem Sound.removeKill (h : s.Sound toLowerCase H) (k : Nat) :
    (s.removeKill k).Sound toLowerCase H :=
  { h with loops := fun hloop => h.loops (Table.get?_deleteWhere.mp hloop).1 }

theorem Sound.countKill (h : s.Sound toLowerCase H) (k killAttempts : Nat) :
    Sound toLowerCase H
      { s with kills := s.kills.modify k ({ · with killAttempts := killAttempts }) } :=
  { h with
    loops := by
      intro i loop' hloop'
      obtain ⟨loop, hloop, rfl⟩ := Table.get?_modify_some.mp hloop'
      have hbefore := h.loops hloop
      split <;> exact hbefore }

/-- The session of a socket that has closed leaves the Map. -/
theorem Sound.forget (h : s.Sound toLowerCase H) (he : s.sessions.get? c = some e)
    (hclosed : e.isOpen = false) :
    Sound toLowerCase H
      { s with userSessions := Function.update s.userSessions e.userId none } := by
  refine { h with entered := ?_, present := ?_ }
  · intro userId i hi
    by_cases hsame : userId = e.userId
    · simp [hsame] at hi
    · simp only [Function.update_of_ne hsame] at hi
      exact h.entered hi
  · intro i e' he' hopen hready
    have hother : e'.userId ≠ e.userId := by
      intro hsame
      obtain rfl := h.named he' he hsame
      obtain rfl := Option.some.inj (he.symm.trans he')
      rw [hclosed] at hopen
      cases hopen
    simp only [Function.update_of_ne hother]
    exact h.present he' hopen hready

/-! ### Handlers -/

theorem Sound.runCommand (h : s.Sound toLowerCase H) (he : s.sessions.get? c = some e)
    (hready : e.authReady = true) (hidle : e.isActive = false) {command : Utf16}
    (hasked : H.asked c (.command command)) :
    (s.runCommand toLowerCase c c userId command).Sound toLowerCase H := by
  have hcleared := h.clearTimer c
  have he' : (s.clearTimer c).sessions.get? c = some { e with terminalSessionTimer := none } :=
    Table.get?_modify_self _ he
  rw [TerminalServer.runCommand]
  simp only [he', Option.map_some, Option.getD_some]
  split
  · exact hcleared.send c fun data hdata => by cases hdata
  · next arguments harguments =>
      have hknown := hcleared.toKnown.modifySession c
        (f := ({ · with
          ptyProcess := some s.ptys.nextId
          isActive := true
          terminalSessionTimer := some s.timers.nextId }))
        (fun _ _ => ⟨rfl, id, rfl, rfl⟩) fun _ he _ hm _ hrequest => hcleared.pending he hm hrequest
      have hrunning : Running toLowerCase H ((s.clearTimer c).spawn c c userId arguments) :=
        hcleared.toRunning.spawn he' hidle
          ⟨command, e.authorizedIPs, hasked, h.hosts he hready, harguments⟩
      exact { hknown, hrunning with }

theorem Sound.afterKill (h : s.Sound toLowerCase H) (he : s.sessions.get? c = some e)
    {result : Bool} (hresult : result = true → e.authReady = true ∧ e.isActive = false)
    {next : AfterKill} (hnext : H.Continues c e next) :
    (s.afterKill toLowerCase result next).Sound toLowerCase H := by
  cases next with
  | nothing => exact h
  | command socket session userId command =>
      obtain ⟨rfl, rfl, rfl, hasked⟩ := hnext
      rw [TerminalServer.afterKill]
      split
      · next hkilled =>
          obtain ⟨hready, hidle⟩ := hresult hkilled
          exact h.runCommand he hready hidle hasked
      · exact h.send _ fun data hdata => by cases hdata
  | close userId =>
      obtain ⟨rfl, hclosed⟩ := hnext
      exact h.forget he hclosed

theorem Sound.killPtyProcess (h : s.Sound toLowerCase H) (he : s.sessions.get? c = some e)
    {next : AfterKill} (hnext : H.Continues c e next) :
    (s.killPtyProcess toLowerCase e.userId next).Sound toLowerCase H := by
  have hfailed : (s.afterKill toLowerCase false next).Sound toLowerCase H :=
    h.afterKill he (fun hkilled => by cases hkilled) hnext
  rw [TerminalServer.killPtyProcess]
  split
  · exact hfailed
  · next c' hc' =>
      obtain ⟨e', he', hid, hready⟩ := h.entered hc'
      obtain rfl := h.named he' he hid
      obtain rfl := Option.some.inj (he.symm.trans he')
      split
      · exact (h.attemptKill c').insertKill ⟨e, he, hready, hnext⟩
      · exact hfailed

theorem Sound.handleCommand (h : s.Sound toLowerCase H) (he : s.sessions.get? c = some e)
    (hc : s.userSessions e.userId = some c) {command : Utf16}
    (hasked : H.asked c (.command command)) :
    (s.handleCommand toLowerCase c e.userId command).Sound toLowerCase H := by
  obtain ⟨e', he', -, hready⟩ := h.entered hc
  obtain rfl := Option.some.inj (he.symm.trans he')
  rw [TerminalServer.handleCommand, hc]
  simp only [he, Option.any_some]
  split
  · exact h.killPtyProcess he ⟨rfl, rfl, rfl, hasked⟩
  · next hidle => exact h.runCommand he hready (Bool.eq_false_iff.mpr hidle) hasked

theorem Sound.tune (h : s.Sound toLowerCase H) (p : Option Nat)
    (hkeeps : ∀ q, (g q).session = q.session ∧ (g q).socket = q.socket ∧
      (g q).arguments = q.arguments ∧ (g q).alive = q.alive ∧ (g q).input = q.input) :
    (p.elim s fun p => s.modifyPty p g).Sound toLowerCase H := by
  cases p with
  | none => exact h
  | some p =>
      have htuned := h.toRunning.modifyPty p (g := g)
        (fun q => ⟨(hkeeps q).1, (hkeeps q).2.1, (hkeeps q).2.2.1, (hkeeps q).2.2.2.1⟩)
        fun q _ data hdata => .inl ((hkeeps q).2.2.2.2 ▸ hdata)
      exact { h.toKnown, htuned with }

theorem Sound.handleRequest (h : s.Sound toLowerCase H) (hc : s.userSessions userId = some c)
    {request : TerminalRequest} (hasked : H.asked c request) :
    (s.handleRequest toLowerCase c request).Sound toLowerCase H := by
  obtain ⟨e, he, rfl, -⟩ := h.entered hc
  rw [TerminalServer.handleRequest, he]
  simp only
  split
  · exact h
  · cases request with
    | message data =>
        cases hp : e.ptyProcess with
        | none => exact h
        | some p =>
            have hwritten : Running toLowerCase H (s.writePty p data) :=
              h.toRunning.writePty fun q hq => by
                obtain ⟨q', hq', hsession⟩ := h.current he hp
                obtain rfl := Option.some.inj (hq.symm.trans hq')
                exact .inr (hsession ▸ hasked)
            exact { h.toKnown, hwritten with }
    | resize cols rows => exact h.tune e.ptyProcess fun q => ⟨rfl, rfl, rfl, rfl, rfl⟩
    | pause => exact h.tune e.ptyProcess fun q => ⟨rfl, rfl, rfl, rfl, rfl⟩
    | resume => exact h.tune e.ptyProcess fun q => ⟨rfl, rfl, rfl, rfl, rfl⟩
    | ping => exact h.send c fun data hdata => by cases hdata
    | checkActive force =>
        simp only
        split
        · exact h.killPtyProcess he trivial
        · exact h.send c fun data hdata => by cases hdata
    | command command => exact h.handleCommand he hc hasked
    | throwing whileActive => exact { h with crashed := fun _ => ⟨c, whileActive, hasked⟩ }
    | unknown => exact h

/-! The Map loses a session only behind a close. -/

@[simp] theorem userSessions_runCommand (command : Utf16) (socket session : Nat) :
    (s.runCommand toLowerCase socket session userId command).userSessions = s.userSessions := by
  rw [TerminalServer.runCommand]
  split <;> rfl

theorem userSessions_afterKill (result : Bool) {next : AfterKill}
    (hnext : ∀ userId, next ≠ .close userId) :
    (s.afterKill toLowerCase result next).userSessions = s.userSessions := by
  cases next with
  | nothing => rfl
  | command socket session userId command =>
      rw [afterKill]
      split
      · exact userSessions_runCommand ..
      · rfl
  | close userId => exact absurd rfl (hnext userId)

theorem userSessions_killPtyProcess {next : AfterKill} (hnext : ∀ userId, next ≠ .close userId) :
    (s.killPtyProcess toLowerCase userId next).userSessions = s.userSessions := by
  rw [TerminalServer.killPtyProcess]
  split
  · exact userSessions_afterKill _ hnext
  · split
    · rfl
    · exact userSessions_afterKill _ hnext

theorem userSessions_handleRequest (request : TerminalRequest) :
    (s.handleRequest toLowerCase c request).userSessions = s.userSessions := by
  rw [TerminalServer.handleRequest]
  split
  · rfl
  · next e _ =>
    split
    · rfl
    · cases request with
      | message | resize | pause | resume => cases e.ptyProcess <;> rfl
      | ping | throwing | unknown => rfl
      | checkActive force =>
          simp only
          split
          · exact userSessions_killPtyProcess fun userId hclose => by cases hclose
          · rfl
      | command command =>
          simp only [TerminalServer.handleCommand]
          split
          · rfl
          · split
            · exact userSessions_killPtyProcess fun userId hclose => by cases hclose
            · exact userSessions_runCommand ..

theorem Sound.handleMessage (h : s.Sound toLowerCase H) (hc : s.userSessions userId = some c)
    {message : TerminalMessage} (hasked : ∀ request ∈ message, H.asked c request) :
    (s.handleMessage toLowerCase c message).Sound toLowerCase H ∧
      (s.handleMessage toLowerCase c message).userSessions userId = some c := by
  induction message generalizing s with
  | nil => exact ⟨h, hc⟩
  | cons request message ih =>
      rw [List.forall_mem_cons] at hasked
      exact ih (h.handleRequest hc hasked.1) ((congrFun (userSessions_handleRequest _) _).trans hc)
        hasked.2

theorem Sound.handleMessages (h : s.Sound toLowerCase H) (hc : s.userSessions userId = some c)
    {messages : List TerminalMessage}
    (hasked : ∀ m ∈ messages, ∀ request ∈ m, H.asked c request) :
    (messages.foldl (TerminalServer.handleMessage toLowerCase c) s).Sound toLowerCase H := by
  induction messages generalizing s with
  | nil => exact h
  | cons m messages ih =>
      rw [List.forall_mem_cons] at hasked
      obtain ⟨hhandled, hc'⟩ := h.handleMessage hc hasked.1
      exact ih hhandled hc' hasked.2

/-! ### Events -/

/-- No identifier is drawn twice. -/
def Fresh (s : TerminalServer) : TerminalEvent → Prop
  | .connect userId => ∀ r ∈ s.sessions.rows, r.2.userId ≠ userId
  | _ => True

instance : DecidableRel Fresh := fun s event =>
  match event with
  | .connect userId => inferInstanceAs (Decidable (∀ r ∈ s.sessions.rows, r.2.userId ≠ userId))
  | .message .. | .authorized .. | .refused _ | .error _ | .close _ | .data .. | .exit _
  | .tick _ | .timeout _ => isTrue trivial

def Heard (H : TerminalHistory) (s : TerminalServer) (event : TerminalEvent) : Prop :=
  s.Fresh event ∧ H.Has event

theorem Sound.connect (h : s.Sound toLowerCase H) (hfresh : s.Fresh (.connect userId)) :
    (s.connect userId).Sound toLowerCase H := by
  have hafter : ∀ {i e'}, (s.connect userId).sessions.get? i = some e' →
      s.sessions.get? i = some e' ∨ i = s.sessions.nextId ∧
        e' = ⟨userId, true, true, none, false, [], false, [], none⟩ := by
    intro i e' he'
    rw [TerminalServer.connect, Table.get?_insert] at he'
    split at he'
    · next hi => exact .inr ⟨hi, (Option.some.inj he').symm⟩
    · exact .inl he'
  have hsome : ∀ {i e'}, s.sessions.get? i = some e' →
      (s.connect userId).sessions.get? i = some e' := fun he' => Table.get?_insert_of_some _ he'
  refine { h with
    named := ?_, entered := ?_, present := ?_, hosts := ?_, pending := ?_, loops := ?_
    current := ?_, active := ?_, alive := ?_ }
  · intro i i' e e' he he' hsame
    rcases hafter he with he | ⟨rfl, rfl⟩ <;> rcases hafter he' with he' | ⟨rfl, rfl⟩
    · exact h.named he he' hsame
    · exact absurd hsame (hfresh _ (Table.mem_rows.mpr he))
    · exact absurd hsame.symm (hfresh _ (Table.mem_rows.mpr he'))
    · rfl
  · intro userId' i hi
    obtain ⟨e, he, hid, hready⟩ := h.entered hi
    exact ⟨e, hsome he, hid, hready⟩
  · intro i e he hopen hready
    rcases hafter he with he | ⟨-, rfl⟩
    · exact h.present he hopen hready
    · cases hready
  · intro i e he hready
    rcases hafter he with he | ⟨-, rfl⟩
    · exact h.hosts he hready
    · cases hready
  · intro i e m request he hm hrequest
    rcases hafter he with he | ⟨-, rfl⟩
    · exact h.pending he hm hrequest
    · cases hm
  · intro k loop hloop
    obtain ⟨e, he, hnext⟩ := h.loops hloop
    exact ⟨e, hsome he, hnext⟩
  · intro i p e he hp
    rcases hafter he with he | ⟨-, rfl⟩
    · exact h.current he hp
    · cases hp
  · intro i e he hactive
    rcases hafter he with he | ⟨-, rfl⟩
    · exact h.active he hactive
    · cases hactive
  · intro p q hq halive
    obtain ⟨e, he, hactive⟩ := h.alive hq halive
    exact ⟨e, hsome he, hactive⟩

theorem Sound.enter (h : s.Sound toLowerCase H) (he : s.sessions.get? c = some e)
    {ipAddresses : List Utf16} (hhosts : H.hosts c ipAddresses) :
    Sound toLowerCase H { s with
      sessions := s.sessions.modify c ({ · with
        fetching := false
        authorizedIPs := ipAddresses
        authReady := true
        pendingMessages := [] })
      userSessions := Function.update s.userSessions e.userId (some c) } := by
  have hback : ∀ {i e'}, (s.sessions.modify c ({ · with
      fetching := false
      authorizedIPs := ipAddresses
      authReady := true
      pendingMessages := [] })).get? i = some e' → ∃ e₀, s.sessions.get? i = some e₀ ∧
        e'.userId = e₀.userId ∧ e'.isOpen = e₀.isOpen ∧
        (i = c ∧ e'.authorizedIPs = ipAddresses ∧ e'.pendingMessages = [] ∨
          i ≠ c ∧ e'.authReady = e₀.authReady ∧ e'.authorizedIPs = e₀.authorizedIPs ∧
            e'.pendingMessages = e₀.pendingMessages) := by
    intro i e' he'
    obtain ⟨e₀, he₀, rfl⟩ := Table.get?_modify_some.mp he'
    refine ⟨e₀, he₀, ?_⟩
    split
    · next hi => exact ⟨rfl, rfl, .inl ⟨hi, rfl, rfl⟩⟩
    · next hi => exact ⟨rfl, rfl, .inr ⟨hi, rfl, rfl, rfl⟩⟩
  have hrunning := h.toRunning.modifySession c
    (f := ({ · with
      fetching := false
      authorizedIPs := ipAddresses
      authReady := true
      pendingMessages := [] })) fun _ => ⟨rfl, rfl⟩
  refine { hrunning with
    named := ?_, entered := ?_, present := ?_, hosts := ?_, pending := ?_, loops := ?_
    crashed := h.crashed }
  · intro i i' e₁ e₂ he₁ he₂ hsame
    obtain ⟨e₁', he₁', hid₁, -⟩ := hback he₁
    obtain ⟨e₂', he₂', hid₂, -⟩ := hback he₂
    exact h.named he₁' he₂' (hid₁.symm.trans (hsame.trans hid₂))
  · intro userId i hi
    by_cases hsame : userId = e.userId
    · rw [hsame] at hi ⊢
      simp only [Function.update_self] at hi
      obtain rfl := Option.some.inj hi
      exact ⟨_, Table.get?_modify_self _ he, rfl, rfl⟩
    · simp only [Function.update_of_ne hsame] at hi
      obtain ⟨e', he', hid, hready⟩ := h.entered hi
      refine ⟨_, Table.get?_modify_of_some c _ he', ?_⟩
      split
      · exact ⟨hid, rfl⟩
      · exact ⟨hid, hready⟩
  · intro i e' he' hopen hready
    obtain ⟨e₀, he₀, hid, hsame, ⟨rfl, -⟩ | ⟨hi, hwas, -⟩⟩ := hback he'
    · obtain rfl := Option.some.inj (he.symm.trans he₀)
      simp [hid]
    · have hother : e'.userId ≠ e.userId := fun heq => hi (h.named he₀ he (hid.symm.trans heq))
      simp only [Function.update_of_ne hother]
      rw [hid]
      exact h.present he₀ (hsame ▸ hopen) (hwas ▸ hready)
  · intro i e' he' hready
    obtain ⟨e₀, he₀, -, -, ⟨rfl, hips, -⟩ | ⟨-, hwas, hips, -⟩⟩ := hback he'
    · rw [hips]
      exact hhosts
    · rw [hips]
      exact h.hosts he₀ (hwas ▸ hready)
  · intro i e' m request he' hm hrequest
    obtain ⟨e₀, he₀, -, -, ⟨-, -, hnone⟩ | ⟨-, -, -, hpending⟩⟩ := hback he'
    · rw [hnone] at hm
      cases hm
    · exact h.pending he₀ (hpending ▸ hm) hrequest
  · intro k loop hloop
    obtain ⟨e', he', hready, hnext⟩ := h.loops hloop
    refine ⟨_, Table.get?_modify_of_some c _ he', ?_⟩
    split
    · exact ⟨rfl, hnext.of_same rfl id⟩
    · exact ⟨hready, hnext⟩

theorem Sound.receive (h : s.Sound toLowerCase H) {message : TerminalMessage}
    (hasked : ∀ request ∈ message, H.asked c request)
    (hstep : s.receive toLowerCase c message = some s') : s'.Sound toLowerCase H := by
  obtain ⟨e, he, hstep⟩ := Option.bind_eq_some_iff.mp hstep
  obtain ⟨he, hopen⟩ := Option.filter_eq_some_iff.mp he
  split at hstep
  · next hready =>
      obtain rfl := Option.some.inj hstep
      exact (h.handleMessage (h.present he hopen hready) hasked).1
  · obtain rfl := Option.some.inj hstep
    have hknown := h.toKnown.modifySession c
      (f := fun e => { e with pendingMessages := e.pendingMessages ++ [message] })
      (fun _ _ => ⟨rfl, id, rfl, rfl⟩) fun e' he' m hm request hrequest => by
        rcases List.mem_append.mp hm with hbefore | hnew
        · exact h.pending he' hbefore hrequest
        · rw [List.mem_singleton.mp hnew] at hrequest
          exact hasked request hrequest
    have hrunning := h.toRunning.modifySession c
      (f := fun e => { e with pendingMessages := e.pendingMessages ++ [message] })
      fun _ => ⟨rfl, rfl⟩
    exact { hknown, hrunning with }

theorem Sound.authorize (h : s.Sound toLowerCase H) {ipAddresses : List Utf16}
    (hhosts : H.hosts c ipAddresses) (hstep : s.authorize toLowerCase c ipAddresses = some s') :
    s'.Sound toLowerCase H := by
  obtain ⟨e, he, hstep⟩ := Option.bind_eq_some_iff.mp hstep
  obtain ⟨he, -⟩ := Option.filter_eq_some_iff.mp he
  obtain rfl := Option.some.inj hstep
  exact (h.enter he hhosts).handleMessages (Function.update_self e.userId (some c) s.userSessions)
    fun m hm request hrequest => h.pending he hm hrequest

/-- The user may be gone. -/
theorem Sound.kill (h : s.Sound toLowerCase H) (userId : String) :
    (s.killPtyProcess toLowerCase userId .nothing).Sound toLowerCase H := by
  cases hc : s.userSessions userId with
  | none =>
      rw [TerminalServer.killPtyProcess, hc]
      exact h
  | some c =>
      obtain ⟨e, he, rfl, -⟩ := h.entered hc
      exact h.killPtyProcess he trivial

theorem Sound.handleClose (h : s.Sound toLowerCase H)
    (hstep : s.handleClose toLowerCase c = some s') : s'.Sound toLowerCase H := by
  obtain ⟨e, he, hstep⟩ := Option.bind_eq_some_iff.mp hstep
  obtain ⟨he, -⟩ := Option.filter_eq_some_iff.mp he
  obtain rfl := Option.some.inj hstep
  have hknown := h.toKnown.modifySession c (f := ({ · with isOpen := false }))
    (fun _ _ => ⟨rfl, fun hopen => (by cases hopen), rfl, rfl⟩)
    fun _ he _ hm _ hrequest => h.pending he hm hrequest
  have hrunning := h.toRunning.modifySession c (f := ({ · with isOpen := false }))
    fun _ => ⟨rfl, rfl⟩
  have hclosed : Sound toLowerCase H (s.modifySession c ({ · with isOpen := false })) :=
    { hknown, hrunning with }
  exact hclosed.killPtyProcess (e := { e with isOpen := false }) (Table.get?_modify_self _ he)
    ⟨rfl, rfl⟩

theorem Sound.exited (h : s.Sound toLowerCase H) (hq : s.ptys.get? p = some q)
    (halive : q.alive = true) :
    Sound toLowerCase H (((s.modifyPty p ({ · with alive := false })).send q.socket
      .ptyExited).modifySession q.session ({ · with isActive := false })) :=
  have hsent : (s.send q.socket .ptyExited).Sound toLowerCase H :=
    h.send q.socket fun data hdata => by cases hdata
  have hknown := hsent.toKnown.modifySession q.session (f := ({ · with isActive := false }))
    (fun _ _ => ⟨rfl, id, rfl, rfl⟩) fun _ he _ hm _ hrequest => h.pending he hm hrequest
  have hrunning := hsent.toRunning.exit hq halive
  { hknown, hrunning with }

theorem Sound.afterAttempt (h : s.Sound toLowerCase H)
    (hstep : s.afterAttempt toLowerCase k = some s') : s'.Sound toLowerCase H := by
  obtain ⟨loop, hloop, hstep⟩ := Option.bind_eq_some_iff.mp hstep
  obtain ⟨e, he, hready, hnext⟩ := h.loops hloop
  simp only [he, Option.any_some] at hstep
  split at hstep
  · split at hstep
    · obtain rfl := Option.some.inj hstep
      exact (h.attemptKill loop.session).countKill k _
    · obtain rfl := Option.some.inj hstep
      exact (h.removeKill k).afterKill he (fun hkilled => by cases hkilled) hnext
  · next hended =>
      obtain rfl := Option.some.inj hstep
      have hidle : e.isActive = false := by
        refine Bool.eq_false_iff.mpr fun hactive => hended ?_
        obtain ⟨p, q, hp, -⟩ := h.active he hactive
        rw [hactive, hp]
        rfl
      exact ((h.clearTimer loop.session).removeKill k).afterKill
        (e := { e with terminalSessionTimer := none }) (Table.get?_modify_self _ he)
        (fun _ => ⟨hready, hidle⟩) (hnext.of_same rfl id)

theorem Sound.step (h : s.Sound toLowerCase H) {event : TerminalEvent}
    (hheard : Heard H s event) (hstep : s.step toLowerCase event = some s') :
    s'.Sound toLowerCase H := by
  obtain ⟨hfresh, hhas⟩ := hheard
  unfold TerminalServer.step at hstep
  split at hstep
  · cases hstep
  cases event with
  | connect userId =>
      obtain rfl := Option.some.inj hstep
      exact h.connect hfresh
  | message c message => exact h.receive hhas hstep
  | authorized c ipAddresses => exact h.authorize hhas hstep
  | refused c =>
      obtain ⟨e, he, hstep⟩ := Option.bind_eq_some_iff.mp hstep
      obtain rfl := Option.some.inj hstep
      have hknown := h.toKnown.modifySession c (f := ({ · with fetching := false }))
        (fun _ _ => ⟨rfl, id, rfl, rfl⟩) fun _ he _ hm _ hrequest => h.pending he hm hrequest
      have hrunning := h.toRunning.modifySession c (f := ({ · with fetching := false }))
        fun _ => ⟨rfl, rfl⟩
      exact { hknown, hrunning with }
  | error c =>
      obtain ⟨e, he, hstep⟩ := Option.bind_eq_some_iff.mp hstep
      obtain rfl := Option.some.inj hstep
      exact h.kill e.userId
  | close c => exact h.handleClose hstep
  | data p data =>
      obtain ⟨q, hq, hstep⟩ := Option.bind_eq_some_iff.mp hstep
      obtain rfl := Option.some.inj hstep
      have hrunning : Running toLowerCase H (s.send q.socket (.data data)) :=
        h.toRunning.send q.socket fun data' hdata => by
          obtain rfl := TerminalReply.data.inj hdata
          exact ⟨p, q, hq, rfl, hhas⟩
      exact { h.toKnown, hrunning with }
  | exit p =>
      obtain ⟨q, hq, hstep⟩ := Option.bind_eq_some_iff.mp hstep
      obtain ⟨hq, halive⟩ := Option.filter_eq_some_iff.mp hq
      obtain rfl := Option.some.inj hstep
      exact (h.exited hq halive).clearTimer q.session
  | tick k => exact h.afterAttempt hstep
  | timeout t =>
      obtain ⟨userId, -, hstep⟩ := Option.bind_eq_some_iff.mp hstep
      obtain rfl := Option.some.inj hstep
      have hfired : Sound toLowerCase H
          { s with timers := s.timers.deleteWhere fun i _ => i == t } := { h with }
      exact hfired.kill userId

theorem emptyServer_sound : Sound toLowerCase H emptyServer where
  named he := by cases he
  entered hc := by cases hc
  present he := by cases he
  hosts he := by cases he
  pending he := by cases he
  loops hloop := by cases hloop
  crashed hcrashed := by cases hcrashed
  current he := by cases he
  served hq := by cases hq
  started hq := by cases hq
  input hq := by cases hq
  output hsent := by cases hsent
  active he := by cases he
  alive hq := by cases hq

theorem sound_of_run {trail : List (TerminalServer × TerminalEvent)}
    (hrun : Runs (step toLowerCase) emptyServer trail s)
    (hfresh : ∀ p ∈ trail, p.1.Fresh p.2) : s.Sound toLowerCase (historyOf trail) :=
  have hheard : ∀ p ∈ trail, Heard (historyOf trail) p.1 p.2 :=
    fun p hp => ⟨hfresh p hp, historyOf_has hp⟩
  (hrun.throughout (fun _ _ _ h hok hstep => h.step hok hstep) emptyServer_sound hheard).2

/-! ## What a run comes to -/

/-- A process is one that its connection asked for and the hosts of the connection allowed,
it is told nothing but what its connection sends and how to end, and a connection hears
only its own processes. -/
def AskedFor (toLowerCase : Utf16 → Utf16) (H : TerminalHistory) (s : TerminalServer) : Prop :=
  (∀ p q, s.ptys.get? p = some q →
    (∃ command ipAddresses, H.asked q.socket (.command command) ∧
      H.hosts q.socket ipAddresses ∧
      OnePloy.handleCommand toLowerCase true command ipAddresses = .spawned q.arguments) ∧
    ∀ data ∈ q.input, data = killCommand ∨ H.asked q.socket (.message data)) ∧
  ∀ c data, (c, .data data) ∈ s.sent →
    ∃ p q, s.ptys.get? p = some q ∧ q.socket = c ∧ H.wrote p data

/-- A command that waits for the hosts, input to its process and what it writes. -/
def openTerminal : List TerminalEvent :=
  [.connect "k3j9x1a7q", .message 1 [.command (terminalCommand "\\abc\necho hi\nabc")],
    .authorized 1 [text "10.0.0.5"], .message 1 [.message (text "ls")], .data 1 (text "$ ")]

/-- A connection has one live process at most, and `isActive` says whether it has one. -/
def OneLive (s : TerminalServer) : Prop :=
  ∀ c e, s.sessions.get? c = some e →
    (e.isActive = true ↔ ∃ p q, s.ptys.get? p = some q ∧ q.session = c ∧ q.alive = true) ∧
    ∀ p p' q q', s.ptys.get? p = some q → q.session = c → q.alive = true →
      s.ptys.get? p' = some q' → q'.session = c → q'.alive = true → p = p'

end TerminalServer

end OnePloy
