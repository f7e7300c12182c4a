import OnePloy.Lib.JsText

/-!
# TerminalCommand

How the terminal server takes the command apart that the browser sends, and what it
starts. The arguments of ssh and the here-document are looked for in the text, the
arguments are checked one after the other, and the here-document is put behind them.
-/

namespace OnePloy

open Js

/-! ## Arguments -/

/-- `normalizeShellArgument`. -/
def normalizeShellArgument (argument : Utf16) : Utf16 :=
  unquote (unit '"') none (unquote (unit '\'') none argument)

/-- `(.+?) 'bash -se'`, matched here. -/
def upToShell (s : Utf16) : Option Utf16 :=
  match s with
  | [] => none
  | first :: rest =>
      match splitAt? (text " 'bash -se'") rest with
      | none => none
      | some (before, _) =>
          if (first :: before).any isLineTerminator then none else some (first :: before)

/-- `$1` of `/ssh (.+?) 'bash -se'/`. -/
def sshCommandMatch : Utf16 → Option Utf16
  | [] => none
  | u :: us =>
      if (text "ssh ").isPrefixOf (u :: us) then
        match upToShell ((u :: us).drop 4) with
        | some found => some found
        | none => sshCommandMatch us
      else sshCommandMatch us

/-- The loop over the characters. `quote` is the quote that is open. -/
def splitArguments : Option UInt16 → Utf16 → Utf16 → List Utf16
  | _, current, [] => if (trim current).isEmpty then [] else [trim current]
  | none, current, u :: us =>
      if u = unit '"' ∨ u = unit '\'' then splitArguments (some u) (current ++ [u]) us
      else if u = unit ' ' then
        if (trim current).isEmpty then splitArguments none current us
        else trim current :: splitArguments none [] us
      else splitArguments none (current ++ [u]) us
  | some quote, current, u :: us =>
      if u = quote then splitArguments none (current ++ [u]) us
      else splitArguments (some quote) (current ++ [u]) us

/-- `extractSshArgs`. -/
def extractSshArgs (commandString : Utf16) : List Utf16 :=
  match sshCommandMatch commandString with
  | none => []
  | some argsString =>
      let sshArgs := ((splitArguments none [] argsString).map normalizeShellArgument).map
        fun arg => if arg = text "RequestTTY=no" then text "RequestTTY=yes" else arg
      if !sshArgs.contains (text "RequestTTY=yes") &&
          !sshArgs.any (fun arg => includes arg (text "RequestTTY=")) then
        sshArgs ++ [text "-o", text "RequestTTY=yes"]
      else sshArgs

/-! ## The here-document -/

/-- `$1` of `/<< (\S+)/`. -/
def hereDocDelimiter : Utf16 → Option Utf16
  | [] => none
  | u :: us =>
      let word := ((u :: us).drop 3).takeWhile fun c => !isSpace c
      if (text "<< ").isPrefixOf (u :: us) && !word.isEmpty then some word
      else hereDocDelimiter us

/-- `$1` of the expression that is made of the delimiter: what stands between `<< \`
with the delimiter, and the delimiter. -/
def hereDocBetween (delimiter : Utf16) : Utf16 → Option Utf16
  | [] => none
  | u :: us =>
      let opening := text "<< \\" ++ delimiter
      if opening.isPrefixOf (u :: us) then
        match splitAt? delimiter ((u :: us).drop opening.length) with
        | some (content, _) => some content
        | none => hereDocBetween delimiter us
      else hereDocBetween delimiter us

/-- `extractHereDocContent`. Escaping makes the expression look for the delimiter as it
is written. -/
def extractHereDocContent (commandString : Utf16) : Utf16 :=
  match hereDocDelimiter commandString with
  | none => []
  | some word =>
      let delimiter := trim word.tail
      if delimiter.isEmpty then [] else (hereDocBetween delimiter commandString).getD []

/-! ## Hosts -/

section Hosts

variable (toLowerCase : Utf16 → Utf16)

/-- The loop that takes quotes off both ends. -/
def stripQuotes : Nat → Utf16 → Utf16
  | 0, host => host
  | fuel + 1, host =>
      let quoted := fun c : UInt16 => host.head? == some c && host.getLast? == some c
      if 2 ≤ host.length ∧ (quoted (unit '\'') ∨ quoted (unit '"')) then
        stripQuotes fuel (trim host.tail.dropLast)
      else host

/-- `normalizeHostForAuthorization`. Every turn of the loop shortens the host. -/
def normalizeHostForAuthorization (host : Utf16) : Option Utf16 :=
  if host.isEmpty then none
  else
    let host := trim host
    let host := stripQuotes host.length host
    let host := if host.head? = some (unit '[') ∧ host.getLast? = some (unit ']') then
      host.tail.dropLast else host
    some (toLowerCase host)

def keysPath : Utf16 := text "storage/app/ssh/keys/"

/-- `arg.slice(atIndex + 1)`. -/
def hostOf (arg : Utf16) : Utf16 := (arg.dropWhile (· ≠ unit '@')).tail

/-- `/^[^@]+@[^@]+$/`. -/
def isUserAtHost (arg : Utf16) : Bool :=
  !(arg.takeWhile (· ≠ unit '@')).isEmpty && arg.contains (unit '@') && !(hostOf arg).isEmpty &&
    !(hostOf arg).contains (unit '@')

/-- `extractTargetHost`. -/
def extractTargetHost (sshArgs : List Utf16) : Option Utf16 :=
  (sshArgs.find? fun arg => !includes arg keysPath && isUserAtHost arg).bind fun arg =>
    normalizeHostForAuthorization toLowerCase (hostOf arg)

/-- `isAuthorizedTargetHost`. -/
def isAuthorizedTargetHost (targetHost : Option Utf16) (authorizedHosts : List Utf16) : Bool :=
  match targetHost.bind (normalizeHostForAuthorization toLowerCase) with
  | none => false
  | some host =>
      !host.isEmpty &&
        (authorizedHosts.map (normalizeHostForAuthorization toLowerCase)).contains (some host)

end Hosts

/-! ## Options -/

def requiredSshOptions : List Utf16 :=
  [text "StrictHostKeyChecking", text "UserKnownHostsFile", text "PasswordAuthentication",
    text "ConnectTimeout", text "ServerAliveInterval", text "RequestTTY", text "LogLevel"]

def multiplexingOptions : List Utf16 :=
  [text "ControlMaster", text "ControlPath", text "ControlPersist"]

def fixedOptions : List (Utf16 × Utf16) :=
  [(text "StrictHostKeyChecking", text "no"), (text "UserKnownHostsFile", text "/dev/null"),
    (text "PasswordAuthentication", text "no"), (text "LogLevel", text "ERROR"),
    (text "ControlMaster", text "auto"),
    (text "ProxyCommand", text "cloudflared access ssh --hostname %h")]

/-- A text with a prefix, and behind it at least one of `[a-zA-Z0-9_-]` and nothing else. -/
def isNamedBehind (start s : Utf16) : Bool :=
  start.isPrefixOf s && !(s.drop start.length).isEmpty &&
    (s.drop start.length).all fun u => isWordUnit u || u == unit '-'

/-- `isAllowedSshOption`. -/
def isAllowedSshOption (name value : Utf16) : Bool :=
  match fixedOptions.lookup name with
  | some fixed => value == fixed
  | none =>
      if name = text "RequestTTY" then value == text "yes" || value == text "no"
      else if name = text "ConnectTimeout" ∨ name = text "ServerAliveInterval" ∨
          name = text "ControlPersist" then isNumeral value && decide (0 < number value)
      else if name = text "ControlPath" then
        isNamedBehind (text "/var/www/html/storage/app/ssh/mux/mux_") value
      else false

/-- The test of the argument behind `-i`. -/
def isIdentityFile (s : Utf16) : Bool :=
  isNamedBehind (text "/var/www/html/storage/app/ssh/keys/ssh_key@") s

/-- The test of the argument behind `-p`. -/
def isPort (s : Utf16) : Bool := isNumeral s && decide (1 ≤ number s ∧ number s ≤ 65535)

/-- `/^[a-zA-Z0-9_][a-zA-Z0-9._-]*@[^@]+$/`. -/
def isDestination (arg : Utf16) : Bool :=
  let user := arg.takeWhile (· ≠ unit '@')
  isUserAtHost arg && user.head?.any isWordUnit &&
    user.all fun u => isWordUnit u || u == unit '.' || u == unit '-'

/-- `/[\0\r\n]/`. -/
def hasControl (arg : Utf16) : Bool := arg.any fun u => u == 0 || u == 13 || u == 10

/-- What the loop over the arguments has found. -/
structure SshArgsState where
  seenOptions : List Utf16
  hasIdentityFile : Bool
  hasPort : Bool
  targetHost : Option Utf16

section Validation

variable (toLowerCase : Utf16 → Utf16)

/-- The loop of `validateSshArgs`. -/
def validateLoop : List Utf16 → SshArgsState → Option SshArgsState
  | [], state => some state
  | argument :: rest, state =>
      if hasControl argument then none
      else if argument = text "-i" then
        match rest with
        | [] => none
        | identityFile :: rest =>
            if state.hasIdentityFile || !isIdentityFile identityFile then none
            else validateLoop rest { state with hasIdentityFile := true }
      else if argument = text "-p" then
        match rest with
        | [] => none
        | port :: rest =>
            if state.hasPort || !isPort port then none
            else validateLoop rest { state with hasPort := true }
      else if argument = text "-o" then
        match rest with
        | [] => none
        | option :: rest =>
            match splitUnit? (unit '=') option with
            | none => none
            | some (name, value) =>
                if name.isEmpty || state.seenOptions.contains name ||
                    !isAllowedSshOption name value then none
                else validateLoop rest { state with seenOptions := name :: state.seenOptions }
      else if isDestination argument ∧ state.targetHost = none then
        validateLoop rest { state with targetHost := extractTargetHost toLowerCase [argument] }
      else none

/-- `validateSshArgs`. -/
def validateSshArgs (sshArgs authorizedHosts : List Utf16) : Bool :=
  match validateLoop toLowerCase sshArgs ⟨[], false, false, none⟩ with
  | none => false
  | some state =>
      let hasRequiredOptions := requiredSshOptions.all state.seenOptions.contains
      let hasCompleteMultiplexingOptions :=
        !multiplexingOptions.any state.seenOptions.contains ||
          multiplexingOptions.all state.seenOptions.contains
      !sshArgs.isEmpty && state.hasIdentityFile && state.hasPort && state.targetHost.isSome &&
        hasRequiredOptions && hasCompleteMultiplexingOptions &&
        isAuthorizedTargetHost toLowerCase state.targetHost authorizedHosts

end Validation

/-- `sanitizeSshArgs`. -/
def sanitizeSshArgs : List Utf16 → List Utf16
  | [] => []
  | [arg] => [arg]
  | arg :: next :: rest =>
      if arg = text "-o" ∧ multiplexingOptions.contains (next.takeWhile (· ≠ unit '=')) then
        sanitizeSshArgs rest
      else arg :: sanitizeSshArgs (next :: rest)

/-! ## The command -/

/-- What `handleCommand` comes to: an answer, or ssh with some arguments. -/
inductive TerminalOutcome
  | answered (message : Utf16)
  | spawned (arguments : List Utf16)
deriving DecidableEq

/-- `split('\n').join(' ')`. -/
def joinLines (command : Utf16) : Utf16 := command.map fun u => if u = 10 then 32 else u

/-- `handleCommand`, for a session whose previous process could be ended or not. -/
def handleCommand (toLowerCase : Utf16 → Utf16) (previousEnded : Bool) (command : Utf16)
    (authorizedIPs : List Utf16) : TerminalOutcome :=
  if !previousEnded then .answered (text "unprocessable")
  else
    let commandString := joinLines command
    let sshArgs := extractSshArgs commandString
    let hereDocContent := extractHereDocContent commandString
    match (extractTargetHost toLowerCase sshArgs).filter (!·.isEmpty) with
    | none => .answered (text "Invalid SSH command: No target host found")
    | some targetHost =>
        if !isAuthorizedTargetHost toLowerCase (some targetHost) authorizedIPs then
          .answered (text "Unauthorized: Target host " ++ targetHost ++
            text " not in authorized list")
        else if !validateSshArgs toLowerCase sshArgs authorizedIPs then
          .answered (text "Invalid SSH command: Unsupported SSH arguments")
        else .spawned (sanitizeSshArgs sshArgs ++ [hereDocContent])

end OnePloy
