import OnePloy.SudoLines
import OnePloy.Lib.ShellArguments
import OnePloy.Lib.JsEncoding
import Mathlib.Tactic.FinCases

/-!
# Commands for the terminal

How `generateSshCommand` writes the command that opens a terminal: the options of ssh one
after the other, the destination, and the text for the other side as a here-document. A
shell makes of the line the words that it was written from (`sshWords_eq`).
-/

namespace OnePloy

open Php Shell Js

namespace SshCommand

/-! ## What the command is made of -/

/-- `[a-zA-Z0-9_-]+`. -/
def isUuid (uuid : String) : Bool :=
  !uuid.toList.isEmpty && uuid.toList.all fun c => c.isAlphanum || c == '_' || c == '-'

/-- What the accessor leaves of an address. -/
def isAddress (ip : String) : Bool :=
  !ip.toList.isEmpty && ip.toList.all fun c => c.isAlphanum || ['.', ':', '%', '-'].contains c

/-- What is read of a server. -/
structure SshServer where
  user : ServerUsername
  ip : {ip : String // isAddress ip = true}
  port : {port : Nat // 1 ≤ port ∧ port ≤ 65535}
  uuid : {uuid : String // isUuid uuid = true}
  privateKeyUuid : {uuid : String // isUuid uuid = true}
  /-- `settings.connection_timeout`, where it is numeric. -/
  connectionTimeout : Option Int
  isCloudflareTunnel : Bool
  forceDisabled : Bool

/-- `constants.ssh`. -/
structure SshConfig where
  commandTimeout : Int
  connectionTimeout : {n : Nat // 0 < n}
  serverInterval : {n : Nat // 0 < n}
  muxPersistTime : {n : Nat // 0 < n}
  muxEnabled : Bool
  isWindowsDockerDesktop : Bool

/-- What happens outside of the function. -/
structure SshWorld where
  validateSshKey : SshServer → Except String Unit
  ensureMultiplexedConnection : SshServer → Except String Bool
  /-- A hash is never empty. -/
  hashMake : String → {hash : List UInt8 // hash ≠ []}

/-- `escapeshellarg`. -/
def escapeshellarg (s : String) : String := String.ofList (quoteWord s.toList)

/-- The alphabet of base64: capitals, small letters, digits, and two signs. -/
def base64Char (n : Nat) : Char :=
  if n < 26 then Char.ofNat (65 + n)
  else if n < 52 then Char.ofNat (71 + n)
  else if n < 62 then Char.ofNat (n - 4)
  else if n = 62 then '+'
  else '/'

/-- `base64_encode`. -/
def base64Encode : List UInt8 → List Char
  | [] => []
  | [a] => [base64Char (a.toNat / 4), base64Char (a.toNat % 4 * 16), '=', '=']
  | [a, b] =>
      [base64Char (a.toNat / 4), base64Char (a.toNat % 4 * 16 + b.toNat / 16),
        base64Char (b.toNat % 16 * 4), '=']
  | a :: b :: c :: rest =>
      base64Char (a.toNat / 4) :: base64Char (a.toNat % 4 * 16 + b.toNat / 16) ::
        base64Char (b.toNat % 16 * 4 + c.toNat / 64) :: base64Char (c.toNat % 64) ::
        base64Encode rest

section Printer

variable (config : SshConfig) (world : SshWorld) (server : SshServer)

/-- `getKeyLocation`, in the directory of the disk `ssh-keys`. -/
def keyLocation : String := "/var/www/html/storage/app/ssh/keys/ssh_key@" ++ server.privateKeyUuid

def muxSocket : String := "/var/www/html/storage/app/ssh/mux/mux_" ++ server.uuid

def multiplexingOptions : String :=
  "-o ControlMaster=auto " ++ ("-o ControlPath=" ++ muxSocket server ++ " ") ++
    ("-o ControlPersist=" ++ toString config.muxPersistTime.val ++ " ")

def isMultiplexingEnabled : Bool := config.muxEnabled && !config.isWindowsDockerDesktop

def escapedUserAtHost : String := escapeshellarg server.user ++ "@" ++ escapeshellarg server.ip

def getConnectionTimeout : Nat :=
  match server.connectionTimeout with
  | some timeout => if 0 < timeout then timeout.toNat else config.connectionTimeout
  | none => config.connectionTimeout

/-- `getCommonSshOptions`, where it is not for scp. -/
def getCommonSshOptions (sshKeyLocation : String) (connectionTimeout serverInterval : Nat) :
    String :=
  "-i " ++ sshKeyLocation ++ " " ++
    "-o StrictHostKeyChecking=no -o UserKnownHostsFile=/dev/null " ++
    "-o PasswordAuthentication=no " ++
    ("-o ConnectTimeout=" ++ toString connectionTimeout ++ " ") ++
    ("-o ServerAliveInterval=" ++ toString serverInterval ++ " ") ++
    "-o RequestTTY=no " ++
    "-o LogLevel=ERROR " ++
    ("-p " ++ escapeshellarg (toString server.port.val) ++ " ")

/-- Whether the connection is shared; where the attempt fails, it is not. -/
def isMultiplexed (disableMultiplexing : Bool) : Bool :=
  !disableMultiplexing && isMultiplexingEnabled config &&
    match world.ensureMultiplexedConnection server with
    | .ok shared => shared
    | .error _ => false

def delimiter (command : String) : String := String.ofList (base64Encode (world.hashMake command))

/-- The command up to the destination. -/
def sshCommand (disableMultiplexing : Bool) (commandTimeout : Option Int) : String :=
  let commandTimeout := commandTimeout.getD config.commandTimeout
  (if 0 < commandTimeout then "timeout " ++ toString commandTimeout ++ " ssh " else "ssh ") ++
    (if isMultiplexed config world server disableMultiplexing then
      multiplexingOptions config server else "") ++
    (if server.isCloudflareTunnel then
      "-o ProxyCommand='cloudflared access ssh --hostname %h' " else "") ++
    getCommonSshOptions server (keyLocation server) (getConnectionTimeout config server)
      config.serverInterval

def generateSshCommand (command : String) (disableMultiplexing : Bool)
    (commandTimeout : Option Int) : Except String String :=
  if server.forceDisabled then .error "Server is disabled."
  else
    (world.validateSshKey server).map fun _ =>
      let delimiter := delimiter world command
      let text := strReplace delimiter "" command
      sshCommand config world server disableMultiplexing commandTimeout ++
        escapedUserAtHost server ++ " 'bash -se' << \\" ++ delimiter ++ "\n" ++ text ++ "\n" ++
        delimiter

end Printer

/-! ## The words of a command -/

/-- The arguments that a shell gives to ssh for the first line of a command, without their
quotes, up to the command for the other side. -/
def sshWords (printed : List Char) : Option (List (List Char)) :=
  (((arguments (printed.takeWhile (· ≠ '\n'))).dropWhile (· ≠ "ssh".toList)).tail.dropLast).mapM
    (Shell.literal false)

/-- Characters that the printed words have outside of quotes. -/
def isBare (c : Char) : Bool :=
  c.isAlphanum || ['-', '_', '.', '/', '=', '@', ':', '%', '+'].contains c

theorem isAscii_of_isBare {c : Char} (h : isBare c = true) : isAscii c = true := by
  rw [isBare, Bool.or_eq_true, List.contains_iff_mem] at h
  rcases h with h | h
  · have hle : c.val ≤ 122 := by
      unfold Char.isAlphanum Char.isAlpha Char.isUpper Char.isLower at h
      simp only [Char.isDigit, Bool.or_eq_true, Bool.and_eq_true, decide_eq_true_eq] at h
      rcases h with (⟨-, h⟩ | ⟨-, h⟩) | ⟨-, h⟩
      · exact Nat.le_trans h (by decide)
      · exact h
      · exact Nat.le_trans h (by decide)
    have : c.toNat ≤ 122 := hle
    exact decide_eq_true (by omega)
  · fin_cases h <;> rfl

/-- What has been tried for the first 128 characters. -/
theorem of_isBare {p : Char → Bool}
    (h : (List.range 128).all (fun n => !isBare (Char.ofNat n) || p (Char.ofNat n)) = true)
    {c : Char} (hc : isBare c = true) : p c = true := by
  have himp := forall_ascii (p := fun c => !isBare c || p c) h (isAscii_of_isBare hc)
  rw [hc] at himp
  exact himp

theorem isPlain_of_isBare {c : Char} (h : isBare c = true) : Shell.isPlain c = true :=
  of_isBare (by decide) h

/-- A setting, with its value as it is written. -/
structure Setting where
  name : String
  value : Piece Char

def Setting.words (s : Setting) : List (Word Char) :=
  [[.bare "-o".toList], [.bare (s.name.toList ++ ['=']), s.value]]

section Words

variable (config : SshConfig) (world : SshWorld) (server : SshServer)

def multiplexingSettings : List Setting :=
  [⟨"ControlMaster", .bare "auto".toList⟩, ⟨"ControlPath", .bare (muxSocket server).toList⟩,
    ⟨"ControlPersist", .bare (Nat.toDigits 10 config.muxPersistTime)⟩]

def tunnelSettings : List Setting :=
  [⟨"ProxyCommand", .quoted "cloudflared access ssh --hostname %h".toList⟩]

/-- The settings before the identity. -/
def firstSettings (disableMultiplexing : Bool) : List Setting :=
  (if isMultiplexed config world server disableMultiplexing then
    multiplexingSettings config server else []) ++
    if server.isCloudflareTunnel then tunnelSettings else []

def commonSettings : List Setting :=
  [⟨"StrictHostKeyChecking", .bare "no".toList⟩, ⟨"UserKnownHostsFile", .bare "/dev/null".toList⟩,
    ⟨"PasswordAuthentication", .bare "no".toList⟩,
    ⟨"ConnectTimeout", .bare (Nat.toDigits 10 (getConnectionTimeout config server))⟩,
    ⟨"ServerAliveInterval", .bare (Nat.toDigits 10 config.serverInterval)⟩,
    ⟨"RequestTTY", .bare "no".toList⟩, ⟨"LogLevel", .bare "ERROR".toList⟩]

def destination : Word Char :=
  [.quoted server.user.val.toList, .bare ['@'], .quoted server.ip.val.toList]

/-- The arguments of ssh, up to the command for the other side. -/
def sshArguments (disableMultiplexing : Bool) : List (Word Char) :=
  (firstSettings config world server disableMultiplexing).flatMap Setting.words ++
    [[.bare "-i".toList], [.bare (keyLocation server).toList]] ++
    (commonSettings config server).flatMap Setting.words ++
    [[.bare "-p".toList], [.quoted (Nat.toDigits 10 server.port)], destination server]

/-- What stands before `ssh`. -/
def timeoutWords (commandTimeout : Option Int) : List (Word Char) :=
  let commandTimeout := commandTimeout.getD config.commandTimeout
  if 0 < commandTimeout then
    [[.bare "timeout".toList], [.bare (Nat.toDigits 10 commandTimeout.toNat)]]
  else []

end Words

/-! ## What is printed -/

section Printed

variable {config : SshConfig} {world : SshWorld} {server : SshServer}

theorem toList_toString (n : Nat) : (toString n).toList = Nat.toDigits 10 n := Nat.toList_repr

@[simp] theorem spaced_nil : Word.spaced ' ' '\'' [] = [] := rfl

theorem spaced_cons (w : Word Char) (ws : List (Word Char)) :
    Word.spaced ' ' '\'' (w :: ws) = w.raw '\'' ++ ' ' :: Word.spaced ' ' '\'' ws := by
  simp [Word.spaced]

@[simp] theorem spaced_append (ws vs : List (Word Char)) :
    Word.spaced ' ' '\'' (ws ++ vs) = Word.spaced ' ' '\'' ws ++ Word.spaced ' ' '\'' vs :=
  List.flatMap_append

@[simp] theorem spaced_setting (s : Setting) :
    Word.spaced ' ' '\'' s.words =
      "-o ".toList ++ s.name.toList ++ '=' :: s.value.raw '\'' ++ [' '] := by
  cases s
  simp [Setting.words, Word.spaced, Word.raw, Piece.raw]

theorem multiplexingOptions_toList :
    (multiplexingOptions config server).toList =
      Word.spaced ' ' '\'' ((multiplexingSettings config server).flatMap Setting.words) := by
  unfold multiplexingOptions multiplexingSettings
  simp only [String.toList_append, toList_toString, List.flatMap_cons, List.flatMap_nil,
    spaced_append, spaced_setting, spaced_nil, Piece.raw]
  simp

theorem escapeQuotes_of_notMem {cs : List Char} (h : '\'' ∉ cs) : escapeQuotes cs = cs := by
  rw [escapeQuotes]
  calc cs.flatMap (fun c => if c = '\'' then ['\'', '\\', '\'', '\''] else [c])
      = cs.flatMap (fun c => [c]) :=
        List.flatMap_congr fun c hc => if_neg fun (heq : c = '\'') => h (heq ▸ hc)
    _ = cs := List.flatMap_singleton' cs

theorem escapeshellarg_toList {s : String} (h : '\'' ∉ s.toList) :
    (escapeshellarg s).toList = Piece.raw '\'' (.quoted s.toList) := by
  rw [escapeshellarg, String.toList_ofList, quoteWord, escapeQuotes_of_notMem h]
  rfl

theorem notMem_toDigits {n : Nat} {c : Char} (hc : c.isDigit = false) : c ∉ Nat.toDigits 10 n :=
  fun h => by
    rw [isDigit_of_mem_toDigits h] at hc
    cases hc

theorem getCommonSshOptions_toList (key : String) :
    (getCommonSshOptions server key (getConnectionTimeout config server)
        config.serverInterval).toList =
      Word.spaced ' ' '\'' ([[.bare "-i".toList], [.bare key.toList]] ++
        (commonSettings config server).flatMap Setting.words ++
        [[.bare "-p".toList], [.quoted (Nat.toDigits 10 server.port)]]) := by
  have hport : '\'' ∉ (toString server.port.val).toList := by
    rw [toList_toString]
    exact notMem_toDigits rfl
  have hfixed : "-o StrictHostKeyChecking=no -o UserKnownHostsFile=/dev/null ".toList =
      ("-o ".toList ++ "StrictHostKeyChecking".toList ++ '=' :: "no".toList ++ [' ']) ++
        ("-o ".toList ++ "UserKnownHostsFile".toList ++ '=' :: "/dev/null".toList ++ [' ']) := by
    simp
  have hpassword : "-o PasswordAuthentication=no ".toList =
      "-o ".toList ++ "PasswordAuthentication".toList ++ '=' :: "no".toList ++ [' '] := by simp
  have hconnect : "-o ConnectTimeout=".toList =
      "-o ".toList ++ "ConnectTimeout".toList ++ ['='] := by simp
  have halive : "-o ServerAliveInterval=".toList =
      "-o ".toList ++ "ServerAliveInterval".toList ++ ['='] := by simp
  have htty : "-o RequestTTY=no ".toList =
      "-o ".toList ++ "RequestTTY".toList ++ '=' :: "no".toList ++ [' '] := by simp
  have hlog : "-o LogLevel=ERROR ".toList =
      "-o ".toList ++ "LogLevel".toList ++ '=' :: "ERROR".toList ++ [' '] := by simp
  have hspace : " ".toList = [' '] := rfl
  have hidentity : "-i ".toList = "-i".toList ++ [' '] := by simp
  have hportOption : "-p ".toList = "-p".toList ++ [' '] := by simp
  unfold getCommonSshOptions commonSettings
  simp only [String.toList_append, toList_toString, escapeshellarg_toList hport,
    List.flatMap_cons, List.flatMap_nil, spaced_append, spaced_setting, spaced_nil, spaced_cons,
    Word.raw, Piece.raw, hfixed, hpassword, hconnect, halive, htty, hlog, hspace, hidentity,
    hportOption, List.append_assoc, List.cons_append, List.nil_append, List.append_nil]

theorem tunnelSettings_toList :
    "-o ProxyCommand='cloudflared access ssh --hostname %h' ".toList =
      Word.spaced ' ' '\'' (tunnelSettings.flatMap Setting.words) := by
  simp only [tunnelSettings, List.flatMap_cons, List.flatMap_nil, spaced_append, spaced_setting,
    spaced_nil, Piece.raw]
  simp

theorem timeoutWords_toList (commandTimeout : Option Int) :
    (if 0 < commandTimeout.getD config.commandTimeout then
        "timeout " ++ toString (commandTimeout.getD config.commandTimeout) ++ " ssh " else
        "ssh ").toList =
      Word.spaced ' ' '\'' (timeoutWords config commandTimeout ++ [[.bare "ssh".toList]]) := by
  unfold timeoutWords
  dsimp only
  split
  · next hpos =>
      obtain ⟨n, hn⟩ := Int.eq_ofNat_of_zero_le (Int.le_of_lt hpos)
      have htext : toString (n : Int) = toString n := rfl
      rw [hn, htext, String.toList_append, String.toList_append, toList_toString, Int.toNat_natCast]
      simp [spaced_cons, Word.raw, Piece.raw]
  · simp [spaced_cons, Word.raw, Piece.raw]

theorem notMem_of_isBare {c : Char} {cs : List Char} (hcs : ∀ c ∈ cs, isBare c = true)
    (hc : isBare c = false) : c ∉ cs := fun h => by
  rw [hcs c h] at hc
  cases hc

theorem isBare_user {c : Char} (h : c ∈ server.user.val.toList) : isBare c = true := by
  have huser := server.user.property
  rw [isServerUsername, Bool.and_eq_true, List.all_eq_true] at huser
  have hc := huser.2 c h
  simp only [Bool.or_eq_true, beq_iff_eq] at hc
  rcases hc with ((hc | rfl) | rfl) | rfl
  · rw [isBare, hc, Bool.true_or]
  · rfl
  · rfl
  · rfl

theorem isBare_ip {c : Char} (h : c ∈ server.ip.val.toList) : isBare c = true := by
  have hip := server.ip.property
  rw [isAddress, Bool.and_eq_true, List.all_eq_true] at hip
  have hc := hip.2 c h
  rw [Bool.or_eq_true, List.contains_iff_mem] at hc
  rcases hc with hc | hc
  · rw [isBare, hc, Bool.true_or]
  · fin_cases hc <;> rfl

theorem isBare_uuid {uuid : {uuid : String // isUuid uuid = true}} {c : Char}
    (h : c ∈ uuid.val.toList) : isBare c = true := by
  have huuid := uuid.property
  rw [isUuid, Bool.and_eq_true, List.all_eq_true] at huuid
  have hc := huuid.2 c h
  simp only [Bool.or_eq_true, beq_iff_eq] at hc
  rcases hc with (hc | rfl) | rfl
  · rw [isBare, hc, Bool.true_or]
  · rfl
  · rfl

theorem isBare_of_isDigit {c : Char} (h : c.isDigit = true) : isBare c = true := by
  rw [isBare, Char.isAlphanum, h, Bool.or_true, Bool.true_or]

theorem escapedUserAtHost_toList :
    (escapedUserAtHost server).toList = (destination server).raw '\'' := by
  have huser : '\'' ∉ server.user.val.toList := notMem_of_isBare (fun c => isBare_user) rfl
  have hip : '\'' ∉ server.ip.val.toList := notMem_of_isBare (fun c => isBare_ip) rfl
  rw [escapedUserAtHost, String.toList_append, String.toList_append, escapeshellarg_toList huser,
    escapeshellarg_toList hip]
  simp [destination, Word.raw, Piece.raw]

/-- Everything before the here-document is words with a space after each. -/
theorem sshCommand_toList (disableMultiplexing : Bool) (commandTimeout : Option Int) :
    (sshCommand config world server disableMultiplexing commandTimeout ++
        escapedUserAtHost server ++ " 'bash -se' ").toList =
      Word.spaced ' ' '\'' (timeoutWords config commandTimeout ++ [[.bare "ssh".toList]] ++
        sshArguments config world server disableMultiplexing ++
        [[.quoted "bash -se".toList]]) := by
  have hshell : " 'bash -se' ".toList =
      ' ' :: Word.spaced ' ' '\'' [[.quoted "bash -se".toList]] := by
    simp [spaced_cons, Word.raw, Piece.raw]
  have hmultiplexing : (if isMultiplexed config world server disableMultiplexing then
        multiplexingOptions config server else "").toList =
      Word.spaced ' ' '\'' ((if isMultiplexed config world server disableMultiplexing then
        multiplexingSettings config server else []).flatMap Setting.words) := by
    split
    · exact multiplexingOptions_toList
    · rfl
  have htunnel : (if server.isCloudflareTunnel then
        "-o ProxyCommand='cloudflared access ssh --hostname %h' " else "").toList =
      Word.spaced ' ' '\'' ((if server.isCloudflareTunnel then
        tunnelSettings else []).flatMap Setting.words) := by
    split
    · exact tunnelSettings_toList
    · rfl
  unfold sshCommand
  dsimp only
  rw [String.toList_append, String.toList_append, String.toList_append, String.toList_append,
    String.toList_append, timeoutWords_toList, hmultiplexing, htunnel, getCommonSshOptions_toList,
    escapedUserAtHost_toList, hshell]
  simp only [sshArguments, firstSettings, List.flatMap_append, spaced_append, spaced_cons,
    spaced_nil, List.append_assoc, List.cons_append, List.nil_append]

/-! ## What a shell makes of it -/

/-- A part of the printed words. -/
def IsPart : Piece Char → Prop
  | .bare text => ∀ c ∈ text, isBare c = true
  | .quoted text => ∀ c ∈ text, isBare c = true ∨ c = ' '

/-- A printed word. -/
structure IsWord (word : Word Char) : Prop where
  ne_nil : word.raw '\'' ≠ []
  parts : ∀ piece ∈ word, IsPart piece

theorem IsWord.plain {word : Word Char} (h : IsWord word) : word.Plain := by
  refine ⟨h.ne_nil, fun piece hpiece => ?_⟩
  have hpart := h.parts piece hpiece
  cases piece with
  | bare text => exact fun c hc => isPlain_of_isBare (hpart c hc)
  | quoted text =>
      intro hquote
      rcases hpart _ hquote with hbare | hspace
      · cases hbare
      · cases hspace

theorem isWord_bare {text : List Char} (hne : text ≠ []) (h : ∀ c ∈ text, isBare c = true) :
    IsWord [.bare text] := by
  refine ⟨by simpa [Word.raw, Piece.raw] using hne, fun piece hpiece => ?_⟩
  rw [List.mem_singleton.1 hpiece]
  exact h

theorem isWord_quoted {text : List Char} (h : ∀ c ∈ text, isBare c = true ∨ c = ' ') :
    IsWord [.quoted text] := by
  refine ⟨by simp [Word.raw, Piece.raw], fun piece hpiece => ?_⟩
  rw [List.mem_singleton.1 hpiece]
  exact h

/-- A setting whose name and value are printed as they are. -/
structure Setting.IsPrinted (s : Setting) : Prop where
  name : ∀ c ∈ s.name.toList, isBare c = true
  value : IsPart s.value

theorem Setting.IsPrinted.isWord {s : Setting} (h : s.IsPrinted) {word : Word Char}
    (hword : word ∈ s.words) : IsWord word := by
  rw [Setting.words, List.mem_cons, List.mem_singleton] at hword
  rcases hword with rfl | rfl
  · exact isWord_bare (by simp) (List.all_eq_true.1 rfl)
  · refine ⟨by simp [Word.raw, Piece.raw], fun piece hpiece => ?_⟩
    rw [List.mem_cons, List.mem_singleton] at hpiece
    rcases hpiece with rfl | rfl
    · intro c hc
      rw [List.mem_append, List.mem_singleton] at hc
      rcases hc with hc | rfl
      · exact h.name c hc
      · rfl
    · exact h.value

theorem isBare_toDigits {n : Nat} : ∀ c ∈ Nat.toDigits 10 n, isBare c = true :=
  fun _ hc => isBare_of_isDigit (isDigit_of_mem_toDigits hc)

theorem isBare_append {cs ds : List Char} (hcs : ∀ c ∈ cs, isBare c = true)
    (hds : ∀ c ∈ ds, isBare c = true) : ∀ c ∈ cs ++ ds, isBare c = true := fun c hc =>
  (List.mem_append.1 hc).elim (hcs c) (hds c)

theorem isBare_keyLocation : ∀ c ∈ (keyLocation server).toList, isBare c = true := by
  unfold keyLocation
  rw [String.toList_append]
  exact isBare_append (List.all_eq_true.1 (by decide +kernel)) fun c hc => isBare_uuid hc

theorem isBare_muxSocket : ∀ c ∈ (muxSocket server).toList, isBare c = true := by
  unfold muxSocket
  rw [String.toList_append]
  exact isBare_append (List.all_eq_true.1 (by decide +kernel)) fun c hc => isBare_uuid hc

theorem isPrinted_bare {name : String} (hname : name.toList.all isBare = true) {text : List Char}
    (htext : ∀ c ∈ text, isBare c = true) : Setting.IsPrinted ⟨name, .bare text⟩ :=
  ⟨List.all_eq_true.1 hname, htext⟩

theorem isPrinted_multiplexing :
    ∀ s ∈ multiplexingSettings config server, s.IsPrinted := by
  simp only [multiplexingSettings, List.forall_mem_cons]
  exact ⟨isPrinted_bare rfl (List.all_eq_true.1 rfl), isPrinted_bare rfl isBare_muxSocket,
    isPrinted_bare rfl isBare_toDigits, List.forall_mem_nil _⟩

theorem isPrinted_tunnel : ∀ s ∈ tunnelSettings, s.IsPrinted := by
  have hcommand : "cloudflared access ssh --hostname %h".toList.all
      (fun c => isBare c || c == ' ') = true := rfl
  simp only [tunnelSettings, List.forall_mem_cons]
  refine ⟨⟨List.all_eq_true.1 rfl, fun c hc => ?_⟩, List.forall_mem_nil _⟩
  have hc := List.all_eq_true.1 hcommand c hc
  rwa [Bool.or_eq_true, beq_iff_eq] at hc

theorem isPrinted_first (disableMultiplexing : Bool) :
    ∀ s ∈ firstSettings config world server disableMultiplexing, s.IsPrinted := by
  intro s hs
  rw [firstSettings, List.mem_append] at hs
  rcases hs with hs | hs
  · split at hs
    · exact isPrinted_multiplexing s hs
    · cases hs
  · split at hs
    · exact isPrinted_tunnel s hs
    · cases hs

theorem isPrinted_common : ∀ s ∈ commonSettings config server, s.IsPrinted := by
  have hno : ∀ c ∈ "no".toList, isBare c = true := List.all_eq_true.1 rfl
  simp only [commonSettings, List.forall_mem_cons]
  exact ⟨isPrinted_bare rfl hno, isPrinted_bare rfl (List.all_eq_true.1 rfl),
    isPrinted_bare rfl hno, isPrinted_bare rfl isBare_toDigits, isPrinted_bare rfl isBare_toDigits,
    isPrinted_bare rfl hno, isPrinted_bare rfl (List.all_eq_true.1 rfl), List.forall_mem_nil _⟩

theorem isWord_settings {settings : List Setting} (h : ∀ s ∈ settings, s.IsPrinted) :
    ∀ word ∈ settings.flatMap Setting.words, IsWord word := fun _ hword =>
  let ⟨s, hs, hword⟩ := List.mem_flatMap.1 hword
  (h s hs).isWord hword

theorem isWord_destination : IsWord (destination server) := by
  refine ⟨by simp [destination, Word.raw, Piece.raw], ?_⟩
  simp only [destination, List.forall_mem_cons]
  refine ⟨fun c hc => .inl (isBare_user hc), List.all_eq_true.1 rfl,
    fun c hc => .inl (isBare_ip hc), List.forall_mem_nil _⟩

theorem isWord_sshArguments (disableMultiplexing : Bool) :
    ∀ word ∈ sshArguments config world server disableMultiplexing, IsWord word := by
  have hkey : (keyLocation server).toList ≠ [] := by
    unfold keyLocation
    rw [String.toList_append]
    simp
  simp only [sshArguments, List.forall_mem_append, List.forall_mem_cons]
  exact ⟨⟨⟨isWord_settings (isPrinted_first disableMultiplexing),
    isWord_bare (by simp) (List.all_eq_true.1 rfl), isWord_bare hkey isBare_keyLocation,
    List.forall_mem_nil _⟩, isWord_settings isPrinted_common⟩,
    isWord_bare (by simp) (List.all_eq_true.1 rfl),
    isWord_quoted fun c hc => .inl (isBare_toDigits c hc), isWord_destination,
    List.forall_mem_nil _⟩

theorem isWord_timeoutWords (commandTimeout : Option Int) :
    ∀ word ∈ timeoutWords config commandTimeout, IsWord word := by
  unfold timeoutWords
  dsimp only
  split
  · simp only [List.forall_mem_cons]
    exact ⟨isWord_bare (by simp) (List.all_eq_true.1 rfl),
      isWord_bare Nat.toDigits_ne_nil isBare_toDigits, List.forall_mem_nil _⟩
  · exact List.forall_mem_nil _

/-! ## The delimiter -/

theorem isBare_base64Char (n : Nat) : isBare (base64Char n) = true := by
  have hall : (List.range 62).all (fun n => isBare (base64Char n)) = true := by decide +kernel
  by_cases hn : n < 62
  · exact List.all_eq_true.1 hall n (List.mem_range.2 hn)
  · rw [base64Char, if_neg (by omega), if_neg (by omega), if_neg hn]
    split
    · rfl
    · rfl

theorem isBare_base64Encode (bytes : List UInt8) :
    ∀ c ∈ base64Encode bytes, isBare c = true := by
  induction bytes using base64Encode.induct with
  | case1 => exact List.forall_mem_nil _
  | case2 a => simp [base64Encode, isBare_base64Char, show isBare '=' = true from rfl]
  | case3 a b => simp [base64Encode, isBare_base64Char, show isBare '=' = true from rfl]
  | case4 a b c rest ih =>
      simp only [base64Encode, List.forall_mem_cons]
      exact ⟨isBare_base64Char _, isBare_base64Char _, isBare_base64Char _, isBare_base64Char _, ih⟩

theorem base64Encode_ne_nil {bytes : List UInt8} (h : bytes ≠ []) : base64Encode bytes ≠ [] := by
  cases bytes using base64Encode.fun_cases <;> simp_all [base64Encode]

theorem isBare_delimiter (command : String) :
    ∀ c ∈ (delimiter world command).toList, isBare c = true := by
  rw [delimiter, String.toList_ofList]
  exact isBare_base64Encode _

theorem delimiter_ne_nil (command : String) : (delimiter world command).toList ≠ [] := by
  rw [delimiter, String.toList_ofList]
  exact base64Encode_ne_nil (world.hashMake command).property

/-! ## The whole command -/

/-- The words of the first line. -/
def lineWords (config : SshConfig) (world : SshWorld) (server : SshServer)
    (disableMultiplexing : Bool) (commandTimeout : Option Int) : List (Word Char) :=
  timeoutWords config commandTimeout ++ [[.bare "ssh".toList]] ++
    sshArguments config world server disableMultiplexing ++ [[.quoted "bash -se".toList]]

variable (config world server) in
theorem isWord_lineWords (disableMultiplexing : Bool) (commandTimeout : Option Int) :
    ∀ word ∈ lineWords config world server disableMultiplexing commandTimeout, IsWord word := by
  have hshell : ∀ c ∈ "bash -se".toList, isBare c = true ∨ c = ' ' := by simp [isBare]
  simp only [lineWords, List.forall_mem_append, List.forall_mem_cons]
  exact ⟨⟨⟨isWord_timeoutWords commandTimeout, isWord_bare (by simp) (List.all_eq_true.1 rfl),
    List.forall_mem_nil _⟩, isWord_sshArguments disableMultiplexing⟩, isWord_quoted hshell,
    List.forall_mem_nil _⟩

/-- A command with a delimiter that does not stand in its text. -/
theorem generateSshCommand_toList {command printed : String} {disableMultiplexing : Bool}
    {commandTimeout : Option Int}
    (h : generateSshCommand config world server command disableMultiplexing commandTimeout =
      .ok printed)
    (hdelimiter : ¬ (delimiter world command).toList <:+: command.toList) :
    printed.toList =
      Word.spaced ' ' '\'' (lineWords config world server disableMultiplexing commandTimeout) ++
        ("<< \\".toList ++ (delimiter world command).toList) ++
        '\n' :: (command.toList ++ '\n' :: (delimiter world command).toList) := by
  unfold generateSshCommand at h
  split at h
  · cases h
  · cases hkey : world.validateSshKey server with
    | error message =>
        rw [hkey] at h
        cases h
    | ok _ =>
        rw [hkey] at h
        have hprinted := Except.ok.inj h
        have htext : (strReplace (delimiter world command) "" command).toList = command.toList := by
          rw [strReplace, String.toList_ofList, replaceChars_of_not_infix _ hdelimiter]
        have hhere : " 'bash -se' << \\" = " 'bash -se' " ++ "<< \\" := by decide
        rw [← hprinted, hhere, ← String.append_assoc, lineWords, ← sshCommand_toList]
        dsimp only
        simp only [String.toList_append, htext]
        simp

theorem notMem_spaced {words : List (Word Char)} (h : ∀ word ∈ words, IsWord word) {c : Char}
    (hbare : isBare c = false) (hspace : c ≠ ' ') (hquote : c ≠ '\'') :
    c ∉ Word.spaced ' ' '\'' words := by
  intro hc
  obtain ⟨word, hword, hc⟩ := List.mem_flatMap.1 hc
  rw [List.mem_append, List.mem_singleton] at hc
  rcases hc with hc | hc
  · obtain ⟨piece, hpiece, hc⟩ := List.mem_flatMap.1 hc
    have hpart := (h word hword).parts piece hpiece
    cases piece with
    | bare text => exact notMem_of_isBare hpart hbare hc
    | quoted text =>
        rw [Piece.raw, List.mem_cons, List.mem_append, List.mem_singleton] at hc
        rcases hc with hc | hc | hc
        · exact hquote hc
        · rcases hpart c hc with hc | hc
          · rw [hbare] at hc
            cases hc
          · exact hspace hc
        · exact hquote hc
  · exact hspace hc

theorem takeWhile_append_cons {α : Type} {p : α → Bool} {as bs : List α} {b : α}
    (has : ∀ a ∈ as, p a = true) (hb : p b = false) : (as ++ b :: bs).takeWhile p = as := by
  rw [List.takeWhile_append_of_pos has, List.takeWhile_cons_of_neg (by simp [hb]), List.append_nil]

/-- The words before `ssh` are not `ssh`. -/
theorem ne_ssh_of_mem_timeoutWords {commandTimeout : Option Int} {word : Word Char}
    (h : word ∈ timeoutWords config commandTimeout) : word.raw '\'' ≠ "ssh".toList := by
  unfold timeoutWords at h
  dsimp only at h
  split at h
  · rw [List.mem_cons, List.mem_singleton] at h
    rcases h with rfl | rfl
    · decide
    · intro heq
      have hs : 's' ∈ Nat.toDigits 10 (commandTimeout.getD config.commandTimeout).toNat := by
        have hraw : Nat.toDigits 10 (commandTimeout.getD config.commandTimeout).toNat =
            "ssh".toList := by simpa [Word.raw, Piece.raw] using heq
        rw [hraw]
        simp
      exact notMem_toDigits rfl hs
  · cases h

theorem mapM_literal {words : List (Word Char)} (h : ∀ word ∈ words, IsWord word) :
    (words.map (Word.raw '\'')).mapM (Shell.literal false) = some (words.map Word.value) := by
  induction words with
  | nil => rfl
  | cons word words ih =>
      rw [List.map_cons, List.mapM_cons, literal_raw (h word List.mem_cons_self).plain.pieces,
        ih fun other hother => h other (List.mem_cons_of_mem word hother)]
      rfl

/-- What a shell reads are the arguments that the command was printed from. -/
theorem sshWords_eq {command printed : String} {disableMultiplexing : Bool}
    {commandTimeout : Option Int}
    (h : generateSshCommand config world server command disableMultiplexing commandTimeout =
      .ok printed)
    (hdelimiter : ¬ (delimiter world command).toList <:+: command.toList) :
    sshWords printed.toList =
      some ((sshArguments config world server disableMultiplexing).map Word.value) := by
  have hwords := isWord_lineWords config world server disableMultiplexing commandTimeout
  have hline : printed.toList.takeWhile (· ≠ '\n') =
      Word.spaced ' ' '\'' (lineWords config world server disableMultiplexing commandTimeout) ++
        ("<< \\".toList ++ (delimiter world command).toList) := by
    rw [generateSshCommand_toList h hdelimiter]
    refine takeWhile_append_cons (p := (· ≠ '\n')) (fun c hc => ?_) (by simp)
    have hne : '\n' ∉ Word.spaced ' ' '\''
          (lineWords config world server disableMultiplexing commandTimeout) ++
        ("<< \\".toList ++ (delimiter world command).toList) := by
      simp only [List.mem_append, not_or]
      exact ⟨notMem_spaced hwords rfl (by decide) (by decide), by simp,
        notMem_of_isBare (isBare_delimiter command) rfl⟩
    exact decide_eq_true fun heq => hne (heq ▸ hc)
  have harguments := arguments_spaced (fun word hword => (hwords word hword).plain)
    ("<< \\".toList ++ (delimiter world command).toList)
  rw [arguments_hereDocument (delimiter_ne_nil command)
    fun c hc => isPlain_of_isBare (isBare_delimiter command c hc), List.append_nil] at harguments
  rw [sshWords, hline, harguments, lineWords, List.map_append, List.map_append, List.map_append,
    List.append_assoc, List.append_assoc, List.dropWhile_append_of_pos]
  · simp only [List.map_cons, List.map_nil, List.singleton_append]
    rw [List.dropWhile_cons_of_neg (by simp [Word.raw, Piece.raw]), List.tail_cons,
      List.dropLast_concat]
    exact mapM_literal (isWord_sshArguments disableMultiplexing)
  · intro raw hraw
    obtain ⟨word, hword, rfl⟩ := List.mem_map.1 hraw
    exact decide_eq_true (ne_ssh_of_mem_timeoutWords hword)

end Printed

end SshCommand

end OnePloy
