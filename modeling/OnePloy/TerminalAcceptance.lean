import OnePloy.TerminalReadBack

/-!
# What is printed is accepted

The printed arguments are an identity, a port, settings of different names that are all
allowed, and a destination. They pass the check, with the address of the server authorised,
if the user begins as the check wants it (`validateSshArgs_printed`).
-/

namespace OnePloy

open Php Shell Js

namespace SshCommand

/-! ## Items in a row -/

section Items

variable {toLowerCase : Utf16 → Utf16} {state mid : SshArgsState}

theorem splitUnit?_append {c : UInt16} {a : Utf16} (h : c ∉ a) (b : Utf16) :
    splitUnit? c (a ++ c :: b) = some (a, b) := by
  have hne : ∀ u ∈ a, decide (u ≠ c) = true := fun u hu => decide_eq_true fun heq => h (heq ▸ hu)
  rw [splitUnit?, if_pos (List.mem_append_right a List.mem_cons_self),
    List.takeWhile_append_of_pos hne, List.dropWhile_append_of_pos hne]
  simp

/-- No argument of the item has a character that is refused everywhere. -/
def IsClean (item : SshItem) : Prop := ∀ arg ∈ item.arguments, hasControl arg = false

/-- An argument that begins no option is a destination or nothing. -/
theorem validateLoop_other {arg : Utf16} (hcontrol : hasControl arg = false)
    (hoption : arg ∉ [text "-i", text "-p", text "-o"]) (rest : List Utf16) :
    validateLoop toLowerCase (arg :: rest) state =
      if isDestination arg ∧ state.targetHost = none then
        validateLoop toLowerCase rest
          { state with targetHost := extractTargetHost toLowerCase [arg] }
      else none := by
  simp only [List.mem_cons, List.not_mem_nil, or_false, not_or] at hoption
  rw [validateLoop.eq_def]
  dsimp only
  rw [if_neg (by rw [hcontrol]; exact Bool.false_ne_true), if_neg hoption.1, if_neg hoption.2.1,
    if_neg hoption.2.2]

/-- An item that is formed and accepted is passed. -/
theorem validateLoop_item {item : SshItem} (hclean : IsClean item) (hformed : item.Formed)
    (h : item.accept toLowerCase state = some mid) (rest : List Utf16) :
    validateLoop toLowerCase (item.arguments ++ rest) state =
      validateLoop toLowerCase rest mid := by
  have hfirst : ∀ arg args, item.arguments = arg :: args → hasControl arg = false :=
    fun arg args harg => hclean arg (by rw [harg]; exact List.mem_cons_self)
  rcases accept_cases h with ⟨file, rfl, hno, rfl⟩ | ⟨p, rfl, hno, rfl⟩ |
    ⟨name, value, rfl, hno, rfl⟩ | ⟨arg, rfl, hno, rfl⟩
  · have hfile : isIdentityFile file = true := hformed
    show validateLoop toLowerCase (text "-i" :: file :: rest) state = _
    rw [validateLoop, if_neg (by rw [hfirst _ _ rfl]; exact Bool.false_ne_true), if_pos rfl]
    simp [hno, hfile]
  · have hport : isPort p = true := hformed
    show validateLoop toLowerCase (text "-p" :: p :: rest) state = _
    rw [validateLoop, if_neg (by rw [hfirst _ _ rfl]; exact Bool.false_ne_true),
      if_neg (by decide), if_pos rfl]
    simp [hno, hport]
  · obtain ⟨hsign, hne, hallowed⟩ := hformed
    show validateLoop toLowerCase (text "-o" :: (name ++ unit '=' :: value) :: rest) state = _
    rw [validateLoop, if_neg (by rw [hfirst _ _ rfl]; exact Bool.false_ne_true),
      if_neg (by decide), if_neg (by decide), if_pos rfl]
    simp [splitUnit?_append hsign, hne, hno, hallowed]
  · have harg : isDestination arg = true := hformed
    obtain ⟨u, us, rfl, hword⟩ := not_dash_of_isDestination harg
    have hdash : u ≠ unit '-' := by
      rintro rfl
      exact absurd hword (by decide)
    have hoption : u :: us ∉ [text "-i", text "-p", text "-o"] := by
      simp only [List.mem_cons, List.not_mem_nil, or_false]
      rintro (heq | heq | heq)
      · exact hdash (List.cons.inj heq).1
      · exact hdash (List.cons.inj heq).1
      · exact hdash (List.cons.inj heq).1
    show validateLoop toLowerCase ((u :: us) :: rest) state = _
    rw [validateLoop_other (hfirst _ _ rfl) hoption, if_pos ⟨harg, hno⟩]

/-- The same for a list of items. -/
theorem validateLoop_acceptAll {items : List SshItem} (hclean : ∀ item ∈ items, IsClean item)
    (hformed : ∀ item ∈ items, item.Formed)
    (h : SshItem.acceptAll toLowerCase state items = some mid) (rest : List Utf16) :
    validateLoop toLowerCase (items.flatMap SshItem.arguments ++ rest) state =
      validateLoop toLowerCase rest mid := by
  induction items generalizing state with
  | nil =>
      obtain rfl := Option.some.inj h
      rfl
  | cons item items ih =>
      obtain ⟨next, haccept, hrest⟩ := acceptAll_cons h
      rw [List.flatMap_cons, List.append_assoc,
        validateLoop_item (hclean item List.mem_cons_self) (hformed item List.mem_cons_self)
          haccept]
      exact ih (fun other hother => hclean other (List.mem_cons_of_mem item hother))
        (fun other hother => hformed other (List.mem_cons_of_mem item hother)) hrest

theorem acceptAll_append {before behind : List SshItem} {final : SshArgsState}
    (hbefore : SshItem.acceptAll toLowerCase state before = some mid)
    (hbehind : SshItem.acceptAll toLowerCase mid behind = some final) :
    SshItem.acceptAll toLowerCase state (before ++ behind) = some final := by
  rw [SshItem.acceptAll] at hbefore ⊢
  rw [List.foldlM_append, hbefore]
  exact hbehind

/-- Settings of new and different names are accepted. -/
theorem acceptAll_settings {settings : List (Utf16 × Utf16)}
    (hnodup : (settings.map Prod.fst).Nodup)
    (hfresh : ∀ name ∈ settings.map Prod.fst, name ∉ state.seenOptions) :
    SshItem.acceptAll toLowerCase state (settings.map fun s => .setting s.1 s.2) =
      some { state with seenOptions := (settings.map Prod.fst).reverse ++ state.seenOptions } := by
  induction settings generalizing state with
  | nil => rfl
  | cons s settings ih =>
      rw [List.map_cons, List.nodup_cons] at hnodup
      have haccept : SshItem.accept toLowerCase state (.setting s.1 s.2) =
          some { state with seenOptions := s.1 :: state.seenOptions } := by
        simp [SshItem.accept, hfresh s.1 List.mem_cons_self]
      rw [List.map_cons, SshItem.acceptAll, List.foldlM_cons, haccept]
      show SshItem.acceptAll toLowerCase _ _ = _
      rw [ih hnodup.2 fun name hname hseen => ?_]
      · simp
      · rcases List.mem_cons.1 hseen with rfl | hseen
        · exact hnodup.1 hname
        · exact hfresh name (List.mem_cons_of_mem s.1 hname) hseen

end Items

/-! ## The printed items -/

/-- A setting as it is read. -/
def readSetting (s : Setting) : Utf16 × Utf16 :=
  (units s.name.toList,
    if units s.name.toList = text "RequestTTY" then text "yes" else units s.value.value)

def readItem (s : Setting) : SshItem := .setting (readSetting s).1 (readSetting s).2

section Printed

variable (config : SshConfig) (world : SshWorld) (server : SshServer) (disableMultiplexing : Bool)

/-- The items before the destination. -/
def printedItems : List SshItem :=
  (firstSettings config world server disableMultiplexing).map readItem ++
    [.identity (units (keyLocation server).toList)] ++
    (commonSettings config server).map readItem ++
    [.port (units (Nat.toDigits 10 server.port))]

/-- The destination as it is read. -/
def readDestination : Utf16 :=
  units server.user.val.toList ++ unit '@' :: units server.ip.val.toList

end Printed

/-- What the reader needs to know of a name and a value. -/
structure Setting.IsRead (s : Setting) : Prop where
  sign : unit '=' ∉ units s.name.toList
  tty : units s.name.toList = text "RequestTTY" → units s.value.value = text "no"
  name_ne_nil : units s.name.toList ≠ []
  allowed : isAllowedSshOption (readSetting s).1 (readSetting s).2 = true

theorem readItem_arguments {s : Setting} (h : s.IsRead) :
    s.words.map (fun word => withTty (units word.value)) = (readItem s).arguments := by
  have hvalue : units (Word.value [.bare (s.name.toList ++ ['=']), s.value]) =
      units s.name.toList ++ unit '=' :: units s.value.value := by
    simp [Word.value, Piece.value]
  have hoption : withTty (units (Word.value [.bare "-o".toList])) = text "-o" := by decide
  have hsetting : withTty (units s.name.toList ++ unit '=' :: units s.value.value) =
      (readSetting s).1 ++ unit '=' :: (readSetting s).2 := by
    unfold readSetting withTty
    by_cases hname : units s.name.toList = text "RequestTTY"
    · rw [h.tty hname, hname]
      decide
    · rw [if_neg hname, if_neg fun heq => hname ?_]
      have hfront := congrArg (List.takeWhile (· ≠ unit '=')) heq
      rw [takeWhile_sign h.sign] at hfront
      rw [hfront]
      decide
  rw [Setting.words, List.map_cons, List.map_cons, List.map_nil, hvalue, hsetting, hoption]
  rfl

theorem readItem_formed {s : Setting} (h : s.IsRead) : (readItem s).Formed :=
  ⟨h.sign, h.name_ne_nil, h.allowed⟩

theorem isAllowed_numeral {name : Utf16}
    (hname : name ∈ [text "ConnectTimeout", text "ServerAliveInterval", text "ControlPersist"])
    {n : Nat} (hn : 0 < n) :
    isAllowedSshOption name (units (Nat.toDigits 10 n)) = true := by
  have hvalue : (isNumeral (units (Nat.toDigits 10 n)) &&
      decide (0 < number (units (Nat.toDigits 10 n)))) = true := by
    rw [units, number_toDigits, isNumeral_map_unit Nat.toDigits_ne_nil
      fun c hc => isDigit_of_mem_toDigits hc]
    simpa using hn
  have hlookup : fixedOptions.lookup name = none ∧ name ≠ text "RequestTTY" ∧
      (name = text "ConnectTimeout" ∨ name = text "ServerAliveInterval" ∨
        name = text "ControlPersist") := by
    revert name
    decide
  rw [isAllowedSshOption, hlookup.1]
  dsimp only
  rw [if_neg hlookup.2.1, if_pos hlookup.2.2]
  exact hvalue

theorem isWordUnit_unit {c : Char} (h : isBare c = true) :
    isWordUnit (unit c) = (c.isAlphanum || c == '_') := by
  have hfacts := bareFacts_of_isBare h
  simp only [bareFacts, Bool.and_eq_true, beq_iff_eq] at hfacts
  exact hfacts.1.1.2

theorem isNamedBehind_uuid (start : Utf16) (uuid : {uuid : String // isUuid uuid = true}) :
    isNamedBehind start (start ++ units uuid.val.toList) = true := by
  have huuid := uuid.property
  rw [isUuid, Bool.and_eq_true] at huuid
  rw [isNamedBehind, List.isPrefixOf_iff_prefix.2 (List.prefix_append ..), List.drop_left,
    Bool.true_and, Bool.and_eq_true]
  refine ⟨by simpa [units] using huuid.1, ?_⟩
  rw [units, List.all_map, List.all_eq_true]
  intro c hc
  have hclass := List.all_eq_true.1 huuid.2 c hc
  rw [Function.comp_apply, isWordUnit_unit (isBare_uuid hc)]
  simp only [Bool.or_eq_true, beq_iff_eq] at hclass ⊢
  exact hclass.imp_right fun hdash => by rw [hdash]

section Printed

variable {config : SshConfig} {world : SshWorld} {server : SshServer} {disableMultiplexing : Bool}

/-- A setting other than the one of the tty. -/
theorem isRead_of_allowed {name : String} {value : Piece Char}
    (hname : unit '=' ∉ text name ∧ text name ≠ text "RequestTTY" ∧ text name ≠ [])
    (h : isAllowedSshOption (text name) (units value.value) = true) :
    Setting.IsRead ⟨name, value⟩ := by
  refine ⟨hname.1, fun hno => absurd hno hname.2.1, hname.2.2, ?_⟩
  show isAllowedSshOption (text name) (if text name = text "RequestTTY" then _ else _) = true
  rw [if_neg hname.2.1]
  exact h

theorem isAllowed_fixed : ∀ option ∈ fixedOptions, isAllowedSshOption option.1 option.2 = true := by
  decide +kernel

/-- A setting whose value is the same for every server. -/
theorem isRead_fixed {name value : String}
    (hname : unit '=' ∉ text name ∧ text name ≠ text "RequestTTY" ∧ text name ≠ [])
    {i : Nat} (h : fixedOptions[i]? = some (text name, text value)) : Setting.IsRead ⟨name, .bare value.toList⟩ :=
  isRead_of_allowed hname (isAllowed_fixed _ (List.mem_of_getElem? h))

theorem isRead_tty : Setting.IsRead ⟨"RequestTTY", .bare "no".toList⟩ := by
  refine ⟨by decide, fun _ => rfl, by decide, ?_⟩
  show isAllowedSshOption (text "RequestTTY") (if text "RequestTTY" = text "RequestTTY" then
    text "yes" else text "no") = true
  rw [if_pos rfl]
  decide

theorem isRead_numeral {name : String}
    (hname : text name ∈ [text "ConnectTimeout", text "ServerAliveInterval",
      text "ControlPersist"]) {n : Nat} (hn : 0 < n) :
    Setting.IsRead ⟨name, .bare (Nat.toDigits 10 n)⟩ := by
  refine isRead_of_allowed ?_ (isAllowed_numeral hname hn)
  revert hname
  generalize text name = known
  revert known
  decide

theorem isRead_controlPath : Setting.IsRead ⟨"ControlPath", .bare (muxSocket server).toList⟩ := by
  refine isRead_of_allowed (by decide) ?_
  have hpath : units (muxSocket server).toList =
      text "/var/www/html/storage/app/ssh/mux/mux_" ++ units server.uuid.val.toList := by
    unfold muxSocket
    rw [String.toList_append]
    exact units_append _ _
  show isAllowedSshOption (text "ControlPath") (units (muxSocket server).toList) = true
  rw [hpath]
  exact isNamedBehind_uuid _ _

theorem getConnectionTimeout_pos : 0 < getConnectionTimeout config server := by
  unfold getConnectionTimeout
  split
  · split
    · next hpos => omega
    · exact config.connectionTimeout.property
  · exact config.connectionTimeout.property

theorem isRead_first :
    ∀ s ∈ firstSettings config world server disableMultiplexing, s.IsRead := by
  intro s hs
  rw [firstSettings, List.mem_append] at hs
  rcases hs with hs | hs
  · split at hs
    · simp only [multiplexingSettings, List.mem_cons, List.not_mem_nil, or_false] at hs
      rcases hs with rfl | rfl | rfl
      · exact isRead_fixed (by decide) (i := 4) rfl
      · exact isRead_controlPath
      · exact isRead_numeral (by decide) config.muxPersistTime.property
    · cases hs
  · split at hs
    · rw [tunnelSettings, List.mem_singleton] at hs
      subst hs
      exact isRead_of_allowed (by decide)
        (isAllowed_fixed (_, text "cloudflared access ssh --hostname %h")
          (List.mem_of_getElem? (i := 5) rfl))
    · cases hs

theorem isRead_common : ∀ s ∈ commonSettings config server, s.IsRead := by
  simp only [commonSettings, List.forall_mem_cons]
  exact ⟨isRead_fixed (by decide) (i := 0) rfl, isRead_fixed (by decide) (i := 1) rfl,
    isRead_fixed (by decide) (i := 2) rfl,
    isRead_numeral (by decide) getConnectionTimeout_pos,
    isRead_numeral (by decide) config.serverInterval.property, isRead_tty,
    isRead_fixed (by decide) (i := 3) rfl, List.forall_mem_nil _⟩

theorem identity_formed : SshItem.Formed (.identity (units (keyLocation server).toList)) := by
  have hpath : units (keyLocation server).toList =
      text "/var/www/html/storage/app/ssh/keys/ssh_key@" ++
        units server.privateKeyUuid.val.toList := by
    unfold keyLocation
    rw [String.toList_append]
    exact units_append _ _
  show isIdentityFile _ = true
  rw [hpath]
  exact isNamedBehind_uuid _ _

theorem port_formed : SshItem.Formed (.port (units (Nat.toDigits 10 server.port))) := by
  have hport := server.port.property
  show isPort (units (Nat.toDigits 10 server.port)) = true
  rw [isPort, units, number_toDigits, isNumeral_map_unit Nat.toDigits_ne_nil
    fun c hc => isDigit_of_mem_toDigits hc]
  simpa using hport

theorem printedItems_formed :
    ∀ item ∈ printedItems config world server disableMultiplexing, item.Formed := by
  simp only [printedItems, List.forall_mem_append, List.forall_mem_map, List.forall_mem_cons]
  exact ⟨⟨⟨fun s hs => readItem_formed (isRead_first s hs), identity_formed, List.forall_mem_nil _⟩,
    fun s hs => readItem_formed (isRead_common s hs)⟩, port_formed, List.forall_mem_nil _⟩

theorem settings_arguments {settings : List Setting} (h : ∀ s ∈ settings, s.IsRead) :
    (settings.flatMap Setting.words).map (fun word => withTty (units word.value)) =
      (settings.map readItem).flatMap SshItem.arguments := by
  rw [List.map_flatMap, List.flatMap_map]
  exact List.flatMap_congr fun s hs => readItem_arguments (h s hs)

theorem withTty_of_mem {arg : Utf16} {u : UInt16} (h : u ∈ arg)
    (hu : u ∉ text "RequestTTY=no") : withTty arg = arg :=
  if_neg fun (heq : arg = text "RequestTTY=no") => hu (heq ▸ h)

theorem withTty_digits (n : Nat) :
    withTty (units (Nat.toDigits 10 n)) = units (Nat.toDigits 10 n) := by
  have hno : unit 'T' ∉ units (Nat.toDigits 10 n) := notMem_units fun c hc heq => by
    have hdigit := isDigit_of_mem_toDigits hc
    have hT : c = 'T' :=
      unit_inj (toNat_unit_of_ascii (isAscii_of_isDigit hdigit)).2 (by decide) heq
    rw [hT] at hdigit
    cases hdigit
  exact if_neg fun heq => hno (by rw [heq]; decide)

theorem mem_key : unit '/' ∈ units (keyLocation server).toList := by
  unfold keyLocation
  rw [String.toList_append, units_append]
  exact List.mem_append_left _ (by decide)

/-- The words are the items and the destination. -/
theorem read_sshArguments :
    ((sshArguments config world server disableMultiplexing).map fun word =>
        withTty (units word.value)) =
      (printedItems config world server disableMultiplexing).flatMap SshItem.arguments ++
        [readDestination server] := by
  have hidentity : ([[.bare "-i".toList], [.bare (keyLocation server).toList]] :
        List (Word Char)).map (fun word => withTty (units word.value)) =
      SshItem.arguments (.identity (units (keyLocation server).toList)) := by
    have hoption : withTty (units (Word.value [.bare "-i".toList])) = text "-i" := by decide
    have hkey : withTty (units (Word.value [.bare (keyLocation server).toList])) =
        units (keyLocation server).toList := by
      rw [Word.value, List.flatMap_singleton, Piece.value]
      exact withTty_of_mem mem_key (by decide)
    rw [List.map_cons, List.map_cons, List.map_nil, hoption, hkey]
    rfl
  have hport : ([[.bare "-p".toList], [.quoted (Nat.toDigits 10 server.port)]] :
        List (Word Char)).map (fun word => withTty (units word.value)) =
      SshItem.arguments (.port (units (Nat.toDigits 10 server.port))) := by
    have hoption : withTty (units (Word.value [.bare "-p".toList])) = text "-p" := by decide
    have hdigits : withTty (units (Word.value [.quoted (Nat.toDigits 10 server.port)])) =
        units (Nat.toDigits 10 server.port) := by
      rw [Word.value, List.flatMap_singleton, Piece.value]
      exact withTty_digits _
    rw [List.map_cons, List.map_cons, List.map_nil, hoption, hdigits]
    rfl
  have hdestination : withTty (units (destination server).value) = readDestination server := by
    have hunits : units (destination server).value = readDestination server := by
      simp [destination, readDestination, Word.value, Piece.value]
    rw [hunits]
    exact withTty_of_mem (List.mem_append_right _ List.mem_cons_self) (by decide)
  rw [sshArguments_eq, optionWords, List.map_append, List.map_append, List.map_append,
    List.map_append, settings_arguments isRead_first, settings_arguments isRead_common, hidentity,
    hport, List.map_singleton, hdestination]
  simp [printedItems]

theorem hasControl_units {cs : List Char} (h : IsLine cs) : hasControl (units cs) = false := by
  rw [hasControl, List.any_eq_false]
  intro u hu
  obtain ⟨c, hc, rfl⟩ := List.mem_map.1 hu
  have hno : (!(unit c == 0 || unit c == 13 || unit c == 10)) = true := by
    rcases h c hc with hbare | rfl | rfl
    · have hfacts := bareFacts_of_isBare hbare
      simp only [bareFacts, Bool.and_eq_true, bne_iff_ne] at hfacts
      have hspace := (unit_isBare hbare).2.2.2
      have hcontrol : unit c ≠ 13 ∧ unit c ≠ 10 := by
        constructor
        · intro heq
          rw [heq] at hspace
          exact absurd hspace (by decide)
        · intro heq
          rw [heq] at hspace
          exact absurd hspace (by decide)
      simp [hfacts.1.1.1.2, hcontrol]
    · decide
    · decide
  simpa using hno

theorem isLine_value {word : Word Char} (h : IsWord word) : IsLine word.value := by
  intro c hc
  obtain ⟨piece, hpiece, hc⟩ := List.mem_flatMap.1 hc
  have hpart := h.parts piece hpiece
  cases piece with
  | bare text => exact .inl (hpart c hc)
  | quoted text => exact (hpart c hc).imp_right .inl

variable (config world server disableMultiplexing) in
/-- No printed argument has a character that is refused everywhere. -/
theorem hasControl_read :
    ∀ arg ∈ (printedItems config world server disableMultiplexing).flatMap SshItem.arguments ++
      [readDestination server], hasControl arg = false := by
  intro arg harg
  rw [← read_sshArguments] at harg
  obtain ⟨word, hword, rfl⟩ := List.mem_map.1 harg
  unfold withTty
  split
  · decide
  · exact hasControl_units (isLine_value (isWord_sshArguments disableMultiplexing word hword))

/-! ## The check of the printed arguments -/

theorem units_toList (s : String) : units s.toList = text s := rfl

/-- The names of the settings before the identity. -/
def firstNames (multiplexed tunnel : Bool) : List Utf16 :=
  (if multiplexed then OnePloy.multiplexingOptions else []) ++
    if tunnel then [text "ProxyCommand"] else []

variable (config world server disableMultiplexing) in
theorem names_first :
    ((firstSettings config world server disableMultiplexing).map readSetting).map Prod.fst =
      firstNames (isMultiplexed config world server disableMultiplexing)
        server.isCloudflareTunnel := by
  unfold firstSettings firstNames
  rw [List.map_append, List.map_append]
  congr 1
  · split
    · simp only [multiplexingSettings, readSetting, List.map_cons, List.map_nil, units_toList,
        OnePloy.multiplexingOptions]
    · rfl
  · split
    · simp only [tunnelSettings, readSetting, List.map_cons, List.map_nil, units_toList]
    · rfl

variable (config server) in
theorem names_common :
    ((commonSettings config server).map readSetting).map Prod.fst = requiredSshOptions := by
  simp only [commonSettings, readSetting, List.map_cons, List.map_nil, units_toList,
    requiredSshOptions]

theorem names_nodup :
    (requiredSshOptions ++ (OnePloy.multiplexingOptions ++ [text "ProxyCommand"])).Nodup := by
  decide +kernel

theorem firstNames_sublist (multiplexed tunnel : Bool) :
    (firstNames multiplexed tunnel).Sublist
      (OnePloy.multiplexingOptions ++ [text "ProxyCommand"]) := by
  refine List.Sublist.append ?_ ?_
  · cases multiplexed
    · exact List.nil_sublist _
    · exact List.Sublist.refl _
  · cases tunnel
    · exact List.nil_sublist _
    · exact List.Sublist.refl _

/-- The names are all different, and complete. -/
theorem names_complete (multiplexed tunnel : Bool) :
    (requiredSshOptions ++ firstNames multiplexed tunnel).Nodup ∧
      requiredSshOptions.all
        (requiredSshOptions.reverse ++ (firstNames multiplexed tunnel).reverse).contains = true ∧
      (!OnePloy.multiplexingOptions.any
          (requiredSshOptions.reverse ++ (firstNames multiplexed tunnel).reverse).contains ||
        OnePloy.multiplexingOptions.all
          (requiredSshOptions.reverse ++ (firstNames multiplexed tunnel).reverse).contains) =
        true := by
  have hnodup := names_nodup
  refine ⟨hnodup.sublist ((firstNames_sublist multiplexed tunnel).append_left _), ?_, ?_⟩
  · simp only [List.all_eq_true, List.contains_iff_mem, List.mem_append, List.mem_reverse]
    exact fun name hname => .inl hname
  · simp only [Bool.or_eq_true, Bool.not_eq_true', List.any_eq_false, List.all_eq_true,
      List.contains_iff_mem, List.mem_append, List.mem_reverse]
    cases multiplexed with
    | true => exact .inr fun name hname => .inr (List.mem_append_left _ hname)
    | false =>
        rw [List.nodup_append] at hnodup
        obtain ⟨-, hfirst, hdisjoint⟩ := hnodup
        refine .inl fun name hname hseen => ?_
        rcases hseen with hseen | hseen
        · exact hdisjoint name hseen name (List.mem_append_left _ hname) rfl
        · rw [List.nodup_append] at hfirst
          have htunnel : name ∈ [text "ProxyCommand"] := by
            cases tunnel
            · cases hseen
            · exact hseen
          exact hfirst.2.2 name hname name htunnel rfl

/-- What the loop has found before the destination. -/
def stateBefore (config : SshConfig) (world : SshWorld) (server : SshServer)
    (disableMultiplexing : Bool) : SshArgsState where
  seenOptions := requiredSshOptions.reverse ++
    (firstNames (isMultiplexed config world server disableMultiplexing)
      server.isCloudflareTunnel).reverse
  hasIdentityFile := true
  hasPort := true
  targetHost := none

theorem acceptAll_printed (toLowerCase : Utf16 → Utf16) :
    SshItem.acceptAll toLowerCase ⟨[], false, false, none⟩
        (printedItems config world server disableMultiplexing) =
      some (stateBefore config world server disableMultiplexing) := by
  obtain ⟨hnodup, -, -⟩ := names_complete
    (isMultiplexed config world server disableMultiplexing) server.isCloudflareTunnel
  rw [List.nodup_append] at hnodup
  obtain ⟨hrequired, hfirst, hdisjoint⟩ := hnodup
  have hitems : ∀ settings : List Setting, settings.map readItem =
      (settings.map readSetting).map fun s => .setting s.1 s.2 := fun settings => by
    rw [List.map_map]
    rfl
  rw [← names_first config world server disableMultiplexing] at hfirst
  rw [← names_common config server] at hrequired hdisjoint
  have hbefore : SshItem.acceptAll toLowerCase ⟨[], false, false, none⟩ _ = _ :=
    acceptAll_settings hfirst (by simp)
  rw [names_first, List.append_nil] at hbefore
  have hbehind : SshItem.acceptAll toLowerCase
      ⟨(firstNames (isMultiplexed config world server disableMultiplexing)
        server.isCloudflareTunnel).reverse, true, false, none⟩ _ = _ :=
    acceptAll_settings hrequired fun name hname hseen =>
      hdisjoint name hname name (List.mem_reverse.1 hseen) rfl
  rw [names_common] at hbehind
  unfold printedItems
  rw [hitems, hitems]
  exact acceptAll_append (acceptAll_append (acceptAll_append hbefore rfl) hbehind) rfl

/-! ## The destination -/

/-- What the check asks of a user beyond the pattern of user names. -/
def beginsAsWord (user : String) : Bool :=
  user.toList.head?.any fun c => c.isAlphanum || c == '_'

theorem unit_notMem {cs : List Char} {c : Char} (hcs : ∀ d ∈ cs, isBare d = true)
    (hascii : isAscii c = true) (hc : c ∉ cs) : unit c ∉ units cs := notMem_units fun d hd heq => by
  have hdc : d = c := unit_inj (toNat_unit_of_ascii (isAscii_of_isBare (hcs d hd))).2
    (toNat_unit_of_ascii hascii).2 heq
  exact hc (hdc ▸ hd)

theorem unit_notMem_user {c : Char} (hascii : isAscii c = true)
    (h : (c.isAlphanum || c == '.' || c == '_' || c == '-') = false) :
    unit c ∉ units server.user.val.toList := by
  refine unit_notMem (fun _ hd => isBare_user hd) hascii fun hc => ?_
  have huser := server.user.property
  rw [isServerUsername, Bool.and_eq_true, List.all_eq_true] at huser
  have hchar := huser.2 c hc
  rw [h] at hchar
  cases hchar

theorem unit_notMem_ip {c : Char} (hascii : isAscii c = true)
    (h : (c.isAlphanum || ['.', ':', '%', '-'].contains c) = false) :
    unit c ∉ units server.ip.val.toList := by
  refine unit_notMem (fun _ hd => isBare_ip hd) hascii fun hc => ?_
  have hip := server.ip.property
  rw [isAddress, Bool.and_eq_true, List.all_eq_true] at hip
  have hchar := hip.2 c hc
  rw [h] at hchar
  cases hchar

theorem at_notMem_user : unit '@' ∉ units server.user.val.toList := unit_notMem_user rfl rfl

theorem at_notMem_ip : unit '@' ∉ units server.ip.val.toList := unit_notMem_ip rfl rfl

theorem user_ne_nil : server.user.val.toList ≠ [] := by
  have huser := server.user.property
  rw [isServerUsername, Bool.and_eq_true] at huser
  simpa using huser.1

theorem ip_ne_nil : server.ip.val.toList ≠ [] := by
  have hip := server.ip.property
  rw [isAddress, Bool.and_eq_true] at hip
  simpa using hip.1

theorem takeWhile_readDestination :
    (readDestination server).takeWhile (· ≠ unit '@') = units server.user.val.toList := by
  refine takeWhile_append_cons (p := (· ≠ unit '@')) (fun u hu => ?_) (by simp)
  exact decide_eq_true fun heq => at_notMem_user (heq ▸ hu)

theorem hostOf_readDestination : hostOf (readDestination server) = units server.ip.val.toList := by
  have hne : ∀ u ∈ units server.user.val.toList, decide (u ≠ unit '@') = true := fun u hu =>
    decide_eq_true fun heq => at_notMem_user (heq ▸ hu)
  rw [hostOf, readDestination, List.dropWhile_append_of_pos hne,
    List.dropWhile_cons_of_neg (by simp), List.tail_cons]

theorem isUserAtHost_readDestination : isUserAtHost (readDestination server) = true := by
  have hat : unit '@' ∈ readDestination server := List.mem_append_right _ List.mem_cons_self
  rw [isUserAtHost, takeWhile_readDestination, hostOf_readDestination, units_ne_nil user_ne_nil,
    units_ne_nil ip_ne_nil, List.contains_iff_mem.2 hat]
  simpa using at_notMem_ip

/-- A printed destination is one for the check if its user begins as a word. -/
theorem isDestination_readDestination :
    isDestination (readDestination server) = beginsAsWord server.user := by
  have hhead : ((units server.user.val.toList).head?.any isWordUnit) =
      beginsAsWord server.user := by
    rw [units, List.head?_map, beginsAsWord]
    cases huser : server.user.val.toList with
    | nil => rfl
    | cons c cs => exact isWordUnit_unit (isBare_user (by rw [huser]; exact List.mem_cons_self))
  have hall : ((units server.user.val.toList).all fun u =>
      isWordUnit u || u == unit '.' || u == unit '-') = true := by
    have huser := server.user.property
    rw [isServerUsername, Bool.and_eq_true, List.all_eq_true] at huser
    rw [units, List.all_map, List.all_eq_true]
    intro c hc
    have hc' := huser.2 c hc
    rw [Function.comp_apply, isWordUnit_unit (isBare_user hc)]
    simp only [Bool.or_eq_true, beq_iff_eq] at hc' ⊢
    rcases hc' with ((hc' | rfl) | rfl) | rfl
    · exact .inl (.inl (.inl hc'))
    · exact .inl (.inr rfl)
    · exact .inl (.inl (.inr rfl))
    · exact .inr rfl
  rw [isDestination, takeWhile_readDestination, isUserAtHost_readDestination, hhead, hall]
  simp

/-! ## The host -/

/-- `toLowerCase` does with ASCII what it says. -/
def LowersAscii (toLowerCase : Utf16 → Utf16) : Prop :=
  ∀ s, (∀ u ∈ s, u < 128) → toLowerCase s = lowerAscii s

section Host

variable {toLowerCase : Utf16 → Utf16}

theorem toLowerCase_units (hlower : LowersAscii toLowerCase) {cs : List Char} (h : ∀ c ∈ cs, isBare c = true) :
    toLowerCase (units cs) = units (cs.map Char.toLower) := by
  have hascii : ∀ u ∈ units cs, u < 128 := fun u hu => by
    obtain ⟨c, hc, rfl⟩ := List.mem_map.1 hu
    exact UInt16.lt_iff_toNat_lt.2 (toNat_unit_of_ascii (isAscii_of_isBare (h c hc))).1
  rw [hlower _ hascii, lowerAscii, units, units, List.map_map, List.map_map]
  refine List.map_congr_left fun c hc => ?_
  have hfacts := bareFacts_of_isBare (h c hc)
  simp only [bareFacts, Bool.and_eq_true, beq_iff_eq] at hfacts
  exact hfacts.1.2

/-- An address needs nothing but lower case. -/
theorem normalizeHost_units (hlower : LowersAscii toLowerCase) {cs : List Char} (hne : cs ≠ [])
    (h : ∀ c ∈ cs, isBare c = true) :
    normalizeHostForAuthorization toLowerCase (units cs) = some (units (cs.map Char.toLower)) := by
  have hhead : ∀ d, isAscii d = true → isBare d = false → (units cs).head? ≠ some (unit d) := by
    intro d hd hno hhead
    rw [units, List.head?_map, Option.map_eq_some_iff] at hhead
    obtain ⟨c, hc, heq⟩ := hhead
    have hbare := h c (List.mem_of_mem_head? hc)
    have hcd : c = d := unit_inj (toNat_unit_of_ascii (isAscii_of_isBare hbare)).2
      (toNat_unit_of_ascii hd).2 heq
    rw [hcd, hno] at hbare
    cases hbare
  have hstrip : ∀ fuel, stripQuotes fuel (units cs) = units cs := by
    intro fuel
    cases fuel with
    | zero => rfl
    | succ fuel =>
        rw [stripQuotes]
        refine if_neg ?_
        simp [hhead '\'' rfl rfl, hhead '"' rfl rfl]
  have htrim : Js.trim (units cs) = units cs := trim_units (tightEnds_bare h)
  rw [normalizeHostForAuthorization, units_ne_nil hne, if_neg Bool.false_ne_true, htrim]
  dsimp only
  rw [hstrip, if_neg fun hboth => hhead '[' rfl rfl hboth.1, toLowerCase_units hlower h]

theorem isBare_toLower {cs : List Char} (h : ∀ c ∈ cs, isBare c = true) :
    ∀ c ∈ cs.map Char.toLower, isBare c = true := by
  intro c hc
  obtain ⟨d, hd, rfl⟩ := List.mem_map.1 hc
  have hfacts := bareFacts_of_isBare (h d hd)
  simp only [bareFacts, Bool.and_eq_true] at hfacts
  exact hfacts.2

/-- The host of a printed destination is the address of the server, in lower case. -/
theorem extractTargetHost_readDestination (hlower : LowersAscii toLowerCase) :
    extractTargetHost toLowerCase [readDestination server] =
      some (units (server.ip.val.toList.map Char.toLower)) := by
  have hpath : includes (readDestination server) keysPath = false := by
    refine decide_eq_false fun hpart => ?_
    have hmem : unit '/' ∈ readDestination server := hpart.subset (by decide)
    rw [readDestination, List.mem_append, List.mem_cons] at hmem
    rcases hmem with huser | hat | hip
    · exact unit_notMem_user rfl rfl huser
    · exact absurd hat (by decide)
    · exact unit_notMem_ip rfl rfl hip
  rw [extractTargetHost, List.find?_cons_of_pos (by simp [hpath, isUserAtHost_readDestination]),
    Option.bind_some, hostOf_readDestination]
  exact normalizeHost_units hlower ip_ne_nil fun _ hc => isBare_ip hc

/-- An authorised address authorises its destination. -/
theorem isAuthorizedTargetHost_ip (hlower : LowersAscii toLowerCase)
    {authorizedHosts : List Utf16}
    (hip : units server.ip.val.toList ∈ authorizedHosts) :
    isAuthorizedTargetHost toLowerCase (some (units (server.ip.val.toList.map Char.toLower)))
      authorizedHosts = true := by
  have hbare : ∀ c ∈ server.ip.val.toList, isBare c = true := fun _ hc => isBare_ip hc
  have hagain : (server.ip.val.toList.map Char.toLower).map Char.toLower =
      server.ip.val.toList.map Char.toLower := by
    rw [List.map_map]
    exact List.map_congr_left fun c _ => toLower_toLower c
  have hne : server.ip.val.toList.map Char.toLower ≠ [] := by simpa using ip_ne_nil
  rw [isAuthorizedTargetHost, Option.bind_some,
    normalizeHost_units hlower hne (isBare_toLower hbare), hagain]
  dsimp only
  rw [units_ne_nil hne, Bool.not_false, Bool.true_and, List.contains_iff_mem]
  exact List.mem_map.2 ⟨_, hip, normalizeHost_units hlower ip_ne_nil hbare⟩

/-- The printed arguments of a server whose address is authorised are accepted exactly if
its user begins as a word. -/
theorem validateSshArgs_printed (hlower : LowersAscii toLowerCase)
    {authorizedHosts : List Utf16} (hip : units server.ip.val.toList ∈ authorizedHosts) :
    validateSshArgs toLowerCase
        ((printedItems config world server disableMultiplexing).flatMap SshItem.arguments ++
          [readDestination server]) authorizedHosts = beginsAsWord server.user := by
  obtain ⟨-, hrequired, hcomplete⟩ := names_complete
    (isMultiplexed config world server disableMultiplexing) server.isCloudflareTunnel
  have hclean := hasControl_read config world server disableMultiplexing
  have hloop := validateLoop_acceptAll
    (fun item hitem arg harg => hclean arg
      (List.mem_append_left _ (List.mem_flatMap.2 ⟨item, hitem, harg⟩)))
    printedItems_formed (acceptAll_printed toLowerCase) [readDestination server]
  have hoption : readDestination server ∉ [text "-i", text "-p", text "-o"] := by
    have hat : unit '@' ∈ readDestination server := List.mem_append_right _ List.mem_cons_self
    have hno : ∀ arg ∈ [text "-i", text "-p", text "-o"], unit '@' ∉ arg := by decide
    exact fun hmem => hno _ hmem hat
  have hne : ((printedItems config world server disableMultiplexing).flatMap SshItem.arguments ++
      [readDestination server]).isEmpty = false := by simp
  rw [validateLoop_other (hclean _ (List.mem_append_right _ List.mem_cons_self)) hoption,
    isDestination_readDestination] at hloop
  unfold validateSshArgs
  rw [hloop]
  by_cases huser : beginsAsWord server.user = true
  · rw [if_pos ⟨huser, rfl⟩, validateLoop, extractTargetHost_readDestination hlower, huser]
    dsimp only
    rw [hne, isAuthorizedTargetHost_ip hlower hip]
    unfold stateBefore
    dsimp only
    rw [hrequired, hcomplete]
    rfl
  · rw [if_neg fun hboth => huser hboth.1]
    simpa using huser

end Host

end Printed

/-! ## The round trip -/

theorem units_inj {cs ds : List Char} (hcs : ∀ c ∈ cs, isAscii c = true)
    (hds : ∀ c ∈ ds, isAscii c = true) (h : units cs = units ds) : cs = ds := by
  have hprefix : cs <+: ds :=
    prefix_of_prefix_encode hcs (by rw [← units_eq_encode hds, ← h]; exact List.prefix_rfl)
  have hlength := congrArg List.length h
  rw [units, units, List.length_map, List.length_map] at hlength
  exact hprefix.eq_of_length hlength

/-- An argument of the shell as the terminal has it. -/
def readWord (word : List Char) : Utf16 :=
  if word = "RequestTTY=no".toList then text "RequestTTY=yes" else encode word

theorem readWord_eq {word : List Char} (h : ∀ c ∈ word, isAscii c = true) :
    readWord word = withTty (units word) := by
  have htty : ∀ c ∈ "RequestTTY=no".toList, isAscii c = true := List.all_eq_true.1 rfl
  rw [readWord, withTty, ← units_eq_encode h]
  by_cases hword : word = "RequestTTY=no".toList
  · rw [if_pos hword, if_pos (by rw [hword]; rfl)]
  · have hne : units word ≠ text "RequestTTY=no" := fun heq => hword (units_inj h htty heq)
    rw [if_neg hword, if_neg hne]

section RoundTrip

variable {toLowerCase : Utf16 → Utf16} {config : SshConfig} {world : SshWorld}
  {server : SshServer} {command printed : String} {disableMultiplexing : Bool}
  {commandTimeout : Option Int}

/-- The terminal accepts the command of an authorised server by its user. -/
theorem validateSshArgs_read (hlower : LowersAscii toLowerCase)
    (h : generateSshCommand config world server command disableMultiplexing commandTimeout =
      .ok printed)
    (hdelimiter : ¬ (delimiter world command).toList <:+: command.toList)
    {authorizedHosts : List Utf16} (hip : encode server.ip.val.toList ∈ authorizedHosts) :
    validateSshArgs toLowerCase (extractSshArgs (commandString printed)) authorizedHosts =
      beginsAsWord server.user := by
  rw [← units_eq_encode fun c hc => isAscii_of_isBare (isBare_ip hc)] at hip
  rw [extractSshArgs_eq h hdelimiter, read_sshArguments, validateSshArgs_printed hlower hip]

end RoundTrip

/-- What the shell makes of a printed command is what the terminal reads, with a tty; the
here-document is the text in one line; and the arguments are accepted for an authorised
address if and only if the user begins with a letter, a digit or `_`. -/
theorem terminal_reads_back (toLowerCase : Utf16 → Utf16) (hlower : LowersAscii toLowerCase)
    (config : SshConfig) (world : SshWorld) (server : SshServer) (command printed : String)
    (disableMultiplexing : Bool) (commandTimeout : Option Int)
    (h : generateSshCommand config world server command disableMultiplexing commandTimeout =
      .ok printed)
    (hdelimiter : ¬ (delimiter world command).toList <:+: command.toList)
    (authorizedHosts : List Utf16) (hip : encode server.ip.val.toList ∈ authorizedHosts) :
    (∃ words, sshWords printed.toList = some words ∧
        extractSshArgs (commandString printed) = words.map readWord) ∧
      extractHereDocContent (commandString printed) =
        unit ' ' :: joinLines (encode command.toList) ++ [unit ' '] ∧
      (validateSshArgs toLowerCase (extractSshArgs (commandString printed)) authorizedHosts = true ↔
        beginsAsWord server.user = true) := by
  refine ⟨⟨_, sshWords_eq h hdelimiter, ?_⟩, extractHereDocContent_eq h hdelimiter, ?_⟩
  · rw [extractSshArgs_eq h hdelimiter, List.map_map]
    exact List.map_congr_left fun word hword => (readWord_eq
      (isLine_value (isWord_sshArguments disableMultiplexing word hword)).isAscii).symm
  · rw [validateSshArgs_read hlower h hdelimiter hip]

/-! ## Two users -/

def sampleConfig : SshConfig where
  commandTimeout := 3600
  connectionTimeout := ⟨10, by decide⟩
  serverInterval := ⟨20, by decide⟩
  muxPersistTime := ⟨3600, by decide⟩
  muxEnabled := true
  isWindowsDockerDesktop := false

def sampleWorld : SshWorld where
  validateSshKey := fun _ => .ok ()
  ensureMultiplexedConnection := fun _ => .ok true
  hashMake := fun _ => ⟨[36, 50, 121], by decide⟩

def sampleServer (user : ServerUsername) : SshServer where
  user := user
  ip := ⟨"10.0.0.5", by decide⟩
  port := ⟨22, by decide⟩
  uuid := ⟨"srv1", by decide⟩
  privateKeyUuid := ⟨"key1", by decide⟩
  connectionTimeout := none
  isCloudflareTunnel := true
  forceDisabled := false

/-- The command that is printed for a user. -/
def sampleCommand (user : ServerUsername) : String :=
  match generateSshCommand sampleConfig sampleWorld (sampleServer user) "echo hi\nls" false none with
  | .ok printed => printed
  | .error _ => ""

theorem sample_not_infix :
    ¬ (delimiter sampleWorld "echo hi\nls").toList <:+: "echo hi\nls".toList := by
  intro hpart
  have hcapital : 'J' ∈ (delimiter sampleWorld "echo hi\nls").toList := by
    rw [delimiter, String.toList_ofList]
    decide
  exact absurd (hpart.subset hcapital) (by decide)

theorem root_reads_back :
    validateSshArgs lowerAscii (extractSshArgs (commandString (sampleCommand ⟨"root", by decide⟩)))
        [text "10.0.0.5"] = true ∧
      extractHereDocContent (commandString (sampleCommand ⟨"root", by decide⟩)) =
        text " echo hi ls " := by
  obtain ⟨-, hhere, haccepted⟩ := terminal_reads_back lowerAscii (fun _ _ => rfl) sampleConfig
    sampleWorld (sampleServer ⟨"root", by decide⟩) "echo hi\nls" _ false none rfl sample_not_infix
    [text "10.0.0.5"] (List.mem_singleton.2 (by decide))
  exact ⟨haccepted.2 (by decide), hhere⟩

/-- The pattern of user names lets a user begin with `-`. -/
theorem evil_is_refused :
    validateSshArgs lowerAscii (extractSshArgs (commandString (sampleCommand ⟨"-evil", by decide⟩)))
      [text "10.0.0.5"] = false := by
  have hprinted : generateSshCommand sampleConfig sampleWorld (sampleServer ⟨"-evil", by decide⟩)
      "echo hi\nls" false none = .ok (sampleCommand ⟨"-evil", by decide⟩) := rfl
  have hip : encode (sampleServer ⟨"-evil", by decide⟩).ip.val.toList ∈ [text "10.0.0.5"] :=
    List.mem_singleton.2 (by decide)
  exact validateSshArgs_read (fun _ _ => rfl) hprinted sample_not_infix hip

end SshCommand

end OnePloy
