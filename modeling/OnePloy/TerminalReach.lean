import OnePloy.TerminalCommand
import OnePloy.Lib.Getopt
import Mathlib.Data.List.TakeWhile
import Mathlib.Data.List.Nodup
import Mathlib.Data.Bool.AllAny

/-!
# TerminalReach

Where the terminal gets to. What the check of the arguments accepts is a list of
options with their values and of destinations; ssh, which takes options before and
after its first operand, makes of them what the check has seen as long as there is one
destination only and the here-document is not taken for an option.
-/

namespace OnePloy

open Js Getopt

/-! ## ssh -/

/-- The options of ssh. -/
def sshGrammar : Grammar UInt16 where
  dash := unit '-'
  takesValue := fun c =>
    if c ∈ text "1246afgknqstvxyACGKMNTVXY" then some false
    else if c ∈ text "bceilmopwBDEFIJLOPQRSW" then some true
    else none

/-- The settings among some options. -/
def settingNames (options : List (Opt UInt16)) : List Utf16 :=
  (options.filter fun o => o.letter == unit 'o').map fun o =>
    (o.value.getD []).takeWhile (· ≠ unit '=')

/-- An option that the terminal may give to ssh. -/
def IsPermitted (o : Opt UInt16) : Prop :=
  (∃ file, o = ⟨unit 'i', some file⟩ ∧ isIdentityFile file = true) ∨
  (∃ port, o = ⟨unit 'p', some port⟩ ∧ isPort port = true) ∨
  (∃ name value, o = ⟨unit 'o', some (name ++ unit '=' :: value)⟩ ∧ unit '=' ∉ name ∧
    isAllowedSshOption name value = true ∧ name ∉ multiplexingOptions)

/-- ssh goes to an authorised host, with permitted options, none of them twice, and the
here-document is its command. -/
structure ReachesAuthorised (toLowerCase : Utf16 → Utf16) (authorizedHosts : List Utf16)
    (hereDocContent : Utf16) (reading : Reading UInt16) : Prop where
  destination : ∃ user host, reading.operand = some (user ++ unit '@' :: host) ∧
    unit '@' ∉ host ∧ isAuthorizedTargetHost toLowerCase (some host) authorizedHosts = true
  permitted : ∀ o ∈ reading.options, IsPermitted o
  oneIdentity : reading.options.countP (fun o => o.letter == unit 'i') = 1
  onePort : reading.options.countP (fun o => o.letter == unit 'p') = 1
  settings : (settingNames reading.options).Nodup
  command : reading.rest = [hereDocContent]

/-! ## What the check accepts -/

/-- An option with its value, or a destination. -/
inductive SshItem
  | identity (file : Utf16)
  | port (port : Utf16)
  | setting (name value : Utf16)
  | destination (arg : Utf16)

namespace SshItem

def arguments : SshItem → List Utf16
  | identity file => [text "-i", file]
  | port p => [text "-p", p]
  | setting name value => [text "-o", name ++ unit '=' :: value]
  | destination arg => [arg]

/-- What the check asks of an item by itself. -/
def Formed : SshItem → Prop
  | identity file => isIdentityFile file = true
  | port p => isPort p = true
  | setting name value => unit '=' ∉ name ∧ name ≠ [] ∧ isAllowedSshOption name value = true
  | destination arg => isDestination arg = true

/-- What an item changes, if it may stand here. -/
def accept (toLowerCase : Utf16 → Utf16) (state : SshArgsState) : SshItem → Option SshArgsState
  | identity _ =>
      if state.hasIdentityFile then none else some { state with hasIdentityFile := true }
  | port _ => if state.hasPort then none else some { state with hasPort := true }
  | setting name _ =>
      if state.seenOptions.contains name then none
      else some { state with seenOptions := name :: state.seenOptions }
  | destination arg =>
      if state.targetHost.isSome then none
      else some { state with targetHost := extractTargetHost toLowerCase [arg] }

def acceptAll (toLowerCase : Utf16 → Utf16) (state : SshArgsState) (items : List SshItem) :
    Option SshArgsState := items.foldlM (accept toLowerCase) state

end SshItem

section Validation

variable {toLowerCase : Utf16 → Utf16}

theorem splitUnit?_eq_some {c : UInt16} {s a b : Utf16} (h : splitUnit? c s = some (a, b)) :
    s = a ++ c :: b ∧ c ∉ a := by
  unfold splitUnit? at h
  split at h
  · next hmem =>
    obtain ⟨rfl, rfl⟩ := Prod.mk.inj (Option.some.inj h)
    have hno : c ∉ s.takeWhile (· ≠ c) := fun hc => by
      have := List.mem_takeWhile_imp hc
      simp at this
    have hcut := List.takeWhile_append_dropWhile (p := (· ≠ c)) (l := s)
    have hdrop : s.dropWhile (· ≠ c) = c :: (s.dropWhile (· ≠ c)).tail := by
      cases hd : s.dropWhile (· ≠ c) with
      | nil =>
          rw [hd, List.append_nil] at hcut
          rw [hcut] at hno
          exact absurd hmem hno
      | cons x xs =>
          have hx := List.head?_dropWhile_not (· ≠ c) s
          rw [hd] at hx
          have : x = c := by simpa using hx
          rw [this, List.tail_cons]
    exact ⟨by rw [← hdrop, hcut], hno⟩
  · cases h

/-- An item that is accepted before others that are. -/
theorem items_cons (item : SshItem) {rest : List Utf16} {state mid final : SshArgsState}
    (hformed : item.Formed) (haccept : item.accept toLowerCase state = some mid)
    (h : ∃ items, rest = items.flatMap SshItem.arguments ∧ (∀ item ∈ items, item.Formed) ∧
      SshItem.acceptAll toLowerCase mid items = some final) :
    ∃ items, item.arguments ++ rest = items.flatMap SshItem.arguments ∧
      (∀ item ∈ items, item.Formed) ∧
      SshItem.acceptAll toLowerCase state items = some final := by
  obtain ⟨items, rfl, hall, hrest⟩ := h
  refine ⟨item :: items, List.flatMap_cons.symm, List.forall_mem_cons.mpr ⟨hformed, hall⟩, ?_⟩
  rw [SshItem.acceptAll, List.foldlM_cons, haccept]
  exact hrest

/-- What the check accepts is made of items, each accepted in its turn. -/
theorem validateLoop_items {sshArgs : List Utf16} {state final : SshArgsState}
    (h : validateLoop toLowerCase sshArgs state = some final) :
    ∃ items, sshArgs = items.flatMap SshItem.arguments ∧ (∀ item ∈ items, item.Formed) ∧
      SshItem.acceptAll toLowerCase state items = some final := by
  fun_induction validateLoop toLowerCase sshArgs state with
  | case1 state => exact ⟨[], rfl, by nofun, h⟩
  | case5 state file rest hok hcontrol ih =>
      simp only [Bool.or_eq_true, Bool.not_eq_true', not_or, Bool.not_eq_false,
        Bool.not_eq_true] at hok
      exact items_cons (SshItem.identity file) hok.2
        (by simp [SshItem.accept, hok.1]) (ih h)
  | case8 state port rest hok hcontrol hno ih =>
      simp only [Bool.or_eq_true, Bool.not_eq_true', not_or, Bool.not_eq_false,
        Bool.not_eq_true] at hok
      exact items_cons (SshItem.port port) hok.2 (by simp [SshItem.accept, hok.1]) (ih h)
  | case12 state option rest name value hsplit hok hcontrol hno hno' ih =>
      simp only [Bool.or_eq_true, Bool.not_eq_true', not_or, Bool.not_eq_false,
        Bool.not_eq_true] at hok
      obtain ⟨⟨hne, hseen⟩, hallowed⟩ := hok
      obtain ⟨rfl, hsign⟩ := splitUnit?_eq_some hsplit
      exact items_cons (SshItem.setting name value)
        ⟨hsign, by simpa using hne, hallowed⟩ (by simpa [SshItem.accept] using hseen) (ih h)
  | case13 argument rest state hcontrol hno hno' hno'' hok ih =>
      exact items_cons (SshItem.destination argument) hok.1
        (by simp [SshItem.accept, hok.2]) (ih h)
  | _ => cases h

end Validation

/-! ## What follows for the items -/

namespace SshItem

def isIdentity : SshItem → Bool
  | identity _ => true
  | _ => false

def isPortItem : SshItem → Bool
  | port _ => true
  | _ => false

def settingName : SshItem → Option Utf16
  | setting name _ => some name
  | _ => none

def destinationArg : SshItem → Option Utf16
  | destination arg => some arg
  | _ => none

/-- The item as ssh is to read it, if it is an option. -/
def pair : SshItem → Option (UInt16 × Utf16)
  | identity file => some (unit 'i', file)
  | port p => some (unit 'p', p)
  | setting name value => some (unit 'o', name ++ unit '=' :: value)
  | destination _ => none

/-- The items that are not taken out again. -/
def isKept : SshItem → Bool
  | setting name _ => !multiplexingOptions.contains name
  | _ => true

end SshItem

section Items

variable {toLowerCase : Utf16 → Utf16} {items : List SshItem} {state final : SshArgsState}

theorem acceptAll_cons {item : SshItem}
    (h : SshItem.acceptAll toLowerCase state (item :: items) = some final) :
    ∃ mid, item.accept toLowerCase state = some mid ∧
      SshItem.acceptAll toLowerCase mid items = some final := by
  rw [SshItem.acceptAll, List.foldlM_cons] at h
  exact Option.bind_eq_some_iff.mp h

/-- Each item is accepted in a state that has none of its kind yet, and leaves one. -/
theorem accept_cases {item : SshItem} (h : item.accept toLowerCase state = some final) :
    (∃ file, item = .identity file ∧ state.hasIdentityFile = false ∧
      final = { state with hasIdentityFile := true }) ∨
    (∃ p, item = .port p ∧ state.hasPort = false ∧ final = { state with hasPort := true }) ∨
    (∃ name value, item = .setting name value ∧ name ∉ state.seenOptions ∧
      final = { state with seenOptions := name :: state.seenOptions }) ∨
    ∃ arg, item = .destination arg ∧ state.targetHost = none ∧
      final = { state with targetHost := extractTargetHost toLowerCase [arg] } := by
  cases item with
  | identity file =>
      obtain ⟨hno, heq⟩ := Option.ite_none_left_eq_some.mp h
      exact .inl ⟨file, rfl, by simpa using hno, (Option.some.inj heq).symm⟩
  | port p =>
      obtain ⟨hno, heq⟩ := Option.ite_none_left_eq_some.mp h
      exact .inr (.inl ⟨p, rfl, by simpa using hno, (Option.some.inj heq).symm⟩)
  | setting name value =>
      obtain ⟨hno, heq⟩ := Option.ite_none_left_eq_some.mp h
      exact .inr (.inr (.inl ⟨name, value, rfl, by simpa using hno, (Option.some.inj heq).symm⟩))
  | destination arg =>
      obtain ⟨hno, heq⟩ := Option.ite_none_left_eq_some.mp h
      exact .inr (.inr (.inr ⟨arg, rfl, by simpa using hno, (Option.some.inj heq).symm⟩))

/-- What accepting one item leaves: each flag is raised by an item of its kind only, and
once, and the settings are all different. -/
theorem accept_counts {item : SshItem} (h : item.accept toLowerCase state = some final) :
    final.hasIdentityFile.toNat = state.hasIdentityFile.toNat + item.isIdentity.toNat ∧
      final.hasPort.toNat = state.hasPort.toNat + item.isPortItem.toNat ∧
      final.seenOptions = item.settingName.toList ++ state.seenOptions ∧
      ∀ name ∈ item.settingName, name ∉ state.seenOptions := by
  rcases accept_cases h with ⟨_, rfl, hno, rfl⟩ | ⟨_, rfl, hno, rfl⟩ | ⟨_, _, rfl, hno, rfl⟩ |
    ⟨_, rfl, -, rfl⟩
  · simp [SshItem.isIdentity, SshItem.isPortItem, SshItem.settingName, hno]
  · simp [SshItem.isIdentity, SshItem.isPortItem, SshItem.settingName, hno]
  · simpa [SshItem.isIdentity, SshItem.isPortItem, SshItem.settingName] using hno
  · simp [SshItem.isIdentity, SshItem.isPortItem, SshItem.settingName]

/-- The same over a whole list. -/
theorem acceptAll_counts (h : SshItem.acceptAll toLowerCase state items = some final) :
    final.hasIdentityFile.toNat = state.hasIdentityFile.toNat + items.countP SshItem.isIdentity ∧
      final.hasPort.toNat = state.hasPort.toNat + items.countP SshItem.isPortItem ∧
      final.seenOptions = (items.filterMap SshItem.settingName).reverse ++ state.seenOptions ∧
      (state.seenOptions.Nodup → final.seenOptions.Nodup) := by
  induction items generalizing state with
  | nil =>
      obtain rfl := Option.some.inj h
      simp
  | cons item items ih =>
      obtain ⟨mid, haccept, hrest⟩ := acceptAll_cons h
      obtain ⟨hidentity, hport, hseen, hfresh⟩ := accept_counts haccept
      obtain ⟨hidentity', hport', hseen', hnodup⟩ := ih hrest
      refine ⟨?_, ?_, ?_, fun hstate => hnodup ?_⟩
      · rw [hidentity', hidentity, List.countP_cons]
        cases item.isIdentity <;> simp only [Bool.toNat_true, Bool.toNat_false, if_true,
          Bool.false_eq_true, if_false] <;> omega
      · rw [hport', hport, List.countP_cons]
        cases item.isPortItem <;> simp only [Bool.toNat_true, Bool.toNat_false, if_true,
          Bool.false_eq_true, if_false] <;> omega
      · rw [hseen', hseen, List.filterMap_cons]
        cases item.settingName <;> simp
      · rw [hseen]
        cases hname : item.settingName with
        | none => simpa using hstate
        | some name => exact List.nodup_cons.mpr ⟨hfresh name hname, hstate⟩

/-- A destination that is passed over when the host is looked for. -/
def IsGhost (toLowerCase : Utf16 → Utf16) (arg : Utf16) : Prop :=
  extractTargetHost toLowerCase [arg] = none

/-- Once there is a host there are no destinations any more. -/
theorem acceptAll_target_some (h : SshItem.acceptAll toLowerCase state items = some final)
    (htarget : state.targetHost.isSome) :
    items.filterMap SshItem.destinationArg = [] ∧ final.targetHost = state.targetHost := by
  induction items generalizing state with
  | nil =>
      obtain rfl := Option.some.inj h
      exact ⟨rfl, rfl⟩
  | cons item items ih =>
      obtain ⟨mid, haccept, hrest⟩ := acceptAll_cons h
      have hmid : mid.targetHost = state.targetHost ∧ item.destinationArg = none := by
        rcases accept_cases haccept with ⟨_, rfl, -, rfl⟩ | ⟨_, rfl, -, rfl⟩ |
          ⟨_, _, rfl, -, rfl⟩ | ⟨_, -, hno, -⟩
        · exact ⟨rfl, rfl⟩
        · exact ⟨rfl, rfl⟩
        · exact ⟨rfl, rfl⟩
        · rw [hno] at htarget
          cases htarget
      obtain ⟨hno, hfinal⟩ := ih hrest (by rw [hmid.1]; exact htarget)
      rw [List.filterMap_cons_none hmid.2, hno, hfinal, hmid.1]
      exact ⟨rfl, rfl⟩

/-- The destinations are some that are passed over and then the one whose host is found. -/
theorem acceptAll_target_none (h : SshItem.acceptAll toLowerCase state items = some final)
    (htarget : state.targetHost = none) {host : Utf16} (hfinal : final.targetHost = some host) :
    ∃ ghosts arg, items.filterMap SshItem.destinationArg = ghosts ++ [arg] ∧
      (∀ ghost ∈ ghosts, IsGhost toLowerCase ghost) ∧
      extractTargetHost toLowerCase [arg] = some host := by
  induction items generalizing state with
  | nil =>
      obtain rfl := Option.some.inj h
      rw [htarget] at hfinal
      cases hfinal
  | cons item items ih =>
      obtain ⟨mid, haccept, hrest⟩ := acceptAll_cons h
      have hpassed (hno : item.destinationArg = none) (hmid : mid.targetHost = none) :
          ∃ ghosts arg, (item :: items).filterMap SshItem.destinationArg = ghosts ++ [arg] ∧
            (∀ ghost ∈ ghosts, IsGhost toLowerCase ghost) ∧
            extractTargetHost toLowerCase [arg] = some host := by
        obtain ⟨ghosts, real, hitems, hrest⟩ := ih hrest hmid
        exact ⟨ghosts, real, by rw [List.filterMap_cons_none hno, hitems], hrest⟩
      rcases accept_cases haccept with ⟨_, rfl, -, rfl⟩ | ⟨_, rfl, -, rfl⟩ |
        ⟨_, _, rfl, -, rfl⟩ | ⟨arg, rfl, -, rfl⟩
      · exact hpassed rfl htarget
      · exact hpassed rfl htarget
      · exact hpassed rfl htarget
      · cases hextract : extractTargetHost toLowerCase [arg] with
        | none =>
            obtain ⟨ghosts, real, hitems, hghosts, hreal⟩ := ih hrest hextract
            refine ⟨arg :: ghosts, real, ?_, List.forall_mem_cons.mpr ⟨hextract, hghosts⟩, hreal⟩
            simp [SshItem.destinationArg, hitems]
        | some found =>
            obtain ⟨hno, hsame⟩ := acceptAll_target_some hrest (by simp [hextract])
            refine ⟨[], arg, ?_, by nofun, ?_⟩
            · simp [SshItem.destinationArg, hno]
            · rw [← hfinal, hsame]

/-! ## What ssh is given -/

theorem sanitizeSshArgs_cons {arg : Utf16} (h : arg ≠ text "-o") (rest : List Utf16) :
    sanitizeSshArgs (arg :: rest) = arg :: sanitizeSshArgs rest := by
  cases rest with
  | nil => rfl
  | cons next rest => rw [sanitizeSshArgs, if_neg (fun hboth => h hboth.1)]

theorem takeWhile_sign {name : Utf16} (h : unit '=' ∉ name) (value : Utf16) :
    (name ++ unit '=' :: value).takeWhile (· ≠ unit '=') = name := by
  rw [List.takeWhile_append_of_pos fun u hu => by
    simpa using fun heq : u = unit '=' => h (heq ▸ hu)]
  simp

theorem not_dash_of_isDestination {arg : Utf16} (h : isDestination arg = true) :
    ∃ u us, arg = u :: us ∧ isWordUnit u = true := by
  simp only [isDestination, Bool.and_eq_true, Option.any_eq_true] at h
  obtain ⟨⟨-, u, hhead, hword⟩, -⟩ := h
  cases arg with
  | nil => cases hhead
  | cons c cs =>
      by_cases hc : c = unit '@'
      · simp [hc] at hhead
      · rw [List.takeWhile_cons_of_pos (by simpa using hc)] at hhead
        obtain rfl := Option.some.inj hhead
        exact ⟨c, cs, rfl, hword⟩

theorem isOptionWord_destination {arg : Utf16} (h : isDestination arg = true) :
    isOptionWord sshGrammar arg = false := by
  obtain ⟨u, us, rfl, hword⟩ := not_dash_of_isDestination h
  have hne : u ≠ unit '-' := by
    rintro rfl
    revert hword
    decide
  simp [isOptionWord, sshGrammar, hne]

theorem isIdentityFile_ne {file : Utf16} (h : isIdentityFile file = true) :
    file ≠ text "-o" := by
  rintro rfl
  exact absurd h Bool.false_ne_true

theorem isPort_ne {p : Utf16} (h : isPort p = true) : p ≠ text "-o" := by
  rintro rfl
  exact absurd h Bool.false_ne_true

/-- Sanitising takes whole items out. -/
theorem sanitizeSshArgs_items (h : ∀ item ∈ items, item.Formed) :
    sanitizeSshArgs (items.flatMap SshItem.arguments)
      = (items.filter SshItem.isKept).flatMap SshItem.arguments := by
  induction items with
  | nil => rfl
  | cons item items ih =>
      rw [List.forall_mem_cons] at h
      have ih := ih h.2
      rw [List.flatMap_cons]
      obtain ⟨tail, htail⟩ : ∃ tail, tail = items.flatMap SshItem.arguments := ⟨_, rfl⟩
      rw [← htail] at ih ⊢
      cases item with
      | identity file =>
          rw [List.filter_cons_of_pos rfl, List.flatMap_cons, ← ih]
          change sanitizeSshArgs (text "-i" :: file :: tail) = text "-i" :: file :: _
          rw [sanitizeSshArgs_cons (by decide), sanitizeSshArgs_cons (isIdentityFile_ne h.1)]
          rfl
      | port p =>
          rw [List.filter_cons_of_pos rfl, List.flatMap_cons, ← ih]
          change sanitizeSshArgs (text "-p" :: p :: tail) = text "-p" :: p :: _
          rw [sanitizeSshArgs_cons (by decide), sanitizeSshArgs_cons (isPort_ne h.1)]
          rfl
      | setting name value =>
          change sanitizeSshArgs (text "-o" :: (name ++ unit '=' :: value) :: tail) = _
          rw [sanitizeSshArgs, takeWhile_sign h.1.1]
          by_cases hkept : multiplexingOptions.contains name = true
          · rw [if_pos ⟨rfl, hkept⟩, ih, List.filter_cons_of_neg]
            simpa [SshItem.isKept] using hkept
          · have hne : name ++ unit '=' :: value ≠ text "-o" := by
              intro heq
              have hmem : unit '=' ∈ text "-o" := by
                rw [← heq]
                simp
              revert hmem
              decide
            rw [if_neg (fun hboth => hkept hboth.2), sanitizeSshArgs_cons hne,
              List.filter_cons_of_pos (by simpa [SshItem.isKept] using hkept), List.flatMap_cons,
              ← ih]
            rfl
      | destination arg =>
          have hne : arg ≠ text "-o" := by
            obtain ⟨u, us, rfl, hword⟩ := not_dash_of_isDestination h.1
            intro heq
            obtain rfl : u = unit '-' := (List.cons.inj heq).1
            revert hword
            decide
          rw [List.filter_cons_of_pos rfl, List.flatMap_cons, ← ih]
          exact sanitizeSshArgs_cons hne _

/-- The options among the items, as ssh is to read them. -/
def SshItem.pairs (items : List SshItem) : List (UInt16 × Utf16) := items.filterMap SshItem.pair

theorem flatMap_arguments_options (h : items.filterMap SshItem.destinationArg = []) :
    items.flatMap SshItem.arguments = spread sshGrammar (SshItem.pairs items) := by
  induction items with
  | nil => rfl
  | cons item items ih =>
      cases item with
      | destination arg => simp [SshItem.destinationArg] at h
      | _ =>
          have hrest : items.filterMap SshItem.destinationArg = [] := by
            simpa [SshItem.destinationArg] using h
          rw [List.flatMap_cons, ih hrest]
          rfl

/-- Behind options, ssh reads on with what follows them. -/
theorem readOptions_items (h : items.filterMap SshItem.destinationArg = []) (words : List Utf16) :
    readOptions sshGrammar (items.flatMap SshItem.arguments ++ words)
      = (readOptions sshGrammar words).map fun r => (valued (SshItem.pairs items) ++ r.1, r.2) := by
  rw [flatMap_arguments_options h]
  refine readOptions_spread ?_ words
  have hletters : ∀ c ∈ [unit 'i', unit 'p', unit 'o'],
      sshGrammar.takesValue c = some true ∧ c ≠ sshGrammar.dash :=
    List.all_iff_forall_prop.mp (by decide)
  intro p hp
  obtain ⟨item, -, hpair⟩ := List.mem_filterMap.mp hp
  cases item with
  | destination arg => cases hpair
  | _ =>
      rw [← Option.some.inj hpair]
      exact hletters _ (by simp)

/-- A list with destinations has a first one. -/
theorem exists_first_destination {arg : Utf16} {args : List Utf16}
    (h : items.filterMap SshItem.destinationArg = arg :: args) :
    ∃ before behind, items = before ++ .destination arg :: behind ∧
      before.filterMap SshItem.destinationArg = [] ∧
      behind.filterMap SshItem.destinationArg = args := by
  induction items with
  | nil => cases h
  | cons item items ih =>
      cases item with
      | destination other =>
          have hsame : other :: items.filterMap SshItem.destinationArg = arg :: args := h
          obtain ⟨rfl, rfl⟩ := List.cons.inj hsame
          exact ⟨[], items, rfl, rfl, rfl⟩
      | _ =>
          obtain ⟨before, behind, hitems, hbefore, hbehind⟩ := ih h
          refine ⟨_ :: before, behind, by rw [hitems]; rfl, ?_, hbehind⟩
          rw [List.filterMap_cons_none rfl, hbefore]

/-! ## Options -/

theorem permitted_of_kept (h : ∀ item ∈ items, item.Formed) :
    ∀ o ∈ valued (SshItem.pairs (items.filter SshItem.isKept)), IsPermitted o := by
  intro o ho
  obtain ⟨p, hp, rfl⟩ := List.mem_map.mp ho
  obtain ⟨item, hitem, hpair⟩ := List.mem_filterMap.mp hp
  obtain ⟨hmem, hkept⟩ := List.mem_filter.mp hitem
  have hformed := h item hmem
  cases item with
  | identity file =>
      rw [← Option.some.inj hpair]
      exact .inl ⟨file, rfl, hformed⟩
  | port p =>
      rw [← Option.some.inj hpair]
      exact .inr (.inl ⟨p, rfl, hformed⟩)
  | setting name value =>
      rw [← Option.some.inj hpair]
      refine .inr (.inr ⟨name, value, rfl, hformed.1, hformed.2.2, ?_⟩)
      simpa [SshItem.isKept] using hkept
  | destination arg => cases hpair

theorem countP_letter (items : List SshItem) :
    (valued (SshItem.pairs items)).countP (fun o => o.letter == unit 'i')
        = items.countP SshItem.isIdentity ∧
      (valued (SshItem.pairs items)).countP (fun o => o.letter == unit 'p')
        = items.countP SshItem.isPortItem := by
  induction items with
  | nil => exact ⟨rfl, rfl⟩
  | cons item items ih =>
      have hcons : valued (SshItem.pairs (item :: items))
          = (item.pair.map fun p => (⟨p.1, some p.2⟩ : Opt UInt16)).toList
            ++ valued (SshItem.pairs items) := by
        cases item <;> rfl
      rw [hcons, List.countP_append, List.countP_append, ih.1, ih.2, List.countP_cons,
        List.countP_cons]
      cases item <;> exact ⟨Nat.add_comm _ _, Nat.add_comm _ _⟩

theorem countP_kept {p : SshItem → Bool} (hp : ∀ item, p item = true → item.isKept = true)
    (items : List SshItem) : (items.filter SshItem.isKept).countP p = items.countP p := by
  rw [List.countP_filter]
  refine List.countP_congr fun item _ => ?_
  cases hitem : p item with
  | false => simp
  | true => simp [hp item hitem]

theorem identity_kept (item : SshItem) (h : item.isIdentity = true) : item.isKept = true := by
  cases item with
  | identity file => rfl
  | _ => cases h

theorem port_kept (item : SshItem) (h : item.isPortItem = true) : item.isKept = true := by
  cases item with
  | port p => rfl
  | _ => cases h

theorem settingNames_pairs (h : ∀ item ∈ items, item.Formed) :
    settingNames (valued (SshItem.pairs items)) = items.filterMap SshItem.settingName := by
  induction items with
  | nil => rfl
  | cons item items ih =>
      rw [List.forall_mem_cons] at h
      have ih := ih h.2
      cases item with
      | setting name value =>
          have hname := takeWhile_sign h.1.1 value
          rw [List.filterMap_cons, ← ih]
          change (name ++ unit '=' :: value).takeWhile (· ≠ unit '=') :: _ = name :: _
          rw [hname]
          rfl
      | _ => exact ih

/-! ## Destinations -/

theorem split_destination {arg : Utf16} (h : isDestination arg = true) :
    arg = arg.takeWhile (· ≠ unit '@') ++ unit '@' :: hostOf arg ∧
      unit '@' ∉ arg.takeWhile (· ≠ unit '@') ∧ unit '@' ∉ hostOf arg ∧ hostOf arg ≠ [] := by
  simp only [isDestination, isUserAtHost, Bool.and_eq_true, Bool.not_eq_true',
    List.isEmpty_eq_false_iff, List.contains_eq_mem, decide_eq_true_eq, decide_eq_false_iff_not]
    at h
  obtain ⟨⟨⟨⟨⟨-, hat⟩, hhost⟩, hno⟩, -⟩, -⟩ := h
  have hsplit : splitUnit? (unit '@') arg
      = some (arg.takeWhile (· ≠ unit '@'), hostOf arg) := by
    rw [splitUnit?, if_pos hat]
    rfl
  obtain ⟨heq, hfront⟩ := splitUnit?_eq_some hsplit
  exact ⟨heq, hfront, hno, hhost⟩

theorem extractTargetHost_destination {arg : Utf16} (h : isDestination arg = true) :
    extractTargetHost toLowerCase [arg] = if includes arg keysPath = true then none
      else normalizeHostForAuthorization toLowerCase (hostOf arg) := by
  have huser : isUserAtHost arg = true := by
    simp only [isDestination, Bool.and_eq_true] at h
    exact h.1.1
  by_cases hpath : includes arg keysPath = true
  · simp [extractTargetHost, hpath]
  · simp [extractTargetHost, hpath, huser]

theorem isGhost_iff {arg : Utf16} (h : isDestination arg = true) :
    IsGhost toLowerCase arg ↔ includes arg keysPath = true := by
  have hsome : normalizeHostForAuthorization toLowerCase (hostOf arg) ≠ none := by
    rw [normalizeHostForAuthorization, if_neg (by simpa using (split_destination h).2.2.2)]
    nofun
  rw [IsGhost, extractTargetHost_destination h]
  split
  · next hpath => simp [hpath]
  · next hpath => simp [hpath, hsome]

/-- The names that may be set. -/
theorem name_of_allowed {name value : Utf16} (h : isAllowedSshOption name value = true) :
    unit '@' ∉ name := by
  have hnames : ∀ known ∈ fixedOptions.map Prod.fst ++ [text "RequestTTY", text "ConnectTimeout",
      text "ServerAliveInterval", text "ControlPersist", text "ControlPath"],
      unit '@' ∉ known := by decide
  refine hnames name ?_
  rw [List.mem_append]
  rw [isAllowedSshOption] at h
  split at h
  · next fixed hfixed =>
    obtain ⟨before, behind, hsplit, -⟩ := List.lookup_eq_some_iff.mp hfixed
    refine .inl (List.mem_map.mpr ⟨(name, fixed), ?_, rfl⟩)
    rw [hsplit]
    simp
  · refine .inr ?_
    split at h
    · next hname => simp [hname]
    split at h
    · next hname => rcases hname with hname | hname | hname <;> simp [hname]
    split at h
    · next hname => simp [hname]
    · cases h

theorem user_of_isDestination {arg : Utf16} (h : isDestination arg = true) :
    ∀ u ∈ arg.takeWhile (· ≠ unit '@'),
      (isWordUnit u || u == unit '.' || u == unit '-') = true := by
  simp only [isDestination, Bool.and_eq_true] at h
  exact List.all_eq_true.mp h.2

/-- Among the arguments only destinations look like one. -/
theorem destination_of_mem (hformed : ∀ item ∈ items, item.Formed) {arg : Utf16}
    (harg : arg ∈ items.flatMap SshItem.arguments) (h : isDestination arg = true) :
    arg ∈ items.filterMap SshItem.destinationArg := by
  obtain ⟨item, hitem, hmem⟩ := List.mem_flatMap.mp harg
  have hitemFormed := hformed item hitem
  have hdash : ∀ s ∈ [text "-i", text "-p", text "-o"], isDestination s = false := by decide
  cases item with
  | destination other =>
      obtain rfl := List.mem_singleton.mp hmem
      exact List.mem_filterMap.mpr ⟨_, hitem, rfl⟩
  | identity file =>
      rcases List.mem_cons.mp hmem with rfl | hmem
      · rw [hdash _ (by simp)] at h
        cases h
      · obtain rfl := List.mem_singleton.mp hmem
        simp only [SshItem.Formed, isIdentityFile, isNamedBehind, Bool.and_eq_true] at hitemFormed
        obtain ⟨rest, hrest⟩ := List.isPrefixOf_iff_prefix.mp hitemFormed.1.1
        obtain ⟨u, us, heq, hword⟩ := not_dash_of_isDestination h
        rw [heq] at hrest
        have hu : unit '/' = u := (List.cons.inj hrest).1
        rw [← hu] at hword
        exact absurd hword (by decide)
  | port p =>
      rcases List.mem_cons.mp hmem with rfl | hmem
      · rw [hdash _ (by simp)] at h
        cases h
      · obtain rfl := List.mem_singleton.mp hmem
        simp only [SshItem.Formed, isPort, isNumeral, Bool.and_eq_true] at hitemFormed
        have hdigits := List.all_eq_true.mp hitemFormed.1.2
        have hat := (split_destination h).1
        have hdigit : isDigit (unit '@') = true := by
          refine hdigits _ ?_
          rw [hat]
          simp
        exact absurd hdigit (by decide)
  | setting name value =>
      rcases List.mem_cons.mp hmem with rfl | hmem
      · rw [hdash _ (by simp)] at h
        cases h
      · obtain rfl := List.mem_singleton.mp hmem
        have hat := name_of_allowed hitemFormed.2.2
        have huser := user_of_isDestination h (unit '=') (by
          rw [List.takeWhile_append_of_pos fun u hu => by
            simpa using fun heq : u = unit '@' => hat (heq ▸ hu)]
          rw [List.takeWhile_cons_of_pos (by decide)]
          simp)
        exact absurd huser (by decide)

/-! ## What ssh makes of it -/

/-- With one destination ssh reads all the options, the destination, and then the last
word, if it is no option. -/
theorem readAround_one {before behind : List SshItem} {arg word : Utf16}
    (hbefore : before.filterMap SshItem.destinationArg = [])
    (hbehind : behind.filterMap SshItem.destinationArg = []) (harg : isDestination arg = true)
    (hword : isOptionWord sshGrammar word = false) :
    readAround sshGrammar
        ((before ++ .destination arg :: behind).flatMap SshItem.arguments ++ [word])
      = some ⟨valued (SshItem.pairs (before ++ .destination arg :: behind)), some arg, [word]⟩ := by
  have hwords : (before ++ SshItem.destination arg :: behind).flatMap SshItem.arguments ++ [word]
      = before.flatMap SshItem.arguments ++
        arg :: (behind.flatMap SshItem.arguments ++ [word]) := by
    rw [List.flatMap_append, List.flatMap_cons, List.append_assoc]
    rfl
  have hpairs : valued (SshItem.pairs (before ++ SshItem.destination arg :: behind))
      = valued (SshItem.pairs before) ++ valued (SshItem.pairs behind) := by
    rw [SshItem.pairs, List.filterMap_append, List.filterMap_cons_none rfl]
    exact List.map_append
  rw [hwords, hpairs, readAround, readOptions_items hbefore,
    readOptions_operand (isOptionWord_destination harg)]
  simp only [Option.map_some, List.append_nil, Bool.false_eq_true, if_false]
  rw [readOptions_items hbehind, readOptions_operand hword]
  simp

/-- No destination is taken out. -/
theorem destinations_kept (items : List SshItem) :
    (items.filter SshItem.isKept).filterMap SshItem.destinationArg
      = items.filterMap SshItem.destinationArg := by
  rw [List.filterMap_filter]
  refine List.filterMap_congr fun item _ => ?_
  cases item with
  | setting name value => cases (SshItem.setting name value).isKept <;> rfl
  | _ => rfl

/-- A destination stands among the arguments, and is one. -/
theorem argument_of_destination (hformed : ∀ item ∈ items, item.Formed) {arg : Utf16}
    (h : arg ∈ items.filterMap SshItem.destinationArg) :
    arg ∈ items.flatMap SshItem.arguments ∧ isDestination arg = true := by
  obtain ⟨item, hitem, harg⟩ := List.mem_filterMap.mp h
  cases item with
  | destination other =>
      obtain rfl := Option.some.inj harg
      exact ⟨List.mem_flatMap.mpr ⟨_, hitem, List.mem_singleton.mpr rfl⟩, hformed _ hitem⟩
  | _ => cases harg

/-- Whatever ssh reads, the words behind the first destination hold the second. -/
theorem rest_of_two {arg other word : Utf16} {others : List Utf16}
    (hargs : items.filterMap SshItem.destinationArg = arg :: other :: others)
    (harg : isDestination arg = true) (hother : isDestination other = true)
    {reading : Reading UInt16}
    (h : readAround sshGrammar (items.flatMap SshItem.arguments ++ [word]) = some reading) :
    2 ≤ reading.rest.length := by
  obtain ⟨before, behind, rfl, hbefore, hbehind⟩ := exists_first_destination hargs
  obtain ⟨between, behind, rfl, hbetween, -⟩ := exists_first_destination hbehind
  have hwords : (before ++ SshItem.destination arg ::
        (between ++ .destination other :: behind)).flatMap SshItem.arguments ++ [word]
      = before.flatMap SshItem.arguments ++ arg :: (between.flatMap SshItem.arguments ++
        other :: (behind.flatMap SshItem.arguments ++ [word])) := by
    simp only [List.flatMap_append, List.flatMap_cons, List.append_assoc]
    rfl
  rw [hwords, readAround, readOptions_items hbefore,
    readOptions_operand (isOptionWord_destination harg)] at h
  simp only [Option.map_some, List.append_nil, Bool.false_eq_true, if_false] at h
  rw [readOptions_items hbetween, readOptions_operand (isOptionWord_destination hother)] at h
  simp only [Option.map_some, Option.some.injEq] at h
  rw [← h]
  simp

/-- A last word that is an option leaves ssh without a command. -/
theorem rest_of_option {arg word : Utf16} (hargs : items.filterMap SshItem.destinationArg = [arg])
    (harg : isDestination arg = true) (hword : isOptionWord sshGrammar word = true)
    {reading : Reading UInt16}
    (h : readAround sshGrammar (items.flatMap SshItem.arguments ++ [word]) = some reading) :
    reading.rest = [] := by
  obtain ⟨before, behind, rfl, hbefore, hbehind⟩ := exists_first_destination hargs
  have hwords : (before ++ SshItem.destination arg :: behind).flatMap SshItem.arguments ++ [word]
      = before.flatMap SshItem.arguments ++
        arg :: (behind.flatMap SshItem.arguments ++ [word]) := by
    rw [List.flatMap_append, List.flatMap_cons, List.append_assoc]
    rfl
  rw [hwords, readAround, readOptions_items hbefore,
    readOptions_operand (isOptionWord_destination harg)] at h
  simp only [Option.map_some, List.append_nil, Bool.false_eq_true, if_false] at h
  rw [readOptions_items hbehind] at h
  obtain ⟨r, hr, hreading⟩ := Option.map_eq_some_iff.mp h
  obtain ⟨last, hlast, hrest⟩ := Option.map_eq_some_iff.mp hr
  rw [← hreading, ← hrest]
  change last.2.2 = []
  exact rest_of_optionWord hword hlast

end Items

/-! ## The terminal -/

section Terminal

variable {toLowerCase : Utf16 → Utf16} {authorizedHosts : List Utf16}

/-- Normalising the host of an argument once more makes no difference to whether it is
authorised. -/
def IsSettled (toLowerCase : Utf16 → Utf16) (authorizedHosts : List Utf16) (arg : Utf16) : Prop :=
  (normalizeHostForAuthorization toLowerCase (hostOf arg)).bind
      (normalizeHostForAuthorization toLowerCase)
    = normalizeHostForAuthorization toLowerCase (hostOf arg) ∨
  isAuthorizedTargetHost toLowerCase (some (hostOf arg)) authorizedHosts = true

/-- Arguments that pass the check are items with a host that is authorised. -/
theorem items_of_validateSshArgs {sshArgs : List Utf16}
    (h : validateSshArgs toLowerCase sshArgs authorizedHosts = true) :
    ∃ (items : List SshItem) (ghosts : List Utf16) (arg : Utf16),
      sshArgs = items.flatMap SshItem.arguments ∧ (∀ item ∈ items, item.Formed) ∧
      items.countP SshItem.isIdentity = 1 ∧ items.countP SshItem.isPortItem = 1 ∧
      (items.filterMap SshItem.settingName).Nodup ∧
      items.filterMap SshItem.destinationArg = ghosts ++ [arg] ∧
      (∀ ghost ∈ ghosts, IsGhost toLowerCase ghost) ∧ ¬ IsGhost toLowerCase arg ∧
      isAuthorizedTargetHost toLowerCase (extractTargetHost toLowerCase [arg]) authorizedHosts
        = true := by
  rw [validateSshArgs] at h
  split at h
  · cases h
  · next final hloop =>
    simp only [Bool.and_eq_true] at h
    obtain ⟨⟨⟨⟨⟨⟨-, hidentity⟩, hport⟩, htarget⟩, -⟩, -⟩, hauthorized⟩ := h
    obtain ⟨items, rfl, hformed, haccept⟩ := validateLoop_items hloop
    obtain ⟨hidentityCount, hportCount, hseen, hnodup⟩ := acceptAll_counts haccept
    obtain ⟨host, hhost⟩ := Option.isSome_iff_exists.mp htarget
    obtain ⟨ghosts, arg, hargs, hghosts, harg⟩ := acceptAll_target_none haccept rfl hhost
    rw [hidentity] at hidentityCount
    rw [hport] at hportCount
    have hnames := hnodup List.nodup_nil
    rw [hseen, List.append_nil] at hnames
    refine ⟨items, ghosts, arg, rfl, hformed, by simpa using hidentityCount.symm,
      by simpa using hportCount.symm, List.nodup_reverse.mp hnames, hargs, hghosts, ?_, ?_⟩
    · rw [IsGhost, harg]
      nofun
    · rw [harg, ← hhost]
      exact hauthorized

/-- What is started has passed the check. -/
theorem validated_of_spawned {previousEnded : Bool} {command : Utf16} {arguments : List Utf16}
    (h : handleCommand toLowerCase previousEnded command authorizedHosts = .spawned arguments) :
    validateSshArgs toLowerCase (extractSshArgs (joinLines command))
        authorizedHosts = true ∧
      arguments = sanitizeSshArgs (extractSshArgs (joinLines command))
        ++ [extractHereDocContent (joinLines command)] := by
  rw [handleCommand] at h
  split at h
  · cases h
  simp only at h
  split at h
  · cases h
  split at h
  · cases h
  split at h
  · cases h
  · next hvalid =>
    refine ⟨by simpa using hvalid, ?_⟩
    exact (TerminalOutcome.spawned.inj h).symm

theorem settled_iff {arg : Utf16} (harg : isDestination arg = true)
    (hghost : ¬ IsGhost toLowerCase arg)
    (h : isAuthorizedTargetHost toLowerCase (extractTargetHost toLowerCase [arg]) authorizedHosts
      = true) :
    IsSettled toLowerCase authorizedHosts arg ↔
      isAuthorizedTargetHost toLowerCase (some (hostOf arg)) authorizedHosts = true := by
  refine ⟨fun hsettled => ?_, .inr⟩
  rcases hsettled with hsame | hauthorized
  · rw [isGhost_iff harg] at hghost
    rw [extractTargetHost_destination harg, if_neg hghost, isAuthorizedTargetHost, hsame] at h
    exact h
  · exact hauthorized

/-- When ssh is started it gets to an authorised host, with permitted options and the
here-document as its command, exactly when nothing that looks like a destination holds
the path of the keys or a host that has to be normalised twice, and the here-document
does not look like an option. -/
theorem terminal_reaches_authorised_iff (toLowerCase : Utf16 → Utf16) (previousEnded : Bool)
    (command : Utf16) (authorizedHosts arguments : List Utf16)
    (h : handleCommand toLowerCase previousEnded command authorizedHosts = .spawned arguments) :
    (∃ reading, readAround sshGrammar arguments = some reading ∧
        ReachesAuthorised toLowerCase authorizedHosts
          (extractHereDocContent (joinLines command)) reading) ↔
      (∀ arg ∈ extractSshArgs (joinLines command),
          isDestination arg = true →
            includes arg keysPath = false ∧ IsSettled toLowerCase authorizedHosts arg) ∧
        isOptionWord sshGrammar
          (extractHereDocContent (joinLines command)) = false := by
  obtain ⟨hvalid, rfl⟩ := validated_of_spawned h
  generalize extractHereDocContent (joinLines command) = word
  generalize extractSshArgs (joinLines command) = sshArgs at hvalid ⊢
  obtain ⟨items, ghosts, arg, rfl, hformed, hidentity, hport, hnames, hargs, hghosts, hreal,
    hauthorized⟩ := items_of_validateSshArgs hvalid
  have hdestinations : ∀ other ∈ ghosts ++ [arg], other ∈ items.flatMap SshItem.arguments ∧
      isDestination other = true := fun other hother =>
    argument_of_destination hformed (hargs ▸ hother)
  have harg := (hdestinations arg (by simp)).2
  have hkeptArgs : (items.filter SshItem.isKept).filterMap SshItem.destinationArg
      = ghosts ++ [arg] := (destinations_kept items).trans hargs
  rw [sanitizeSshArgs_items hformed]
  constructor
  · rintro ⟨reading, hread, hreach⟩
    have hghostless : ghosts = [] := by
      cases ghosts with
      | nil => rfl
      | cons ghost ghosts =>
          obtain ⟨other, others, hothers⟩ : ∃ other others, ghosts ++ [arg] = other :: others := by
            cases ghosts with
            | nil => exact ⟨_, _, rfl⟩
            | cons other others => exact ⟨_, _, rfl⟩
          have htwo := rest_of_two (hkeptArgs.trans (congrArg _ hothers))
            (hdestinations ghost (by simp)).2 (hdestinations other (by simp [hothers])).2 hread
          rw [hreach.command] at htwo
          simp at htwo
    subst hghostless
    have hword : isOptionWord sshGrammar word = false := by
      cases hoption : isOptionWord sshGrammar word with
      | false => rfl
      | true =>
          have hnone := rest_of_option hkeptArgs harg hoption hread
          rw [hreach.command] at hnone
          cases hnone
    refine ⟨fun other hother hdestination => ?_, hword⟩
    have hmem := destination_of_mem hformed hother hdestination
    rw [hargs] at hmem
    obtain rfl := List.mem_singleton.mp hmem
    refine ⟨by simpa using (isGhost_iff harg).not.mp hreal, .inr ?_⟩
    obtain ⟨before, behind, hitems, hbefore, hbehind⟩ := exists_first_destination hkeptArgs
    rw [hitems, readAround_one hbefore hbehind harg hword] at hread
    obtain ⟨user, host, hoperand, -, hhost⟩ := hreach.destination
    rw [← Option.some.inj hread] at hoperand
    obtain ⟨hsplit, huser, hno, -⟩ := split_destination harg
    have heq : other = user ++ unit '@' :: host := Option.some.inj hoperand
    rw [hsplit] at heq
    rw [((List.append_cons_inj_of_notMem huser hno).mp heq).2.2]
    exact hhost
  · rintro ⟨hall, hword⟩
    have hghostless : ghosts = [] := by
      cases ghosts with
      | nil => rfl
      | cons ghost ghosts =>
          obtain ⟨hmem, hghost⟩ := hdestinations ghost (by simp)
          have hpath := (isGhost_iff hghost).mp (hghosts ghost (List.mem_cons_self ..))
          rw [(hall ghost hmem hghost).1] at hpath
          cases hpath
    subst hghostless
    obtain ⟨before, behind, hitems, hbefore, hbehind⟩ := exists_first_destination hkeptArgs
    have hread := readAround_one hbefore hbehind harg hword
    rw [← hitems] at hread
    have hkeptFormed : ∀ item ∈ items.filter SshItem.isKept, item.Formed :=
      fun item hitem => hformed item (List.mem_filter.mp hitem).1
    obtain ⟨hsplit, -, hno, -⟩ := split_destination harg
    refine ⟨_, hread, ⟨⟨_, hostOf arg, congrArg some hsplit, hno, ?_⟩, permitted_of_kept hformed,
      ?_, ?_, ?_, rfl⟩⟩
    · exact (settled_iff harg hreal hauthorized).mp
        (hall arg (hdestinations arg (by simp)).1 harg).2
    · rw [(countP_letter _).1, countP_kept identity_kept, hidentity]
    · rw [(countP_letter _).2, countP_kept port_kept, hport]
    · rw [settingNames_pairs hkeptFormed]
      exact hnames.sublist (List.filter_sublist.filterMap _)

end Terminal

/-! ## Two commands -/

/-- `toLowerCase`, of ASCII. -/
def lowerAscii (s : Utf16) : Utf16 := s.map fun u => if 65 ≤ u ∧ u ≤ 90 then u + 32 else u

/-- A command as the application makes them, up to its here-document. -/
def terminalCommand (hereDoc : String) : Utf16 :=
  text "timeout 3600 ssh -i /var/www/html/storage/app/ssh/keys/ssh_key@cm123 " ++
    text "-o StrictHostKeyChecking=no -o UserKnownHostsFile=/dev/null " ++
    text "-o PasswordAuthentication=no -o ConnectTimeout=10 -o ServerAliveInterval=20 " ++
    text "-o RequestTTY=no -o LogLevel=ERROR -p '22' 'root'@'10.0.0.5' 'bash -se' << " ++
    text hereDoc

/-- What ssh is started with for such a command. -/
def terminalArguments (hereDocContent : String) : List Utf16 :=
  [text "-i", text "/var/www/html/storage/app/ssh/keys/ssh_key@cm123",
    text "-o", text "StrictHostKeyChecking=no", text "-o", text "UserKnownHostsFile=/dev/null",
    text "-o", text "PasswordAuthentication=no", text "-o", text "ConnectTimeout=10",
    text "-o", text "ServerAliveInterval=20", text "-o", text "RequestTTY=yes",
    text "-o", text "LogLevel=ERROR", text "-p", text "22", text "root@10.0.0.5",
    text hereDocContent]

theorem terminal_reaches_authorised_iff_echo :
    ∃ reading, readAround sshGrammar (terminalArguments " echo hi ") = some reading ∧
      ReachesAuthorised lowerAscii [text "10.0.0.5"]
        (extractHereDocContent (joinLines (terminalCommand "\\abc\necho hi\nabc"))) reading := by
  refine (terminal_reaches_authorised_iff lowerAscii true (terminalCommand "\\abc\necho hi\nabc")
    [text "10.0.0.5"] (terminalArguments " echo hi ") (by decide +kernel)).mpr ⟨?_, ?_⟩
  · unfold IsSettled
    decide +kernel
  · decide +kernel

/-- The here-document is looked for behind another sign than the one that names its
delimiter, and ssh reads it as an option. -/
theorem here_document_is_an_option :
    handleCommand lowerAscii true (terminalCommand "Xabc << \\abc-oProxyCommand=id abc")
        [text "10.0.0.5"] = .spawned (terminalArguments "-oProxyCommand=id ") ∧
      ¬ ∃ reading, readAround sshGrammar (terminalArguments "-oProxyCommand=id ") = some reading ∧
        ReachesAuthorised lowerAscii [text "10.0.0.5"]
          (extractHereDocContent
            (joinLines (terminalCommand "Xabc << \\abc-oProxyCommand=id abc"))) reading := by
  refine ⟨by decide +kernel, ?_⟩
  rintro ⟨reading, hread, hreach⟩
  have hrest : ((readAround sshGrammar (terminalArguments "-oProxyCommand=id ")).all
      fun r => r.rest.isEmpty) = true := by decide +kernel
  rw [hread, Option.all_some, hreach.command] at hrest
  cases hrest

end OnePloy
