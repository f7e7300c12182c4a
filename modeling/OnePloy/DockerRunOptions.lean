import Mathlib.Data.List.TakeWhile
import OnePloy.Lib.PhpText
import OnePloy.Lib.OrderedMap

/-!
# Options of `docker run` for Docker Compose

`convertDockerRunToCompose` finds the options of a line with one pattern,
`(--\w+(?:-\w+)*)(?:\s|=)?([^\s-]+)?`, wherever they stand. The value of an option ends
at its first dash, and behind that the search goes on: what is left of the value may
have options in it (`scan_line`). A hostname is looked up once more, with its dashes.
-/

namespace OnePloy

open Php

namespace DockerRun

/-! ## The pattern -/

/-- `\w`. -/
def isWord (c : Char) : Bool := c.isAlphanum || c == '_'

/-- `[^\s-]`. -/
def isValueChar (c : Char) : Bool := !isPatternSpace c && c != '-'

/-- `\w+(?:-\w+)*`, if there is a word at all. -/
def nameChars : List Char → List Char
  | [] => []
  | c :: cs =>
      if isWord c || (c == '-' && cs.head?.any isWord) then c :: nameChars cs else []

/-- What is left behind `(?:\s|=)?`. -/
def skipSeparator : List Char → List Char
  | [] => []
  | c :: cs => if isPatternSpace c || c == '=' then cs else c :: cs

structure OptionMatch where
  option : List Char
  /-- Empty if it is not there. -/
  value : List Char
  rest : List Char
  deriving DecidableEq

/-- The pattern at the beginning of a text. Nothing that it takes is given back: what
follows may always be left out. -/
def optionAt : List Char → Option OptionMatch
  | '-' :: '-' :: cs =>
      if cs.head?.any isWord then
        let name := nameChars cs
        let behind := skipSeparator (cs.drop name.length)
        some ⟨'-' :: '-' :: name, behind.takeWhile isValueChar, behind.dropWhile isValueChar⟩
      else none
  | _ => none

/-- `preg_match_all`; the number says how many characters belong to the last match. -/
def scan : Nat → List Char → List (String × Option String)
  | _, [] => []
  | n + 1, _ :: cs => scan n cs
  | 0, c :: cs =>
      match optionAt (c :: cs) with
      | some m =>
          (String.ofList m.option,
            if m.value.isEmpty then none else some (String.ofList m.value)) ::
              scan (cs.length - m.rest.length) cs
      | none => scan 0 cs

/-! ## Searches for single options -/

/-- The first match of a pattern. -/
def firstMatch (p : List Char → Option (List Char)) : List Char → Option (List Char)
  | [] => p []
  | c :: cs => (p (c :: cs)).orElse fun _ => firstMatch p cs

/-- `<option>(?:=|\s+)`, and what follows. -/
def behindOption (option : String) (cs : List Char) : Option (List Char) :=
  if option.toList.isPrefixOf cs then
    match cs.drop option.toList.length with
    | [] => none
    | c :: rest =>
        if c = '=' then some rest
        else if isPatternSpace c then some (rest.dropWhile isPatternSpace)
        else none
  else none

/-- `[^\s]+`. -/
def wordAt (cs : List Char) : Option (List Char) :=
  let word := cs.takeWhile fun c => !isPatternSpace c
  if word.isEmpty then none else some word

/-- `--hostname(?:=|\s+)([^\s]+)`. -/
def hostnameAt (cs : List Char) : Option (List Char) := (behindOption "--hostname" cs).bind wordAt

def hostnameValue (line : List Char) : Option String :=
  (firstMatch hostnameAt line).map String.ofList

/-- `device=([0-9A-Za-z-,]+)`. -/
def deviceAt (cs : List Char) : Option (List Char) :=
  if "device=".toList.isPrefixOf cs then
    let ids := (cs.drop 7).takeWhile fun c => c.isAlphanum || c == '-' || c == ','
    if ids.isEmpty then none else some ids
  else none

def deviceIds (line : List Char) : Option String := (firstMatch deviceAt line).map String.ofList

/-- `(?:\\.|[^q])*q`, the alternatives in their order. -/
def quotedSpan (q : Char) : List Char → Option (List Char)
  | [] => none
  | c :: cs =>
      let escaped :=
        if c = '\\' then
          match cs with
          | [] => none
          | d :: rest => if d = '\n' then none else (quotedSpan q rest).map (c :: d :: ·)
        else none
      (escaped.orElse fun _ => if c = q then none else (quotedSpan q cs).map (c :: ·)).orElse
        fun _ => if c = q then some [q] else none

/-- What `raw` is of an entrypoint. -/
def rawAt (cs : List Char) : Option (List Char) :=
  let quoted (q : Char) := if cs.head? = some q then (quotedSpan q cs.tail).map (q :: ·) else none
  ((quoted '"').orElse fun _ => quoted '\'').orElse fun _ => wordAt cs

/-- A backslash in front of what is special in double quotes. -/
def unescapeDouble : List Char → List Char
  | [] => []
  | '\\' :: c :: cs =>
      if ['"', '$', Char.ofNat 96, '\\'].contains c then c :: unescapeDouble cs
      else '\\' :: unescapeDouble (c :: cs)
  | c :: cs => c :: unescapeDouble cs

def unquoteRaw (raw : List Char) : List Char :=
  if raw.head? = some '"' ∧ raw.getLast? = some '"' then unescapeDouble raw.tail.dropLast
  else if raw.head? = some '\'' ∧ raw.getLast? = some '\'' then raw.tail.dropLast
  else raw

def entrypointValue (line : List Char) : Option String :=
  (firstMatch (fun cs => (behindOption "--entrypoint" cs).bind rawAt) line).map fun raw =>
    String.ofList (unquoteRaw raw)

/-! ## Collecting -/

/-- A value in `$options`: `true`, or a list. -/
inductive Collected
  | flag
  | values (l : List String)
  deriving DecidableEq

abbrev Options := OrderedMap String Collected

/-- `$options[$option][] = $value` and `array_unique`. -/
def push (options : Options) (option value : String) : Except String Options :=
  match options.get? option with
  | none => .ok (options.set option (.values [value]))
  | some (.values l) =>
      .ok (options.set option (.values (if l.contains value then l else l ++ [value])))
  | some .flag => .error "Cannot use a scalar value as an array"

def truthyText (s : String) : Bool := Value.truthy (.string s)

def pushIf (keep : String → Bool) (options : Options) (option : String) (value : Option String) :
    Except String Options :=
  match value.filter keep with
  | some v => push options option v
  | none => .ok options

/-- What a match does besides adding its value. -/
def collectSpecial (line : List Char) (options : Options) (option : String) :
    Except String Options :=
  if option = "--gpus" then push options option ((deviceIds line).getD "all")
  else if option = "--hostname" then
    pushIf (fun v => truthyText v && truthyText (trim v)) options option (hostnameValue line)
  else if option = "--entrypoint" then
    pushIf (fun v => truthyText v && trim v != "") options option (entrypointValue line)
  else .ok options

/-- One match. -/
def collect (line : List Char) (options : Options) (m : String × Option String) :
    Except String Options :=
  (collectSpecial line options m.1).bind fun options =>
    if m.1 = "--entrypoint" then .ok options
    else
      match m.2 with
      | some value => push options m.1 value
      | none => .ok (options.set m.1 .flag)

/-! ## Mapping -/

def mapping : List (String × String) :=
  [("--cap-add", "cap_add"), ("--cap-drop", "cap_drop"), ("--security-opt", "security_opt"),
    ("--sysctl", "sysctls"), ("--device", "devices"), ("--init", "init"),
    ("--ulimit", "ulimits"), ("--privileged", "privileged"), ("--ip", "ip"), ("--ip6", "ip6"),
    ("--shm-size", "shm_size"), ("--dns", "dns"), ("--gpus", "gpus"),
    ("--hostname", "hostname"), ("--entrypoint", "entrypoint")]

structure Ulimit where
  soft : String
  hard : Option String
  deriving DecidableEq

inductive ComposeValue
  | flag
  | list (l : List String)
  | text (s : String)
  | ulimits (l : OrderedMap String Ulimit)
  /-- `deploy.resources.reservations.devices`. -/
  | gpus (deviceIds : Option (List String))

abbrev ComposeOptions := OrderedMap String ComposeValue

def addUlimit (ulimits : OrderedMap String Ulimit) (ulimit : String) :
    Except String (OrderedMap String Ulimit) :=
  match explode '=' ulimit with
  | type :: limits :: _ =>
      match explode ':' limits with
      | [soft, hard] => .ok (ulimits.set type ⟨soft, some hard⟩)
      | _ => .ok (ulimits.set type ⟨limits, none⟩)
  | _ => .error "Undefined array key 1"

/-- The first value, if there is one that is not empty. -/
def firstValue : Collected → Option String
  | .values (v :: _) => if truthyText (trim v) then some v else none
  | _ => none

def Collected.compose : Collected → ComposeValue
  | .flag => .flag
  | .values l => .list l

/-- One option; an option comes once, and so does the key it is mapped to. -/
def composeOption (compose : ComposeOptions) (e : String × Collected) :
    Except String ComposeOptions :=
  match mapping.lookup e.1 with
  | none => .ok compose
  | some key =>
      if e.1 = "--ulimit" then
        match e.2 with
        | .flag => .error "Undefined array key 1"
        | .values l => (l.foldlM addUlimit .empty).map fun u => compose.set key (.ulimits u)
      else if e.1 = "--shm-size" ∨ e.1 = "--hostname" ∨ e.1 = "--entrypoint" then
        .ok ((firstValue e.2).elim compose fun v => compose.set key (.text v))
      else if e.1 = "--gpus" then
        .ok (compose.set "deploy" (.gpus ((firstValue e.2).bind fun v =>
          if v = "all" then none else some (explode ',' v))))
      else .ok (compose.set key e.2.compose)

def convertDockerRunToCompose (customDockerRunOptions : List Char) :
    Except String ComposeOptions :=
  ((scan 0 customDockerRunOptions).foldlM (collect customDockerRunOptions) .empty).bind
    fun options => options.entries.foldlM composeOption .empty

/-! ## Reading a line -/

/-- No name goes on with it. -/
def endsName (c : Char) : Bool := !isWord c && c != '-'

theorem nameChars_append {c : Char} (hc : endsName c = true) (w rest : List Char) :
    nameChars (w ++ c :: rest) = nameChars w := by
  rw [endsName, Bool.and_eq_true, Bool.not_eq_true', bne_iff_ne] at hc
  induction w with
  | nil => simp [nameChars, hc.1, hc.2]
  | cons x w ih =>
      rw [List.cons_append, nameChars, nameChars, ih]
      cases w with
      | nil => simp [hc.1]
      | cons y w => rfl

theorem nameChars_isFront (w : List Char) : nameChars w <+: w := by
  induction w with
  | nil => exact List.prefix_refl _
  | cons x w ih =>
      rw [nameChars]
      split
      · exact List.cons_prefix_cons.mpr ⟨rfl, ih⟩
      · exact List.nil_prefix

theorem scan_skip (a b : List Char) : scan a.length (a ++ b) = scan 0 b := by
  induction a with
  | nil => rfl
  | cons c a ih => exact ih

theorem scan_past {n : Nat} {w : List Char} (h : w.length ≤ n) : scan n w = [] := by
  induction w generalizing n with
  | nil => cases n <;> rfl
  | cons c w ih =>
      cases n with
      | zero => cases h
      | succ n => exact ih (Nat.le_of_succ_le_succ h)

/-- A match in the context of the line. -/
theorem scan_match {c : Char} {cs : List Char} {m : OptionMatch}
    (h : optionAt (c :: cs) = some m) :
    scan 0 (c :: cs) =
      (String.ofList m.option, if m.value.isEmpty then none else some (String.ofList m.value)) ::
        scan (cs.length - m.rest.length) cs := by
  rw [scan, h]

theorem scan_miss {c : Char} {cs : List Char} (h : optionAt (c :: cs) = none) :
    scan 0 (c :: cs) = scan 0 cs := by
  rw [scan, h]

/-- A character that ends a run ends it where it comes next. -/
theorem span_append {p : Char → Bool} {c : Char} (hc : p c = false) (v r : List Char) :
    (v ++ c :: r).takeWhile p = v.takeWhile p ∧
      (v ++ c :: r).dropWhile p = v.dropWhile p ++ c :: r := by
  induction v with
  | nil => simp [hc]
  | cons x v ih =>
      rw [List.cons_append, List.takeWhile_cons, List.takeWhile_cons, List.dropWhile_cons,
        List.dropWhile_cons, ih.1, ih.2]
      split
      exacts [⟨rfl, rfl⟩, ⟨rfl, rfl⟩]

/-- What may come behind a space: no value begins there. -/
def Breaks (rest : List Char) : Prop := rest.takeWhile isValueChar = []

theorem Breaks.nil : Breaks [] := rfl

theorem Breaks.dash (rest : List Char) : Breaks ('-' :: rest) := rfl

theorem Breaks.dropWhile {rest : List Char} (h : Breaks rest) :
    rest.dropWhile isValueChar = rest := by
  have := List.takeWhile_append_dropWhile (p := isValueChar) (l := rest)
  rwa [h, List.nil_append] at this

theorem skipSeparator_append {w : List Char} (hne : w ≠ []) (rest : List Char) :
    skipSeparator (w ++ rest) = skipSeparator w ++ rest := by
  cases w with
  | nil => exact absurd rfl hne
  | cons c w =>
      rw [List.cons_append, skipSeparator, skipSeparator]
      split <;> rfl

theorem optionAt_dashes (cs : List Char) :
    optionAt ('-' :: '-' :: cs) =
      if cs.head?.any isWord then
        some ⟨'-' :: '-' :: nameChars cs,
          (skipSeparator (cs.drop (nameChars cs).length)).takeWhile isValueChar,
          (skipSeparator (cs.drop (nameChars cs).length)).dropWhile isValueChar⟩
      else none := rfl

theorem optionAt_of_not {cs : List Char} (h : ∀ rest, cs ≠ '-' :: '-' :: rest) :
    optionAt cs = none := by
  unfold optionAt
  split
  · next rest => exact absurd rfl (h rest)
  · rfl

/-- Where a space comes behind a text without spaces, a match is the same as at its end,
but may take the space too. -/
theorem optionAt_space {w rest : List Char} (hspace : ∀ c ∈ w, isPatternSpace c = false)
    (hrest : Breaks rest) :
    (optionAt w = none ∧ optionAt (w ++ ' ' :: rest) = none) ∨
      ∃ m, optionAt w = some m ∧
        (optionAt (w ++ ' ' :: rest) = some { m with rest := m.rest ++ ' ' :: rest } ∨
          (m.value = [] ∧ m.rest = [] ∧
            optionAt (w ++ ' ' :: rest) = some { m with rest := rest })) := by
  by_cases hw : ∃ cs, w = '-' :: '-' :: cs
  · obtain ⟨cs, rfl⟩ := hw
    have hname : nameChars (cs ++ ' ' :: rest) = nameChars cs := nameChars_append rfl _ _
    obtain ⟨behind, hbehind⟩ := nameChars_isFront cs
    have hdrop : cs.drop (nameChars cs).length = behind := by
      have := congrArg (List.drop (nameChars cs).length) hbehind
      rw [List.drop_left] at this
      exact this.symm
    have hdrop' :
        (cs ++ ' ' :: rest).drop (nameChars cs).length = behind ++ ' ' :: rest := by
      rw [List.drop_append_of_le_length (List.IsPrefix.length_le ⟨behind, hbehind⟩), hdrop]
    have hhead : (cs ++ ' ' :: rest).head?.any isWord = cs.head?.any isWord := by
      cases cs with
      | nil => rfl
      | cons c cs => rfl
    rw [List.cons_append, List.cons_append, optionAt_dashes, optionAt_dashes, hname, hdrop, hdrop',
      hhead]
    by_cases hword : cs.head?.any isWord = true
    · rw [if_pos hword, if_pos hword]
      refine .inr ⟨_, rfl, ?_⟩
      by_cases hnil : behind = []
      · subst hnil
        refine .inr ⟨rfl, rfl, ?_⟩
        have hskip : skipSeparator ([] ++ ' ' :: rest) = rest := rfl
        rw [hskip, hrest, hrest.dropWhile]
        rfl
      · refine .inl ?_
        obtain ⟨htake, hdrop⟩ := span_append (p := isValueChar) (c := ' ') rfl
          (skipSeparator behind) rest
        rw [skipSeparator_append hnil, htake, hdrop]
    · rw [if_neg hword, if_neg hword]
      exact .inl ⟨rfl, rfl⟩
  · refine .inl ⟨optionAt_of_not fun cs h => hw ⟨cs, h⟩, optionAt_of_not fun cs h => hw ?_⟩
    match w with
    | [] => cases h
    | [a] => cases h
    | a :: b :: w =>
        have hfront := (List.cons.inj h).1
        have hsecond := (List.cons.inj (List.cons.inj h).2).1
        exact ⟨w, by rw [hfront, hsecond]⟩

theorem length_rest_le {cs : List Char} {m : OptionMatch} (h : optionAt cs = some m) :
    m.rest.length < cs.length := by
  by_cases hcs : ∃ tail, cs = '-' :: '-' :: tail
  · obtain ⟨tail, rfl⟩ := hcs
    rw [optionAt_dashes] at h
    split at h
    · obtain rfl := Option.some.inj h
      have hskip : ∀ l : List Char, (skipSeparator l).length ≤ l.length := by
        intro l
        cases l with
        | nil => exact Nat.le_refl _
        | cons c l =>
            rw [skipSeparator]
            split
            exacts [Nat.le_succ _, Nat.le_refl _]
      have hdrop := (List.dropWhile_suffix (l := skipSeparator (tail.drop (nameChars tail).length))
        isValueChar).length_le
      have := hskip (tail.drop (nameChars tail).length)
      have := List.length_drop (i := (nameChars tail).length) (l := tail)
      simp only [List.length_cons]
      omega
    · cases h
  · rw [optionAt_of_not fun rest h => hcs ⟨rest, h⟩] at h
    cases h

/-- A text without spaces is read in front of a space as by itself. -/
theorem scan_space {w rest : List Char} (hspace : ∀ c ∈ w, isPatternSpace c = false)
    (hrest : Breaks rest) {n : Nat} (hn : n ≤ w.length + 1) :
    scan n (w ++ ' ' :: rest) = scan n w ++ scan 0 rest := by
  induction w generalizing n with
  | nil =>
      match n with
      | 0 => exact scan_miss rfl
      | 1 => rfl
      | n + 2 => exact absurd hn (by simp)
  | cons c w ih =>
      have ih : ∀ {n : Nat}, n ≤ w.length + 1 →
          scan n (w ++ ' ' :: rest) = scan n w ++ scan 0 rest :=
        ih fun d hd => hspace d (List.mem_cons_of_mem _ hd)
      cases n with
      | succ n => exact ih (by simpa using hn)
      | zero =>
          rcases optionAt_space hspace hrest with ⟨hnone, hnone'⟩ | ⟨m, hm, hm' | ⟨hv, hr, hm'⟩⟩
          · rw [List.cons_append] at hnone' ⊢
            rw [scan_miss hnone, scan_miss hnone', ih (Nat.zero_le _)]
          · have hlt := length_rest_le hm
            rw [List.cons_append] at hm' ⊢
            rw [scan_match hm, scan_match hm', List.cons_append]
            have hskip : (w ++ ' ' :: rest).length - (m.rest ++ ' ' :: rest).length =
                w.length - m.rest.length := by
              rw [List.length_append, List.length_append]
              omega
            dsimp only
            rw [hskip, ih (by omega)]
          · rw [List.cons_append] at hm' ⊢
            rw [scan_match hm, scan_match hm', List.cons_append, hr]
            have hskip : (w ++ ' ' :: rest).length - rest.length = w.length + 1 := by
              rw [List.length_append, List.length_cons]
              omega
            dsimp only
            have hpast : scan (w.length + 1) w = [] := scan_past (Nat.le_succ _)
            have hpast' : scan (w.length - ([] : List Char).length) w = [] :=
              scan_past (Nat.le_refl _)
            rw [hskip, ih (Nat.le_refl _), hpast, hpast', List.nil_append]

/-! ## Lines of options -/

inductive ValuedOption
  | capAdd | capDrop | securityOpt | sysctl | device | dns | ip | ip6 | shmSize | hostname
  deriving DecidableEq, Repr

inductive FlagOption
  | init | privileged
  deriving DecidableEq, Repr

def ValuedOption.all : List ValuedOption :=
  [.capAdd, .capDrop, .securityOpt, .sysctl, .device, .dns, .ip, .ip6, .shmSize, .hostname]

/-- The name, and the key that it is mapped to. -/
def ValuedOption.name : ValuedOption → String
  | .capAdd => "--cap-add"
  | .capDrop => "--cap-drop"
  | .securityOpt => "--security-opt"
  | .sysctl => "--sysctl"
  | .device => "--device"
  | .dns => "--dns"
  | .ip => "--ip"
  | .ip6 => "--ip6"
  | .shmSize => "--shm-size"
  | .hostname => "--hostname"

def ValuedOption.key : ValuedOption → String
  | .capAdd => "cap_add"
  | .capDrop => "cap_drop"
  | .securityOpt => "security_opt"
  | .sysctl => "sysctls"
  | .device => "devices"
  | .dns => "dns"
  | .ip => "ip"
  | .ip6 => "ip6"
  | .shmSize => "shm_size"
  | .hostname => "hostname"

/-- Compose takes one value. -/
def ValuedOption.isSingle (o : ValuedOption) : Bool := o = .shmSize || o = .hostname

def FlagOption.name : FlagOption → String
  | .init => "--init"
  | .privileged => "--privileged"

def FlagOption.key : FlagOption → String
  | .init => "init"
  | .privileged => "privileged"

/-- Characters other than spaces and quotes, the first no dash. -/
structure PlainValue where
  text : List Char
  nonempty : text ≠ []
  noSpace : ∀ c ∈ text, isPatternSpace c = false
  noQuote : '"' ∉ text ∧ '\'' ∉ text
  noDash : text.head? ≠ some '-'

/-- An option of a line; `equals` tells how it is written. -/
inductive RunOption
  | valued (o : ValuedOption) (value : PlainValue) (equals : Bool)
  | flag (o : FlagOption)

def RunOption.render : RunOption → List Char
  | .valued o value equals => o.name.toList ++ (if equals then '=' else ' ') :: value.text
  | .flag o => o.name.toList

def renderLine (opts : List RunOption) : List Char := [' '].intercalate (opts.map RunOption.render)

/-- What the pattern takes for the value. -/
def PlainValue.front (v : PlainValue) : List Char := v.text.takeWhile isValueChar

/-- What is left of it. -/
def PlainValue.tail (v : PlainValue) : List Char := v.text.dropWhile isValueChar

/-- The options that the pattern finds in what is left of a value. -/
def PlainValue.embedded (v : PlainValue) : List (String × Option String) := scan 0 v.tail

def RunOption.found : RunOption → List (String × Option String)
  | .valued o v _ => (o.name, some (String.ofList v.front)) :: v.embedded
  | .flag o => [(o.name, none)]

theorem PlainValue.front_ne (v : PlainValue) : v.front ≠ [] := by
  obtain ⟨text, hne, hspace, -, hdash⟩ := v
  cases text with
  | nil => exact absurd rfl hne
  | cons c text =>
      have hc : isValueChar c = true := by
        rw [isValueChar, hspace c (List.mem_cons_self ..)]
        simpa using fun h => hdash (congrArg some h)
      rw [PlainValue.front, List.takeWhile_cons, if_pos hc]
      exact List.cons_ne_nil _ _

theorem PlainValue.tail_noSpace (v : PlainValue) : ∀ c ∈ v.tail, isPatternSpace c = false :=
  fun c hc => v.noSpace c ((List.dropWhile_suffix isValueChar).subset hc)

/-- A name is read to its end. -/
structure IsName (name : List Char) : Prop where
  dashes : ∃ word, name = '-' :: '-' :: word ∧ word.head?.any isWord = true ∧
    nameChars word = word

theorem ValuedOption.isName (o : ValuedOption) : IsName o.name.toList := by
  cases o <;> exact ⟨_, rfl, rfl, rfl⟩

theorem FlagOption.isName (o : FlagOption) : IsName o.name.toList := by
  cases o <;> exact ⟨_, rfl, rfl, rfl⟩

theorem scan_taken {a : List Char} {m : OptionMatch} (hne : a ≠ [])
    (h : optionAt (a ++ m.rest) = some m) :
    scan 0 (a ++ m.rest) =
      (String.ofList m.option, if m.value.isEmpty then none else some (String.ofList m.value)) ::
        scan 0 m.rest := by
  obtain ⟨c, a, rfl⟩ := List.exists_cons_of_ne_nil hne
  rw [List.cons_append] at h ⊢
  rw [scan_match h, List.length_append, Nat.add_sub_cancel, scan_skip]

theorem optionAt_named {name : List Char} (hname : IsName name) {sep : Char}
    (hsep : sep = ' ' ∨ sep = '=') (rest : List Char) :
    optionAt (name ++ sep :: rest) =
      some ⟨name, rest.takeWhile isValueChar, rest.dropWhile isValueChar⟩ := by
  obtain ⟨word, rfl, hword, hself⟩ := hname.dashes
  have hends : endsName sep = true := by rcases hsep with rfl | rfl <;> rfl
  have hhead : (word ++ sep :: rest).head?.any isWord = true := by
    cases word with
    | nil => cases hword
    | cons c word => exact hword
  have hskip : skipSeparator (sep :: rest) = rest := by rcases hsep with rfl | rfl <;> rfl
  rw [List.cons_append, List.cons_append, optionAt_dashes, if_pos hhead,
    nameChars_append hends, hself, List.drop_left, hskip]

theorem optionAt_name {name : List Char} (hname : IsName name) :
    optionAt name = some ⟨name, [], []⟩ := by
  obtain ⟨word, rfl, hword, hself⟩ := hname.dashes
  rw [optionAt_dashes, if_pos hword, hself, List.drop_length]
  rfl

theorem scan_valued {name : List Char} (hname : IsName name) {sep : Char}
    (hsep : sep = ' ' ∨ sep = '=') (v : PlainValue) (context : List Char)
    (htake : (v.text ++ context).takeWhile isValueChar = v.front)
    (hdrop : (v.text ++ context).dropWhile isValueChar = v.tail ++ context) :
    scan 0 (name ++ sep :: (v.text ++ context)) =
      (String.ofList name, some (String.ofList v.front)) :: scan 0 (v.tail ++ context) := by
  have hmatch := optionAt_named hname hsep (v.text ++ context)
  rw [htake, hdrop] at hmatch
  have hsplit : name ++ sep :: (v.text ++ context) =
      (name ++ sep :: v.front) ++ (v.tail ++ context) := by
    have htext : v.text = v.front ++ v.tail := (List.takeWhile_append_dropWhile ..).symm
    conv_lhs => rw [htext]
    simp
  have hempty : v.front.isEmpty = false := by
    rw [List.isEmpty_eq_false_iff]
    exact v.front_ne
  rw [hsplit] at hmatch ⊢
  have := scan_taken (m := ⟨name, v.front, v.tail ++ context⟩) (by simp) hmatch
  rw [this]
  dsimp only
  rw [hempty, if_neg Bool.false_ne_true]

/-- An option at the end of the line. -/
theorem scan_render (o : RunOption) : scan 0 o.render = o.found := by
  cases o with
  | valued o v equals =>
      have hsep : (if equals then '=' else ' ') = ' ' ∨ (if equals then '=' else ' ') = '=' := by
        cases equals
        exacts [.inl rfl, .inr rfl]
      have := scan_valued o.isName hsep v [] (by rw [List.append_nil]; rfl)
        (by rw [List.append_nil, List.append_nil]; rfl)
      rw [List.append_nil, List.append_nil, String.ofList_toList] at this
      exact this
  | flag o =>
      have := scan_taken (a := o.name.toList) (m := ⟨o.name.toList, [], []⟩)
        (by cases o <;> exact List.cons_ne_nil _ _)
        (by rw [List.append_nil]; exact optionAt_name o.isName)
      rw [List.append_nil] at this
      rw [RunOption.render, this, String.ofList_toList]
      rfl

/-- An option in front of others. -/
theorem scan_render_space (o : RunOption) {rest : List Char} (hrest : Breaks rest) :
    scan 0 (o.render ++ ' ' :: rest) = o.found ++ scan 0 rest := by
  cases o with
  | valued o v equals =>
      have hsep : (if equals then '=' else ' ') = ' ' ∨ (if equals then '=' else ' ') = '=' := by
        cases equals
        exacts [.inl rfl, .inr rfl]
      obtain ⟨htake, hdrop⟩ := span_append (p := isValueChar) (c := ' ') rfl v.text rest
      have := scan_valued o.isName hsep v (' ' :: rest) htake hdrop
      rw [scan_space v.tail_noSpace hrest (Nat.zero_le _), String.ofList_toList] at this
      rw [RunOption.render, List.append_assoc]
      exact this
  | flag o =>
      have hmatch := optionAt_named o.isName (.inl rfl) rest
      rw [hrest, hrest.dropWhile] at hmatch
      have := scan_taken (a := o.name.toList ++ [' ']) (m := ⟨o.name.toList, [], rest⟩)
        (by simp) (by rw [List.append_assoc]; exact hmatch)
      rw [List.append_assoc] at this
      rw [RunOption.render]
      refine this.trans ?_
      rw [String.ofList_toList]
      rfl

theorem render_head (o : RunOption) : ∃ rest, o.render = '-' :: rest := by
  cases o with
  | valued o v equals => cases o <;> exact ⟨_, rfl⟩
  | flag o => cases o <;> exact ⟨_, rfl⟩

theorem renderLine_cons_cons (o o' : RunOption) (opts : List RunOption) :
    renderLine (o :: o' :: opts) = o.render ++ ' ' :: renderLine (o' :: opts) :=
  intercalate_cons_cons ..

theorem renderLine_head (o : RunOption) (opts : List RunOption) :
    ∃ rest, renderLine (o :: opts) = '-' :: rest := by
  obtain ⟨rest, hrest⟩ := render_head o
  cases opts with
  | nil => exact ⟨rest, by rw [renderLine, List.map_cons, hrest]; simp⟩
  | cons o' opts => exact ⟨_, by rw [renderLine_cons_cons, hrest]; rfl⟩

/-- What the pattern finds in a line of options. -/
theorem scan_line (opts : List RunOption) :
    scan 0 (renderLine opts) = opts.flatMap RunOption.found := by
  induction opts with
  | nil => rfl
  | cons o opts ih =>
      cases opts with
      | nil =>
          have hline : renderLine [o] = o.render := by simp [renderLine]
          rw [hline, scan_render, List.flatMap_singleton]
      | cons o' opts =>
          obtain ⟨rest, hrest⟩ := renderLine_head o' opts
          rw [renderLine_cons_cons, List.flatMap_cons, ← ih, hrest]
          exact scan_render_space o (Breaks.dash rest)

/-! ## Every option is found -/

theorem nameChars_dashes (x rest : List Char) :
    nameChars (x ++ '-' :: '-' :: rest) = nameChars x := by
  induction x with
  | nil => rfl
  | cons c x ih =>
      rw [List.cons_append, nameChars, nameChars, ih]
      cases x with
      | nil => rfl
      | cons d x => rfl

/-- No match reaches beyond the beginning of the next option. -/
theorem optionAt_before {x rest : List Char} (hne : x ≠ []) {m : OptionMatch}
    (h : optionAt (x ++ '-' :: '-' :: rest) = some m) : ∃ y, m.rest = y ++ '-' :: '-' :: rest := by
  match x with
  | [] => exact absurd rfl hne
  | [c] =>
      by_cases hc : c = '-'
      · subst hc
        cases h
      · have hnone : optionAt ([c] ++ '-' :: '-' :: rest) = none :=
          optionAt_of_not fun tail htail => hc (List.cons.inj htail).1
        rw [hnone] at h
        cases h
  | c :: d :: x =>
      by_cases hdash : c = '-' ∧ d = '-'
      · obtain ⟨rfl, rfl⟩ := hdash
        rw [List.cons_append, List.cons_append, optionAt_dashes, nameChars_dashes] at h
        split at h
        · obtain rfl := Option.some.inj h
          dsimp only
          rw [List.drop_append_of_le_length (nameChars_isFront x).length_le]
          by_cases hnil : x.drop (nameChars x).length = []
          · rw [hnil]
            exact ⟨[], rfl⟩
          · obtain ⟨-, hdrop⟩ := span_append (p := isValueChar) (c := '-') rfl
              (skipSeparator (x.drop (nameChars x).length)) ('-' :: rest)
            rw [skipSeparator_append hnil, hdrop]
            exact ⟨_, rfl⟩
        · cases h
      · have hnone : optionAt (c :: d :: x ++ '-' :: '-' :: rest) = none :=
          optionAt_of_not fun tail htail => hdash
            ⟨(List.cons.inj htail).1, (List.cons.inj (List.cons.inj htail).2).1⟩
        rw [hnone] at h
        cases h

theorem mem_scan {b : List Char} {m : OptionMatch} (h : optionAt b = some m) (a : List Char)
    {n : Nat} (hn : n ≤ a.length) : String.ofList m.option ∈ (scan n (a ++ b)).map Prod.fst := by
  obtain ⟨rest, rfl⟩ : ∃ rest, b = '-' :: '-' :: rest := by
    by_contra hno
    rw [optionAt_of_not fun rest hb => hno ⟨rest, hb⟩] at h
    cases h
  induction a generalizing n with
  | nil =>
      obtain rfl := Nat.le_zero.mp hn
      rw [List.nil_append, scan_match h]
      exact List.mem_cons_self ..
  | cons c a ih =>
      rw [List.cons_append]
      cases n with
      | succ n => exact ih (Nat.le_of_succ_le_succ hn)
      | zero =>
          cases hmatch : optionAt (c :: (a ++ '-' :: '-' :: rest)) with
          | none =>
              rw [scan_miss hmatch]
              exact ih (Nat.zero_le _)
          | some m' =>
              obtain ⟨y, hy⟩ := optionAt_before (List.cons_ne_nil c a) hmatch
              rw [scan_match hmatch, hy]
              refine List.mem_cons_of_mem _ (ih ?_)
              rw [List.length_append, List.length_append]
              omega

/-! ## The hostname -/

def hostnameText : List Char := "--hostname".toList

theorem ofList_hostnameText : String.ofList hostnameText = "--hostname" := String.ofList_toList

theorem firstMatch_none {p : List Char → Option (List Char)} {w : List Char}
    (h : ∀ a b, w = a ++ b → p b = none) : firstMatch p w = none := by
  induction w with
  | nil => exact h [] [] rfl
  | cons c w ih =>
      rw [firstMatch, h [] _ rfl]
      exact ih fun a b hab => h (c :: a) b (congrArg (c :: ·) hab)

theorem firstMatch_skip {p : List Char → Option (List Char)} {w x : List Char}
    (h : ∀ a b, w = a ++ b → b ≠ [] → p (b ++ x) = none) :
    firstMatch p (w ++ x) = firstMatch p x := by
  induction w with
  | nil => rfl
  | cons c w ih =>
      have hfirst := h [] _ rfl (List.cons_ne_nil c w)
      rw [List.cons_append] at hfirst ⊢
      rw [firstMatch, hfirst]
      exact ih fun a b hab hne => h (c :: a) b (congrArg (c :: ·) hab) hne

/-- Where the search finds a hostname, the pattern finds the option. -/
theorem optionAt_of_hostnameAt {cs v : List Char} (h : hostnameAt cs = some v) :
    ∃ c rest, cs = hostnameText ++ c :: rest ∧ endsName c = true := by
  obtain ⟨behind, hbehind, -⟩ := Option.bind_eq_some_iff.mp h
  unfold behindOption at hbehind
  split at hbehind
  · next hprefix =>
    obtain ⟨tail, rfl⟩ := List.isPrefixOf_iff_prefix.mp hprefix
    rw [List.drop_left] at hbehind
    cases tail with
    | nil => cases hbehind
    | cons c rest =>
        refine ⟨c, rest, rfl, ?_⟩
        dsimp only at hbehind
        split_ifs at hbehind with heq hspace
        · subst heq
          rfl
        · simp only [isPatternSpace, Bool.or_eq_true, beq_iff_eq] at hspace
          rcases hspace with ((((rfl | rfl) | rfl) | rfl) | rfl) | rfl <;> rfl
  · cases hbehind

theorem optionAt_hostname {c : Char} (hc : endsName c = true) (rest : List Char) :
    ∃ m, optionAt (hostnameText ++ c :: rest) = some m ∧ m.option = hostnameText := by
  obtain ⟨word, hword, hhead, hself⟩ := ValuedOption.hostname.isName.dashes
  have htext : hostnameText = '-' :: '-' :: word := hword
  have hhead' : (word ++ c :: rest).head?.any isWord = true := by
    cases word with
    | nil => cases hhead
    | cons d word => exact hhead
  rw [htext, List.cons_append, List.cons_append, optionAt_dashes, if_pos hhead',
    nameChars_append hc, hself]
  exact ⟨_, rfl, rfl⟩

/-- An option without a hostname in it, at the end of the line. -/
theorem hostname_none {o : RunOption} (ho : "--hostname" ∉ o.found.map Prod.fst) :
    firstMatch hostnameAt o.render = none := by
  refine firstMatch_none fun a b hab => ?_
  cases hat : hostnameAt b with
  | none => rfl
  | some v =>
      obtain ⟨c, rest, hb, hc⟩ := optionAt_of_hostnameAt hat
      obtain ⟨m, hm, hoption⟩ := optionAt_hostname hc rest
      rw [← hb] at hm
      have hmem := mem_scan hm a (Nat.zero_le _)
      rw [← hab, scan_render, hoption, ofList_hostnameText] at hmem
      exact absurd hmem ho

/-- In front of others it is passed over. -/
theorem hostname_skip {o : RunOption} (ho : "--hostname" ∉ o.found.map Prod.fst)
    (x : List Char) :
    firstMatch hostnameAt (o.render ++ ' ' :: x) = firstMatch hostnameAt x := by
  have hspace : ' ' ∉ hostnameText := by decide
  rw [show o.render ++ ' ' :: x = (o.render ++ [' ']) ++ x by simp]
  refine firstMatch_skip fun a b hab hne => ?_
  cases hat : hostnameAt (b ++ x) with
  | none => rfl
  | some v =>
      exfalso
      obtain ⟨c, rest, hsplit, hc⟩ := optionAt_of_hostnameAt hat
      -- the space at the end of `b` is behind the name
      have hlast : ' ' ∈ b := by
        obtain ⟨front, last, rfl⟩ := List.eq_nil_or_concat b |>.resolve_left hne
        rw [List.concat_eq_append, ← List.append_assoc] at hab
        rw [List.concat_eq_append, ← (List.append_inj_right' hab rfl |> List.cons.inj).1]
        exact List.mem_append_right _ (List.mem_singleton_self _)
      rcases List.append_eq_append_iff.mp hsplit with ⟨b', hb', -⟩ | ⟨b', hb', hcb⟩
      · exact hspace (hb' ▸ List.mem_append_left _ hlast)
      · cases b' with
        | nil => exact hspace (by rw [hb', List.append_nil] at hlast; exact hlast)
        | cons d b' =>
            have hcd : c = d := (List.cons.inj hcb).1
            obtain ⟨m, hm, hoption⟩ := optionAt_hostname (hcd ▸ hc) b'
            rw [← hb'] at hm
            have hmem := mem_scan hm a (Nat.zero_le _)
            rw [← hab, scan_render_space o Breaks.nil, hoption, ofList_hostnameText,
              show scan 0 [] = [] from rfl, List.append_nil] at hmem
            exact ho hmem

def RunOption.valueOf (o : ValuedOption) : RunOption → Option PlainValue
  | .valued o' v _ => if o' = o then some v else none
  | .flag _ => none

/-- The values of an option. -/
def valuesOf (o : ValuedOption) (opts : List RunOption) : List PlainValue :=
  opts.filterMap (RunOption.valueOf o)

def RunOption.embedded : RunOption → List (String × Option String)
  | .valued _ v _ => v.embedded
  | .flag _ => []

def PlainValue.string (v : PlainValue) : String := String.ofList v.text

theorem name_find (o : ValuedOption) : ValuedOption.all.find? (·.name = o.name) = some o := by
  cases o <;> rfl

theorem ValuedOption.name_injective {o o' : ValuedOption} (h : o.name = o'.name) : o = o' := by
  have := name_find o'
  rw [← h, name_find] at this
  exact Option.some.inj this

theorem hostnameAt_render (v : PlainValue) (equals : Bool) {context : List Char}
    (hcontext : (v.text ++ context).takeWhile (fun c => !isPatternSpace c) = v.text) :
    hostnameAt (hostnameText ++ (if equals then '=' else ' ') :: (v.text ++ context)) =
      some v.text := by
  have hempty : v.text.isEmpty = false := by
    rw [List.isEmpty_eq_false_iff]
    exact v.nonempty
  have hhead : (v.text ++ context).dropWhile isPatternSpace = v.text ++ context := by
    obtain ⟨c, text, htext⟩ := List.exists_cons_of_ne_nil v.nonempty
    rw [htext, List.cons_append, List.dropWhile_cons,
      v.noSpace c (htext ▸ List.mem_cons_self ..), if_neg Bool.false_ne_true]
  have hbehind : behindOption "--hostname"
      (hostnameText ++ (if equals then '=' else ' ') :: (v.text ++ context)) =
        some (v.text ++ context) := by
    have hprefix : hostnameText.isPrefixOf
        (hostnameText ++ (if equals then '=' else ' ') :: (v.text ++ context)) = true :=
      List.isPrefixOf_iff_prefix.mpr (List.prefix_append ..)
    unfold behindOption
    rw [show ("--hostname" : String).toList = hostnameText from rfl, if_pos hprefix,
      List.drop_left]
    cases equals with
    | true => rfl
    | false =>
        dsimp only
        rw [if_neg (by decide), if_neg Bool.false_ne_true, if_pos (by rfl), hhead]
  rw [hostnameAt, hbehind, Option.bind_some, wordAt, hcontext, hempty, if_neg Bool.false_ne_true]

theorem takeWhile_text (v : PlainValue) (context : List Char)
    (hcontext : context.takeWhile (fun c => !isPatternSpace c) = []) :
    (v.text ++ context).takeWhile (fun c => !isPatternSpace c) = v.text := by
  rw [List.takeWhile_append_of_pos, hcontext, List.append_nil]
  intro c hc
  rw [v.noSpace c hc]
  rfl

/-- The first hostname of the line, with its dashes. -/
theorem hostnameValue_line {opts : List RunOption}
    (h : ∀ o ∈ opts, "--hostname" ∉ o.embedded.map Prod.fst) :
    hostnameValue (renderLine opts) = (valuesOf .hostname opts).head?.map PlainValue.string := by
  have hfirst : firstMatch hostnameAt (renderLine opts) =
      (valuesOf .hostname opts).head?.map PlainValue.text := by
    induction opts with
    | nil => rfl
    | cons o opts ih =>
        have ih := ih fun o' ho' => h o' (List.mem_cons_of_mem _ ho')
        have hline : renderLine (o :: opts) = o.render ++
            if opts = [] then [] else ' ' :: renderLine opts := by
          cases opts with
          | nil => simp [renderLine]
          | cons o' opts => rw [renderLine_cons_cons, if_neg (List.cons_ne_nil _ _)]
        by_cases ho : ∃ v equals, o = .valued .hostname v equals
        · obtain ⟨v, equals, rfl⟩ := ho
          have hat := hostnameAt_render v equals (takeWhile_text v
            (if opts = [] then [] else ' ' :: renderLine opts) (by split <;> rfl))
          have hwhole : renderLine (.valued .hostname v equals :: opts) =
              hostnameText ++ (if equals then '=' else ' ') ::
                (v.text ++ if opts = [] then [] else ' ' :: renderLine opts) := by
            rw [hline, RunOption.render, List.append_assoc]
            rfl
          rw [hwhole]
          obtain ⟨c, rest, hcons⟩ := List.exists_cons_of_ne_nil
            (List.append_ne_nil_of_left_ne_nil (show hostnameText ≠ [] by decide) _)
          rw [hcons] at hat ⊢
          rw [firstMatch, hat]
          rfl
        · have hfound : "--hostname" ∉ o.found.map Prod.fst := by
            cases o with
            | valued o v equals =>
                rw [RunOption.found, List.map_cons, List.mem_cons, not_or]
                refine ⟨fun hname => ho ⟨v, equals, ?_⟩, h _ (List.mem_cons_self ..)⟩
                rw [@ValuedOption.name_injective .hostname o hname]
            | flag o =>
                cases o <;> decide
          have hvalues : valuesOf .hostname (o :: opts) = valuesOf .hostname opts := by
            cases o with
            | valued o v equals =>
                have hne : o ≠ .hostname := by
                  rintro rfl
                  exact ho ⟨v, equals, rfl⟩
                exact List.filterMap_cons_none
                  (show RunOption.valueOf .hostname (.valued o v equals) = none from if_neg hne)
            | flag o => rfl
          rw [hline, hvalues, ← ih]
          cases opts with
          | nil =>
              rw [if_pos rfl, List.append_nil, hostname_none hfound]
              rfl
          | cons o' opts =>
              rw [if_neg (List.cons_ne_nil _ _), hostname_skip hfound]
  rw [hostnameValue, hfirst, Option.map_map]
  rfl

/-! ## Collected options -/

/-- Without duplicates, in order. -/
def unique (l : List String) : List String :=
  l.foldl (fun u v => if u.contains v then u else u ++ [v]) []

theorem unique_concat (l : List String) (v : String) :
    unique (l ++ [v]) = if (unique l).contains v then unique l else unique l ++ [v] := by
  rw [unique, List.foldl_append]
  rfl

theorem mem_unique {l : List String} {v : String} : v ∈ unique l ↔ v ∈ l := by
  induction l using List.reverseRecOn with
  | nil => rfl
  | append_singleton l w ih =>
      rw [unique_concat, List.mem_append, List.mem_singleton, ← ih]
      split
      · next h =>
        refine ⟨.inl, fun hv => hv.elim (fun hv => hv) ?_⟩
        rintro rfl
        exact List.contains_iff_mem.mp h
      · rw [List.mem_append, List.mem_singleton]

theorem unique_head {v : String} {l : List String} : (unique (v :: l)).head? = some v := by
  induction l using List.reverseRecOn with
  | nil => rfl
  | append_singleton l w ih =>
      rw [← List.cons_append, unique_concat]
      split
      · exact ih
      · rw [List.head?_append, ih]
        rfl

/-- A value in `$options` after values have been pushed. -/
def collectedOf (l : List String) : Option Collected :=
  if l = [] then none else some (.values (unique l))

theorem push_ok {options : Options} {name : String} {l : List String}
    (h : options.get? name = collectedOf l) (v : String) :
    push options name v = .ok (options.set name (.values (unique (l ++ [v])))) := by
  rw [push, h, collectedOf]
  split
  · next hnil =>
    split at hnil
    · next hl => rw [hl]; rfl
    · cases hnil
  · next u hsome =>
    split at hsome
    · cases hsome
    · obtain rfl : unique l = u := by injection hsome with hsome; injection hsome
      rw [unique_concat]
  · next hflag => split at hflag <;> cases hflag

theorem collectedOf_concat (l : List String) (v : String) :
    collectedOf (l ++ [v]) = some (.values (unique (l ++ [v]))) :=
  if_neg (by simp)

def RunOption.isFlag (f : FlagOption) : RunOption → Bool
  | .valued .. => false
  | .flag f' => f' = f

/-- Whether the options have a flag among them. -/
def hasFlag (f : FlagOption) (opts : List RunOption) : Bool := opts.any (RunOption.isFlag f)

/-- What is pushed for the values of an option: for a hostname the first one of the line
each time. -/
def pushedFor (first : String) (o : ValuedOption) (opts : List RunOption) : List String :=
  (valuesOf o opts).flatMap fun v =>
    if o = .hostname then [first, String.ofList v.front] else [String.ofList v.front]

def readableNames : List String :=
  ValuedOption.all.map (·.name) ++ [FlagOption.init.name, FlagOption.privileged.name]

/-- The values in `$options` after some options of the line. -/
structure Holds (first : String) (opts : List RunOption) (options : Options) : Prop where
  valued : ∀ o : ValuedOption, options.get? o.name = collectedOf (pushedFor first o opts)
  flag : ∀ f : FlagOption, options.get? f.name = if hasFlag f opts then some .flag else none
  other : ∀ name, name ∉ readableNames → mapping.lookup name ≠ none → options.get? name = none

/-- The options found inside a value are none that is mapped, and have no value. -/
def Quiet (opts : List RunOption) : Prop :=
  ∀ o ∈ opts, ∀ e ∈ o.embedded, mapping.lookup e.1 = none ∧ e.2 = none

theorem valued_mapped (o : ValuedOption) : mapping.lookup o.name = some o.key := by
  cases o <;> rfl

theorem flag_mapped (f : FlagOption) : mapping.lookup f.name = some f.key := by
  cases f <;> rfl

theorem valued_ne_flag (o : ValuedOption) (f : FlagOption) : o.name ≠ f.name := by
  cases o <;> cases f <;> decide

theorem FlagOption.name_injective {f f' : FlagOption} (h : f.name = f'.name) : f = f' := by
  cases f <;> cases f' <;> first | rfl | exact absurd h (by decide)

theorem valued_readable (o : ValuedOption) : o.name ∈ readableNames :=
  List.mem_append_left _ (List.mem_map.mpr ⟨o, by cases o <;> decide, rfl⟩)

theorem flag_readable (f : FlagOption) : f.name ∈ readableNames :=
  List.mem_append_right _ (by cases f <;> decide)

theorem collectSpecial_other {line : List Char} {options : Options} {name : String}
    (hgpus : name ≠ "--gpus") (hhostname : name ≠ "--hostname")
    (hentrypoint : name ≠ "--entrypoint") : collectSpecial line options name = .ok options := by
  rw [collectSpecial, if_neg hgpus, if_neg hhostname, if_neg hentrypoint]

/-- An option inside a value that means nothing. -/
theorem collect_quiet {line : List Char} {options : Options} {e : String × Option String}
    (hname : mapping.lookup e.1 = none) (hvalue : e.2 = none) :
    collect line options e = .ok (options.set e.1 .flag) := by
  have hne : ∀ name, mapping.lookup name ≠ none → e.1 ≠ name := by
    rintro name h rfl
    exact h hname
  rw [collect, collectSpecial_other (hne _ (by decide)) (hne _ (by decide)) (hne _ (by decide)),
    hvalue]
  exact if_neg (hne _ (by decide))

theorem Holds.set_unmapped {first : String} {opts : List RunOption} {options : Options}
    (h : Holds first opts options) {name : String} (hname : mapping.lookup name = none) :
    Holds first opts (options.set name .flag) := by
  have hne : ∀ {other : String}, mapping.lookup other ≠ none → other ≠ name := by
    rintro other hother rfl
    exact hother hname
  refine ⟨fun o => ?_, fun f => ?_, fun other hout hother => ?_⟩
  · rw [OrderedMap.get?_set_ne _ _ (hne (by rw [valued_mapped]; exact nofun)), h.valued]
  · rw [OrderedMap.get?_set_ne _ _ (hne (by rw [flag_mapped]; exact nofun)), h.flag]
  · rw [OrderedMap.get?_set_ne _ _ (hne hother), h.other other hout hother]

theorem foldlM_quiet {line : List Char} {first : String} {opts : List RunOption}
    {es : List (String × Option String)}
    (hquiet : ∀ e ∈ es, mapping.lookup e.1 = none ∧ e.2 = none) {options : Options}
    (h : Holds first opts options) :
    ∃ options', es.foldlM (collect line) options = .ok options' ∧ Holds first opts options' := by
  induction es generalizing options with
  | nil => exact ⟨options, rfl, h⟩
  | cons e es ih =>
      obtain ⟨hname, hvalue⟩ := hquiet e (List.mem_cons_self ..)
      obtain ⟨options', hfold, hholds⟩ :=
        ih (fun e' he' => hquiet e' (List.mem_cons_of_mem _ he')) (h.set_unmapped hname)
      refine ⟨options', ?_, hholds⟩
      rw [List.foldlM_cons, collect_quiet hname hvalue]
      exact hfold

theorem valuesOf_concat (o : ValuedOption) (opts : List RunOption) (x : RunOption) :
    valuesOf o (opts ++ [x]) = valuesOf o opts ++ (x.valueOf o).toList := by
  rw [valuesOf, List.filterMap_append]
  cases h : x.valueOf o <;> simp [valuesOf, h]

theorem pushedFor_concat (first : String) (o : ValuedOption) (opts : List RunOption)
    (x : RunOption) :
    pushedFor first o (opts ++ [x]) = pushedFor first o opts ++
      (x.valueOf o).toList.flatMap fun v =>
        if o = .hostname then [first, String.ofList v.front] else [String.ofList v.front] := by
  rw [pushedFor, valuesOf_concat, List.flatMap_append]
  rfl

theorem hasFlag_concat (f : FlagOption) (opts : List RunOption) (x : RunOption) :
    hasFlag f (opts ++ [x]) = (hasFlag f opts || x.isFlag f) := by
  rw [hasFlag, List.any_append, List.any_cons, List.any_nil, Bool.or_false]
  rfl

/-- A value is pushed, for a hostname the first one before it. -/
theorem collect_valued {line : List Char} {first : String} {opts : List RunOption}
    {options : Options} (h : Holds first opts options) (o : ValuedOption) (v : PlainValue)
    (hfirst : o = .hostname → hostnameValue line = some first ∧ truthyText first = true ∧
      truthyText (trim first) = true) :
    ∃ options', collect line options (o.name, some (String.ofList v.front)) = .ok options' ∧
      options'.get? o.name = some (.values (unique (pushedFor first o opts ++
        if o = .hostname then [first, String.ofList v.front] else [String.ofList v.front]))) ∧
      ∀ name, name ≠ o.name → options'.get? name = options.get? name := by
  have hentry : o.name ≠ "--entrypoint" := by cases o <;> decide
  have hgpus : o.name ≠ "--gpus" := by cases o <;> decide
  by_cases ho : o = .hostname
  · subst ho
    obtain ⟨hvalue, htruthy, htrim⟩ := hfirst rfl
    generalize hpushed : pushedFor first .hostname opts = pushed
    obtain ⟨options₁, hset⟩ : ∃ options₁ : Options,
        options₁ = options.set "--hostname" (.values (unique (pushed ++ [first]))) := ⟨_, rfl⟩
    have hspecial : collectSpecial line options "--hostname" = .ok options₁ := by
      rw [collectSpecial, if_neg (by decide), if_pos rfl, pushIf, hvalue,
        Option.filter_some_pos (by rw [htruthy, htrim]; rfl), hset]
      exact push_ok (hpushed ▸ h.valued .hostname) first
    have hget : options₁.get? "--hostname" = collectedOf (pushed ++ [first]) := by
      rw [hset, OrderedMap.get?_set_self, collectedOf_concat]
    have hpush := push_ok hget (String.ofList v.front)
    rw [List.append_assoc] at hpush
    refine ⟨_, (congrArg (Except.bind · _) hspecial).trans hpush, OrderedMap.get?_set_self ..,
      fun name hname => ?_⟩
    have hname : name ≠ "--hostname" := hname
    rw [OrderedMap.get?_set_ne _ _ hname, hset, OrderedMap.get?_set_ne _ _ hname]
  · have hne : o.name ≠ "--hostname" := fun hname =>
      ho (@ValuedOption.name_injective _ .hostname hname)
    refine ⟨_, ?_, OrderedMap.get?_set_self .., fun name hname =>
      OrderedMap.get?_set_ne _ _ hname⟩
    rw [if_neg ho, collect, collectSpecial_other hgpus hne hentry]
    exact (if_neg hentry).trans (push_ok (h.valued o) _)

/-- One option of the line, with what is found in its value. -/
theorem collect_found {line : List Char} {first : String} {opts : List RunOption}
    {options : Options} (h : Holds first opts options) (x : RunOption)
    (hfirst : ∀ v, x.valueOf .hostname = some v → hostnameValue line = some first ∧
      truthyText first = true ∧ truthyText (trim first) = true)
    (hquiet : ∀ e ∈ x.embedded, mapping.lookup e.1 = none ∧ e.2 = none) :
    ∃ options', x.found.foldlM (collect line) options = .ok options' ∧
      Holds first (opts ++ [x]) options' := by
  cases x with
  | valued o v equals =>
      obtain ⟨options₁, hcollect, hself, hother⟩ := collect_valued h o v (fun ho => by
        subst ho
        exact hfirst v (by rw [RunOption.valueOf, if_pos rfl]))
      have hholds : Holds first (opts ++ [.valued o v equals]) options₁ := by
        refine ⟨fun o' => ?_, fun f => ?_, fun name hout hmapped => ?_⟩
        · rw [pushedFor_concat, RunOption.valueOf]
          by_cases heq : o = o'
          · subst heq
            have hne : pushedFor first o opts ++ (if o = .hostname then
                [first, String.ofList v.front] else [String.ofList v.front]) ≠ [] := by
              split <;> simp
            rw [if_pos rfl, hself, Option.toList_some, List.flatMap_singleton, collectedOf,
              if_neg hne]
          · rw [if_neg heq, hother _ fun hname => heq (ValuedOption.name_injective hname).symm,
              h.valued]
            simp
        · rw [hother _ (valued_ne_flag o f).symm, h.flag, hasFlag_concat, RunOption.isFlag,
            Bool.or_false]
        · have hne : name ≠ o.name := by
            rintro rfl
            exact hout (valued_readable o)
          rw [hother _ hne, h.other name hout hmapped]
      obtain ⟨options', hfold, hholds'⟩ := @foldlM_quiet line _ _ _ hquiet _ hholds
      refine ⟨options', ?_, hholds'⟩
      rw [RunOption.found, List.foldlM_cons, hcollect]
      exact hfold
  | flag f =>
      have hcollect : collect line options (f.name, none) = .ok (options.set f.name .flag) := by
        rw [collect, collectSpecial_other (by cases f <;> decide) (by cases f <;> decide)
          (by cases f <;> decide)]
        exact if_neg (by cases f <;> decide)
      refine ⟨options.set f.name .flag, ?_, fun o => ?_, fun f' => ?_, fun name hout hmapped => ?_⟩
      · rw [RunOption.found, List.foldlM_cons, hcollect]
        rfl
      · rw [OrderedMap.get?_set_ne _ _ (valued_ne_flag o f), h.valued, pushedFor_concat]
        simp [RunOption.valueOf]
      · rw [OrderedMap.get?_set, hasFlag_concat]
        by_cases hf : f' = f
        · subst hf
          simp [RunOption.isFlag]
        · have hisFlag : RunOption.isFlag f' (.flag f) = false :=
            decide_eq_false fun heq => hf heq.symm
          rw [if_neg fun hname => hf (FlagOption.name_injective hname), h.flag, hisFlag,
            Bool.or_false]
      · have hne : name ≠ f.name := by
          rintro rfl
          exact hout (flag_readable f)
        rw [OrderedMap.get?_set_ne _ _ hne, h.other name hout hmapped]

/-- All options of the line. -/
theorem collect_line {line : List Char} {first : String} {opts : List RunOption}
    (hfirst : ∀ v ∈ valuesOf .hostname opts, hostnameValue line = some first ∧
      truthyText first = true ∧ truthyText (trim first) = true) (hquiet : Quiet opts) :
    ∃ options', (opts.flatMap RunOption.found).foldlM (collect line) .empty = .ok options' ∧
      Holds first opts options' := by
  induction opts using List.reverseRecOn with
  | nil =>
      refine ⟨.empty, rfl, fun o => rfl, fun f => rfl, fun _ _ _ => rfl⟩
  | append_singleton opts x ih =>
      obtain ⟨options, hfold, hholds⟩ := ih
        (fun v hv => hfirst v (by rw [valuesOf_concat]; exact List.mem_append_left _ hv))
        fun o ho => hquiet o (List.mem_append_left _ ho)
      obtain ⟨options', hfold', hholds'⟩ := collect_found hholds x
        (fun v hv => hfirst v (by
          rw [valuesOf_concat, hv]
          exact List.mem_append_right _ (List.mem_singleton_self _)))
        (hquiet x (List.mem_append_right _ (List.mem_singleton_self _)))
      refine ⟨options', ?_, hholds'⟩
      rw [List.flatMap_append, List.foldlM_append, hfold, List.flatMap_singleton]
      exact hfold'

/-! ## Mapped options -/

/-- The key an option comes under. -/
def outKey (name : String) : Option String :=
  if name = "--gpus" then some "deploy" else mapping.lookup name

/-- What an option comes to, if it is none that is put together from its values. -/
def plainOut (name : String) (c : Collected) : Option ComposeValue :=
  if name = "--shm-size" ∨ name = "--hostname" then (firstValue c).map .text else some c.compose

def isPlain (name : String) : Bool :=
  name != "--ulimit" && name != "--gpus" && name != "--entrypoint"

/-- Each key stands for one option. -/
theorem outKey_injective {name name' key : String} (h : outKey name = some key)
    (h' : outKey name' = some key) : name = name' := by
  have hmem : ∀ {n k : String}, outKey n = some k →
      (n, k) ∈ ("--gpus", "deploy") :: mapping := by
    intro n k hn
    rw [outKey] at hn
    split at hn
    · next hgpus =>
      rw [hgpus, ← Option.some.inj hn]
      exact List.mem_cons_self ..
    · obtain ⟨front, back, hsplit, -⟩ := List.lookup_eq_some_iff.mp hn
      refine List.mem_cons_of_mem _ ?_
      rw [hsplit]
      exact List.mem_append_right _ (List.mem_cons_self ..)
  have hnodup : ((("--gpus", "deploy") :: mapping).map Prod.snd).Nodup := by decide
  exact congrArg Prod.fst (List.inj_on_of_nodup_map hnodup (hmem h) (hmem h') rfl)

theorem composeOption_other {compose compose' : ComposeOptions} {e : String × Collected}
    {key : String} (h : composeOption compose e = .ok compose') (hkey : outKey e.1 ≠ some key) :
    compose'.get? key = compose.get? key := by
  unfold composeOption at h
  cases hlookup : mapping.lookup e.1 with
  | none =>
      rw [hlookup] at h
      rw [Except.ok.inj h]
  | some k =>
      rw [hlookup] at h
      have hne : e.1 ≠ "--gpus" → key ≠ k := by
        rintro hgpus rfl
        rw [outKey, if_neg hgpus] at hkey
        exact hkey hlookup
      dsimp only at h
      split_ifs at h with hulimit htext hgpus
      · have hne := hne (by rw [hulimit]; decide)
        split at h
        · cases h
        · next l _ =>
          cases hfold : l.foldlM addUlimit .empty with
          | error err =>
              rw [hfold] at h
              cases h
          | ok u =>
              rw [hfold] at h
              obtain rfl := Except.ok.inj h
              exact OrderedMap.get?_set_ne _ _ hne
      · have hne := hne (by rcases htext with h | h | h <;> rw [h] <;> decide)
        obtain rfl := Except.ok.inj h
        cases firstValue e.2 with
        | none => rfl
        | some v => exact OrderedMap.get?_set_ne _ _ hne
      · obtain rfl := Except.ok.inj h
        refine OrderedMap.get?_set_ne _ _ ?_
        rintro rfl
        rw [outKey, if_pos hgpus] at hkey
        exact hkey rfl
      · obtain rfl := Except.ok.inj h
        exact OrderedMap.get?_set_ne _ _ (hne hgpus)

theorem composeOption_plain {name key : String} (hplain : isPlain name = true)
    (hkey : mapping.lookup name = some key) (compose : ComposeOptions) (c : Collected) :
    ∃ compose', composeOption compose (name, c) = .ok compose' ∧
      compose'.get? key = (plainOut name c).or (compose.get? key) := by
  simp only [isPlain, Bool.and_eq_true, bne_iff_ne] at hplain
  obtain ⟨⟨hulimit, hgpus⟩, hentry⟩ := hplain
  unfold composeOption plainOut
  rw [hkey]
  dsimp only
  rw [if_neg hulimit, if_neg hgpus]
  by_cases htext : name = "--shm-size" ∨ name = "--hostname"
  · have htext' : name = "--shm-size" ∨ name = "--hostname" ∨ name = "--entrypoint" :=
      htext.elim .inl fun h => .inr (.inl h)
    rw [if_pos htext, if_pos htext']
    cases firstValue c with
    | none => exact ⟨_, rfl, rfl⟩
    | some v => exact ⟨_, rfl, OrderedMap.get?_set_self ..⟩
  · have htext' : ¬ (name = "--shm-size" ∨ name = "--hostname" ∨ name = "--entrypoint") := by
      rintro (h | h | h)
      exacts [htext (.inl h), htext (.inr h), hentry h]
    rw [if_neg htext, if_neg htext']
    exact ⟨_, rfl, OrderedMap.get?_set_self ..⟩

/-- No option that is there comes under the key. -/
theorem foldlM_compose_other {l : List (String × Collected)} {compose m : ComposeOptions}
    {key : String} (hkey : ∀ e ∈ l, outKey e.1 ≠ some key)
    (h : l.foldlM composeOption compose = .ok m) : m.get? key = compose.get? key := by
  induction l generalizing compose with
  | nil => rw [← Except.ok.inj h]
  | cons e l ih =>
      rw [List.foldlM_cons] at h
      cases hstep : composeOption compose e with
      | error err =>
          rw [hstep] at h
          cases h
      | ok compose' =>
          rw [hstep] at h
          rw [ih (fun e' he' => hkey e' (List.mem_cons_of_mem _ he')) h,
            composeOption_other hstep (hkey e (List.mem_cons_self ..))]

/-- What a plain option comes to. -/
theorem foldlM_compose_plain {l : List (String × Collected)} (hnodup : (l.map Prod.fst).Nodup)
    {compose m : ComposeOptions} (h : l.foldlM composeOption compose = .ok m)
    {name key : String} (hplain : isPlain name = true) (hkey : mapping.lookup name = some key)
    {c : Collected} (hc : (name, c) ∈ l) (hempty : compose.get? key = none) :
    m.get? key = plainOut name c := by
  induction l generalizing compose with
  | nil => cases hc
  | cons e l ih =>
      rw [List.map_cons, List.nodup_cons] at hnodup
      have hout : outKey name = some key := by
        have hgpus : name ≠ "--gpus" := by
          simp only [isPlain, Bool.and_eq_true, bne_iff_ne] at hplain
          exact hplain.1.2
        rw [outKey, if_neg hgpus, hkey]
      rw [List.foldlM_cons] at h
      cases hstep : composeOption compose e with
      | error err =>
          rw [hstep] at h
          cases h
      | ok compose' =>
          rw [hstep] at h
          rcases List.mem_cons.mp hc with heq | hc
          · subst heq
            obtain ⟨compose'', hok, hget⟩ := composeOption_plain hplain hkey compose c
            obtain rfl := Except.ok.inj (hstep.symm.trans hok)
            have hrest := @foldlM_compose_other _ _ _ key (fun e' he' hother => hnodup.1 (by
              rw [outKey_injective hout hother]
              exact List.mem_map.mpr ⟨e', he', rfl⟩)) h
            rw [hrest, hget, hempty, Option.or_none]
          · have hne : outKey e.1 ≠ some key := fun hother => hnodup.1 (by
              rw [outKey_injective hother hout]
              exact List.mem_map.mpr ⟨_, hc, rfl⟩)
            exact ih hnodup.2 h hc ((composeOption_other hstep hne).trans hempty)

/-- The result at the key of a plain option. -/
theorem compose_get {options : Options} {m : ComposeOptions}
    (h : options.entries.foldlM composeOption .empty = .ok m) {name key : String}
    (hplain : isPlain name = true) (hkey : mapping.lookup name = some key) :
    m.get? key = (options.get? name).bind (plainOut name) := by
  cases hget : options.get? name with
  | some c =>
      rw [Option.bind_some]
      exact foldlM_compose_plain options.nodup h hplain hkey
        (OrderedMap.get?_eq_some_iff.mp hget) rfl
  | none =>
      have hout : outKey name = some key := by
        have hgpus : name ≠ "--gpus" := by
          simp only [isPlain, Bool.and_eq_true, bne_iff_ne] at hplain
          exact hplain.1.2
        rw [outKey, if_neg hgpus, hkey]
      rw [Option.bind_none]
      refine (foldlM_compose_other (fun e he hother => ?_) h).trans rfl
      refine OrderedMap.get?_eq_none_iff.mp hget ?_
      rw [outKey_injective hout hother]
      exact OrderedMap.mem_keys.mpr ⟨e.2, he⟩

theorem composeOption_ok {e : String × Collected} (h : e.1 ≠ "--ulimit")
    (compose : ComposeOptions) : ∃ compose', composeOption compose e = .ok compose' := by
  unfold composeOption
  cases mapping.lookup e.1 with
  | none => exact ⟨_, rfl⟩
  | some key =>
      dsimp only
      rw [if_neg h]
      split_ifs
      exacts [⟨_, rfl⟩, ⟨_, rfl⟩, ⟨_, rfl⟩]

theorem foldlM_compose_ok {l : List (String × Collected)} (h : ∀ e ∈ l, e.1 ≠ "--ulimit")
    (compose : ComposeOptions) : ∃ m, l.foldlM composeOption compose = .ok m := by
  induction l generalizing compose with
  | nil => exact ⟨_, rfl⟩
  | cons e l ih =>
      obtain ⟨compose', hstep⟩ := composeOption_ok (h e (List.mem_cons_self ..)) compose
      rw [List.foldlM_cons, hstep]
      exact ih (fun e' he' => h e' (List.mem_cons_of_mem _ he')) compose'

/-! ## What is carried over -/

/-- The options of the line, and nothing else. -/
structure CarriesOver (opts : List RunOption) (m : ComposeOptions) : Prop where
  listed : ∀ o : ValuedOption, o.isSingle = false → m.get? o.key =
    if valuesOf o opts = [] then none
    else some (.list (unique ((valuesOf o opts).map PlainValue.string)))
  single : ∀ o : ValuedOption, o.isSingle = true → m.get? o.key =
    (valuesOf o opts).head?.map fun v => .text v.string
  flag : ∀ f : FlagOption, m.get? f.key = if hasFlag f opts then some .flag else none
  other : ∀ key, (∀ o : ValuedOption, key ≠ o.key) → (∀ f : FlagOption, key ≠ f.key) →
    m.get? key = none

/-- The values that are read up to their first dash have none, and the values of which
there is to be one are not taken for empty. -/
structure Readable (opts : List RunOption) : Prop where
  listed : ∀ o : ValuedOption, o.isSingle = false → ∀ v ∈ valuesOf o opts, '-' ∉ v.text
  shmSize : ∀ v, (valuesOf .shmSize opts).head? = some v → '-' ∉ v.text
  filled : ∀ o : ValuedOption, o.isSingle = true → ∀ v, (valuesOf o opts).head? = some v →
    truthyText (trim v.string) = true

theorem valued_plain (o : ValuedOption) : isPlain o.name = true := by
  cases o <;> rfl

theorem flag_plain (f : FlagOption) : isPlain f.name = true := by
  cases f <;> rfl

theorem PlainValue.front_eq {v : PlainValue} (h : '-' ∉ v.text) : v.front = v.text := by
  refine List.takeWhile_eq_self_iff.mpr fun c hc => ?_
  rw [isValueChar, v.noSpace c hc, Bool.not_false, Bool.true_and, bne_iff_ne]
  rintro rfl
  exact h hc

theorem plainOut_listed {o : ValuedOption} (h : o.isSingle = false) (c : Collected) :
    plainOut o.name c = some c.compose := by
  refine if_neg ?_
  rintro (hname | hname)
  · rw [@ValuedOption.name_injective _ .shmSize hname] at h
    cases h
  · rw [@ValuedOption.name_injective _ .hostname hname] at h
    cases h

theorem plainOut_single {o : ValuedOption} (h : o.isSingle = true) (c : Collected) :
    plainOut o.name c = (firstValue c).map .text := by
  refine if_pos ?_
  simp only [ValuedOption.isSingle, Bool.or_eq_true, decide_eq_true_eq] at h
  rcases h with rfl | rfl
  exacts [.inl rfl, .inr rfl]

theorem firstValue_of_head {l : List String} {v : String} (h : l.head? = some v)
    (hv : truthyText (trim v) = true) : firstValue (.values l) = some v := by
  cases l with
  | nil => cases h
  | cons w l =>
      obtain rfl := Option.some.inj h
      exact if_pos hv

theorem truthyText_of_trim {v : PlainValue} (h : truthyText (trim v.string) = true) :
    truthyText v.string = true := by
  rw [truthyText, Value.truthy, Bool.and_eq_true, bne_iff_ne, bne_iff_ne]
  constructor
  · intro hempty
    have := congrArg String.toList hempty
    rw [PlainValue.string, String.toList_ofList] at this
    exact v.nonempty this
  · intro hzero
    rw [hzero] at h
    exact absurd h (by decide +kernel)

/-- What is pushed first for an option of which one value is taken. -/
theorem pushedFor_head {o : ValuedOption} {opts : List RunOption} {v : PlainValue} {first : String}
    (hhead : (valuesOf o opts).head? = some v)
    (hvalue : if o = .hostname then first = v.string else '-' ∉ v.text) :
    (unique (pushedFor first o opts)).head? = some v.string := by
  obtain ⟨vs, hvs⟩ := List.head?_eq_some_iff.mp hhead
  rw [pushedFor, hvs, List.flatMap_cons]
  by_cases ho : o = .hostname
  · rw [if_pos ho] at hvalue
    rw [if_pos ho, hvalue, List.cons_append, unique_head]
  · rw [if_neg ho] at hvalue
    rw [if_neg ho, PlainValue.front_eq hvalue, List.cons_append, unique_head]
    rfl

theorem carriesOver_of_holds {opts : List RunOption} {first : String} {options : Options}
    (hread : Readable opts) (hholds : Holds first opts options)
    (hfirst : ∀ v, (valuesOf .hostname opts).head? = some v → first = v.string) :
    ∃ m, options.entries.foldlM composeOption .empty = .ok m ∧ CarriesOver opts m := by
  have hulimit : options.get? "--ulimit" = none := hholds.other _ (by decide) (by decide)
  obtain ⟨m, hm⟩ := foldlM_compose_ok (l := options.entries) (fun e he hname => by
    refine OrderedMap.get?_eq_none_iff.mp hulimit (OrderedMap.mem_keys.mpr ⟨e.2, ?_⟩)
    rw [← hname]
    exact he) .empty
  refine ⟨m, hm, fun o ho => ?_, fun o ho => ?_, fun f => ?_, fun key hvalued hflag => ?_⟩
  · have hne : o ≠ .hostname := by
      rintro rfl
      cases ho
    have hpushed : pushedFor first o opts = (valuesOf o opts).map PlainValue.string := by
      rw [pushedFor, ← List.flatMap_singleton' ((valuesOf o opts).map PlainValue.string),
        List.flatMap_map]
      refine List.flatMap_congr fun v hv => ?_
      rw [if_neg hne, PlainValue.front_eq (hread.listed o ho v hv)]
      rfl
    rw [compose_get hm (valued_plain o) (valued_mapped o), hholds.valued, hpushed, collectedOf]
    by_cases hnil : valuesOf o opts = []
    · rw [hnil, List.map_nil, if_pos rfl, if_pos rfl, Option.bind_none]
    · rw [if_neg (by simpa using hnil), if_neg hnil, Option.bind_some, plainOut_listed ho]
      rfl
  · rw [compose_get hm (valued_plain o) (valued_mapped o), hholds.valued]
    cases hhead : (valuesOf o opts).head? with
    | none =>
        have hnil : valuesOf o opts = [] := List.head?_eq_none_iff.mp hhead
        rw [pushedFor, hnil]
        rfl
    | some v =>
        have hvalue : if o = .hostname then first = v.string else '-' ∉ v.text := by
          simp only [ValuedOption.isSingle, Bool.or_eq_true, decide_eq_true_eq] at ho
          rcases ho with rfl | rfl
          · rw [if_neg nofun]
            exact hread.shmSize v hhead
          · rw [if_pos rfl]
            exact hfirst v hhead
        have hhead' := pushedFor_head hhead hvalue
        have hne : pushedFor first o opts ≠ [] := by
          intro hnil
          rw [hnil] at hhead'
          cases hhead'
        rw [collectedOf, if_neg hne, Option.bind_some, plainOut_single ho,
          firstValue_of_head hhead' (hread.filled o ho v hhead)]
        rfl
  · rw [compose_get hm (flag_plain f) (flag_mapped f), hholds.flag]
    cases hasFlag f opts with
    | true => cases f <;> rfl
    | false => rfl
  · refine (foldlM_compose_other (fun e he hout => ?_) hm).trans rfl
    have hmapped : mapping.lookup e.1 ≠ none := by
      rw [outKey] at hout
      split at hout
      · next hgpus => rw [hgpus]; decide
      · rw [hout]; exact nofun
    have hreadable : e.1 ∈ readableNames := by
      by_contra hno
      exact OrderedMap.get?_eq_none_iff.mp (hholds.other e.1 hno hmapped)
        (OrderedMap.mem_keys.mpr ⟨e.2, he⟩)
    rcases List.mem_append.mp hreadable with hname | hname
    · obtain ⟨o, -, ho⟩ := List.mem_map.mp hname
      rw [← ho, outKey, if_neg (by cases o <;> decide), valued_mapped] at hout
      exact hvalued o (Option.some.inj hout).symm
    · have hf : ∃ f : FlagOption, e.1 = f.name := by
        rcases List.mem_pair.mp hname with h | h
        exacts [⟨_, h⟩, ⟨_, h⟩]
      obtain ⟨f, hf⟩ := hf
      rw [hf, outKey, if_neg (by cases f <;> decide), flag_mapped] at hout
      exact hflag f (Option.some.inj hout).symm

theorem carries_over {opts : List RunOption} (hread : Readable opts) (hquiet : Quiet opts) :
    ∃ m, convertDockerRunToCompose (renderLine opts) = .ok m ∧ CarriesOver opts m := by
  have hhostname : hostnameValue (renderLine opts) =
      (valuesOf .hostname opts).head?.map PlainValue.string := by
    refine hostnameValue_line fun o ho hmem => ?_
    obtain ⟨e, he, hname⟩ := List.mem_map.mp hmem
    have hnone := (hquiet o ho e he).1
    rw [hname] at hnone
    cases hnone
  let first := ((valuesOf .hostname opts).head?.map PlainValue.string).getD ""
  have hhead : ∀ v, (valuesOf .hostname opts).head? = some v → first = v.string := by
    intro v hv
    simp only [first, hv, Option.map_some, Option.getD_some]
  have hfirst : ∀ v ∈ valuesOf .hostname opts, hostnameValue (renderLine opts) = some first ∧
      truthyText first = true ∧ truthyText (trim first) = true := by
    intro v hv
    obtain ⟨w, hw⟩ := Option.ne_none_iff_exists'.mp
      (fun hnone => List.ne_nil_of_mem hv (List.head?_eq_none_iff.mp hnone))
    have htrim := hread.filled .hostname rfl w hw
    rw [hhostname, hw, Option.map_some, hhead w hw]
    exact ⟨rfl, truthyText_of_trim htrim, htrim⟩
  obtain ⟨options, hcollect, hholds⟩ := collect_line hfirst hquiet
  obtain ⟨m, hm, hcarries⟩ := carriesOver_of_holds hread hholds hhead
  refine ⟨m, ?_, hcarries⟩
  rw [convertDockerRunToCompose, scan_line, hcollect]
  exact hm

/-! ## What is cut short -/

/-- Values that another search finds are not cut. -/
def isSearched (name : String) : Bool :=
  name == "--gpus" || name == "--hostname" || name == "--entrypoint"

/-- No collected value has a dash in it, but for what other searches have found. -/
def DashFree (options : Options) : Prop :=
  ∀ name, isSearched name = false → ∀ l, options.get? name = some (.values l) →
    ∀ s ∈ l, '-' ∉ s.toList

theorem takeWhile_dashFree (l : List Char) : '-' ∉ l.takeWhile isValueChar := by
  intro hmem
  exact absurd (List.mem_takeWhile_imp hmem) (by decide)

theorem optionAt_dashFree {cs : List Char} {m : OptionMatch} (h : optionAt cs = some m) :
    '-' ∉ m.value := by
  by_cases hcs : ∃ tail, cs = '-' :: '-' :: tail
  · obtain ⟨tail, rfl⟩ := hcs
    rw [optionAt_dashes] at h
    split at h
    · rw [← Option.some.inj h]
      exact takeWhile_dashFree _
    · cases h
  · rw [optionAt_of_not fun rest hrest => hcs ⟨rest, hrest⟩] at h
    cases h

theorem scan_dashFree (cs : List Char) (n : Nat) :
    ∀ e ∈ scan n cs, ∀ s, e.2 = some s → '-' ∉ s.toList := by
  induction cs generalizing n with
  | nil =>
      intro e he
      cases n <;> cases he
  | cons c cs ih =>
      cases n with
      | succ n => exact ih n
      | zero =>
          intro e he s hs
          cases hmatch : optionAt (c :: cs) with
          | none =>
              rw [scan_miss hmatch] at he
              exact ih 0 e he s hs
          | some m =>
              rw [scan_match hmatch] at he
              rcases List.mem_cons.mp he with rfl | he
              · dsimp only at hs
                split at hs
                · cases hs
                · rw [← Option.some.inj hs, String.toList_ofList]
                  exact optionAt_dashFree hmatch
              · exact ih _ e he s hs

theorem DashFree.push {options options' : Options} (h : DashFree options) {name value : String}
    (hvalue : isSearched name = true ∨ '-' ∉ value.toList)
    (hpush : push options name value = .ok options') : DashFree options' := by
  obtain ⟨l, hl, rfl⟩ : ∃ l, (∀ s ∈ l, s = value ∨
      ∃ l', options.get? name = some (.values l') ∧ s ∈ l') ∧
      options' = options.set name (.values l) := by
    unfold DockerRun.push at hpush
    split at hpush
    · exact ⟨[value], fun s hs => .inl (List.mem_singleton.mp hs), (Except.ok.inj hpush).symm⟩
    · next l' hget =>
      refine ⟨_, fun s hs => ?_, (Except.ok.inj hpush).symm⟩
      split at hs
      · exact .inr ⟨l', hget, hs⟩
      · rcases List.mem_append.mp hs with hs | hs
        exacts [.inr ⟨l', hget, hs⟩, .inl (List.mem_singleton.mp hs)]
    · cases hpush
  intro other hother l' hget s hs
  by_cases heq : other = name
  · subst heq
    rw [OrderedMap.get?_set_self] at hget
    obtain rfl : l = l' := by injection hget with hget; injection hget
    rcases hl s hs with rfl | ⟨l'', hget'', hs''⟩
    · rw [hother] at hvalue
      exact hvalue.resolve_left Bool.false_ne_true
    · exact h other hother l'' hget'' s hs''
  · rw [OrderedMap.get?_set_ne _ _ heq] at hget
    exact h other hother l' hget s hs

theorem DashFree.pushIf {options options' : Options} (h : DashFree options) {name : String}
    {keep : String → Bool} {value : Option String} (hname : isSearched name = true)
    (hpush : pushIf keep options name value = .ok options') : DashFree options' := by
  unfold DockerRun.pushIf at hpush
  split at hpush
  · exact h.push (.inl hname) hpush
  · rwa [← Except.ok.inj hpush]

theorem DashFree.collectSpecial {line : List Char} {options options' : Options}
    (h : DashFree options) {name : String}
    (hcollect : collectSpecial line options name = .ok options') : DashFree options' := by
  unfold DockerRun.collectSpecial at hcollect
  split_ifs at hcollect with hgpus hhostname hentrypoint
  · exact h.push (.inl (by rw [hgpus]; rfl)) hcollect
  · exact h.pushIf (by rw [hhostname]; rfl) hcollect
  · exact h.pushIf (by rw [hentrypoint]; rfl) hcollect
  · rwa [← Except.ok.inj hcollect]

theorem DashFree.collect {line : List Char} {options options' : Options} (h : DashFree options)
    {e : String × Option String} (he : ∀ s, e.2 = some s → '-' ∉ s.toList)
    (hcollect : collect line options e = .ok options') : DashFree options' := by
  unfold DockerRun.collect at hcollect
  cases hspecial : DockerRun.collectSpecial line options e.1 with
  | error err =>
      rw [hspecial] at hcollect
      cases hcollect
  | ok options₁ =>
      have h₁ := h.collectSpecial hspecial
      rw [hspecial] at hcollect
      replace hcollect : (if e.1 = "--entrypoint" then .ok options₁
        else match e.2 with
          | some value => DockerRun.push options₁ e.1 value
          | none => .ok (options₁.set e.1 .flag)) = Except.ok options' := hcollect
      split_ifs at hcollect
      · rwa [← Except.ok.inj hcollect]
      · cases hvalue : e.2 with
        | some value =>
            rw [hvalue] at hcollect
            exact h₁.push (.inr (he value hvalue)) hcollect
        | none =>
            rw [hvalue] at hcollect
            obtain rfl := Except.ok.inj hcollect
            intro other hother l hget
            rw [OrderedMap.get?_set] at hget
            split at hget
            · cases hget
            · exact h₁ other hother l hget

theorem DashFree.foldlM {line : List Char} {es : List (String × Option String)}
    (hes : ∀ e ∈ es, ∀ s, e.2 = some s → '-' ∉ s.toList) {options options' : Options}
    (h : DashFree options) (hfold : es.foldlM (DockerRun.collect line) options = .ok options') :
    DashFree options' := by
  induction es generalizing options with
  | nil => rwa [← Except.ok.inj hfold]
  | cons e es ih =>
      rw [List.foldlM_cons] at hfold
      cases hstep : DockerRun.collect line options e with
      | error err =>
          rw [hstep] at hfold
          cases hfold
      | ok options₁ =>
          rw [hstep] at hfold
          exact ih (fun e' he' => hes e' (List.mem_cons_of_mem _ he'))
            (h.collect (hes e (List.mem_cons_self ..)) hstep) hfold

theorem DashFree.empty : DashFree .empty := by
  intro name _ l hget
  cases hget

theorem collected_dashFree {line : List Char} {options : Options}
    (h : (scan 0 line).foldlM (collect line) .empty = .ok options) : DashFree options :=
  DashFree.foldlM (scan_dashFree line 0) .empty h

theorem valued_not_searched {o : ValuedOption} (ho : o ≠ .hostname) :
    isSearched o.name = false := by
  cases o with
  | hostname => exact absurd rfl ho
  | _ => rfl

theorem readable_of_carriesOver {opts : List RunOption} {m : ComposeOptions}
    (hconvert : convertDockerRunToCompose (renderLine opts) = .ok m) (h : CarriesOver opts m) :
    Readable opts := by
  rw [convertDockerRunToCompose] at hconvert
  cases hcollect : (scan 0 (renderLine opts)).foldlM (collect (renderLine opts)) .empty with
  | error err =>
      rw [hcollect] at hconvert
      cases hconvert
  | ok options =>
      rw [hcollect] at hconvert
      replace hconvert : options.entries.foldlM composeOption .empty = .ok m := hconvert
      have hfree := collected_dashFree hcollect
      have hout : ∀ {o : ValuedOption} {value : ComposeValue}, m.get? o.key = some value →
          ∃ c, options.get? o.name = some c ∧ plainOut o.name c = some value := by
        intro o value hvalue
        rw [compose_get hconvert (valued_plain o) (valued_mapped o)] at hvalue
        exact Option.bind_eq_some_iff.mp hvalue
      have hsingle : ∀ {o : ValuedOption}, o.isSingle = true → ∀ {v : PlainValue},
          (valuesOf o opts).head? = some v → ∃ l, options.get? o.name = some (.values l) ∧
            v.string ∈ l ∧ truthyText (trim v.string) = true := by
        intro o ho v hv
        have hvalue := h.single o ho
        rw [hv, Option.map_some] at hvalue
        obtain ⟨c, hget, hplain⟩ := hout hvalue
        rw [plainOut_single ho] at hplain
        obtain ⟨s, hs, htext⟩ := Option.map_eq_some_iff.mp hplain
        obtain rfl : s = v.string := by injection htext
        unfold firstValue at hs
        split at hs
        · next w l =>
          split_ifs at hs with htruthy
          obtain rfl := Option.some.inj hs
          exact ⟨_, hget, List.mem_cons_self .., htruthy⟩
        · cases hs
      refine ⟨fun o ho v hv => ?_, fun v hv => ?_, fun o ho v hv => ?_⟩
      · have hvalue := h.listed o ho
        rw [if_neg (List.ne_nil_of_mem hv)] at hvalue
        obtain ⟨c, hget, hplain⟩ := hout hvalue
        rw [plainOut_listed ho] at hplain
        have hne : o ≠ .hostname := by
          rintro rfl
          cases ho
        cases c with
        | flag => cases hplain
        | values l =>
            obtain rfl : l = _ := by injection hplain with hplain; injection hplain
            have hmem : v.string ∈ unique ((valuesOf o opts).map PlainValue.string) :=
              mem_unique.mpr (List.mem_map.mpr ⟨v, hv, rfl⟩)
            have := hfree o.name (valued_not_searched hne) _ hget v.string hmem
            rwa [PlainValue.string, String.toList_ofList] at this
      · obtain ⟨l, hget, hmem, -⟩ := hsingle (o := .shmSize) rfl hv
        have := hfree _ rfl l hget v.string hmem
        rwa [PlainValue.string, String.toList_ofList] at this
      · obtain ⟨-, -, -, htruthy⟩ := hsingle ho hv
        exact htruthy

/-- With values that are read whole and have no other options in them, exactly the options of
the line are carried over; a line whose values are not read whole never is. -/
theorem options_carried_over (opts : List RunOption) :
    (Readable opts ∧ Quiet opts →
      ∃ m, convertDockerRunToCompose (renderLine opts) = .ok m ∧ CarriesOver opts m) ∧
    ((∃ m, convertDockerRunToCompose (renderLine opts) = .ok m ∧ CarriesOver opts m) →
      Readable opts) := by
  constructor
  · rintro ⟨hread, hquiet⟩
    exact carries_over hread hquiet
  · rintro ⟨m, hconvert, hcarries⟩
    exact readable_of_carriesOver hconvert hcarries

/-- `--cap-add=NET --hostname web-1 --init`. -/
def hostnameLine : List RunOption :=
  [.valued .capAdd ⟨['N', 'E', 'T'], nofun, by simp [isPatternSpace], by simp, by simp⟩ true,
    .valued .hostname
      ⟨['w', 'e', 'b', '-', '1'], nofun, by simp [isPatternSpace], by simp, by simp⟩ false,
    .flag .init]

theorem hostname_line_carried_over :
    ∃ m, convertDockerRunToCompose (renderLine hostnameLine) = .ok m ∧
      CarriesOver hostnameLine m := by
  refine (options_carried_over hostnameLine).1 ⟨⟨fun o ho v hv => ?_, nofun, fun o ho v hv => ?_⟩,
    fun o ho => ?_⟩
  · cases o with
    | capAdd =>
        obtain rfl := List.mem_singleton.mp hv
        simp
    | hostname => cases ho
    | shmSize => cases ho
    | _ => cases hv
  · cases o with
    | hostname =>
        obtain rfl := Option.some.inj hv
        decide +kernel
    | shmSize => cases hv
    | _ => cases ho
  · have hnone : o.embedded = [] := by
      simp only [hostnameLine, List.mem_cons, List.not_mem_nil, or_false] at ho
      rcases ho with rfl | rfl | rfl <;> rfl
    rw [hnone]
    exact nofun

/-- `--security-opt=no-new-privileges:true`. -/
def securityLine : List RunOption :=
  [.valued .securityOpt
    ⟨['n', 'o', '-', 'n', 'e', 'w', '-', 'p', 'r', 'i', 'v', 'i', 'l', 'e', 'g', 'e', 's', ':', 't',
      'r', 'u', 'e'], nofun, by simp [isPatternSpace], by simp, by simp⟩ true]

theorem security_option_cut_short :
    (∃ m, convertDockerRunToCompose (renderLine securityLine) = .ok m ∧
      m.get? "security_opt" = some (.list ["no"])) ∧
    ¬ ∃ m, convertDockerRunToCompose (renderLine securityLine) = .ok m ∧
      CarriesOver securityLine m := by
  constructor
  · exact ⟨_, rfl, rfl⟩
  · rintro ⟨m, hm, hcarries⟩
    have hread := readable_of_carriesOver hm hcarries
    exact hread.listed .securityOpt rfl _ (List.mem_singleton_self _) (by simp)

end DockerRun

end OnePloy
