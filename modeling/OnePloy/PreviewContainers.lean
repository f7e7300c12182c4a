import OnePloy.Lib.PhpText
import Mathlib.Data.List.Nodup

/-!
# The containers of one pull request

The containers of an application and of its previews stand side by side on a
server and are told apart by their labels alone. `docker ps` prints the labels
of a container as one text, joined by commas in no particular order, and
`getCurrentApplicationContainerStatus` reads the pull request back out of that
text: once with a pattern for the digits, to see whether it is 0, and once by
searching for the label with the number asked for.
-/

namespace OnePloy

open Php

/-- What the labels take from elsewhere: `Str::slug` and the version in the
configuration. Neither writes an equals sign. -/
structure Labelling where
  slug : String → String
  version : String
  slug_plain : ∀ s, '=' ∉ (slug s).toList
  version_plain : '=' ∉ version.toList

inductive ResourceType
  | application
  | service
  deriving DecidableEq, Repr

def ResourceType.text : ResourceType → String
  | .application => "application"
  | .service => "service"

def defaultLabels (w : Labelling) (id : Nat) (name projectName resourceName environment : String)
    (pullRequestId : Nat) (type : ResourceType) (subType : Option String) (subId : Option Nat)
    (subName : Option String) : List String :=
  ["coolify.managed=true",
    "coolify.version=" ++ w.version,
    "coolify." ++ type.text ++ "Id=" ++ toString id,
    "coolify.type=" ++ type.text,
    "coolify.name=" ++ w.slug name,
    "coolify.resourceName=" ++ w.slug resourceName,
    "coolify.projectName=" ++ w.slug projectName,
    "coolify.serviceName=" ++ w.slug (subName.getD resourceName),
    "coolify.environmentName=" ++ w.slug environment,
    "coolify.pullRequestId=" ++ toString pullRequestId] ++
  match type with
  | .application => []
  | .service =>
      ((subId.filter (· ≠ 0)).map fun i => "coolify.service.subId=" ++ toString i).toList ++
      ((subType.filter fun t => Value.truthy (.string t)).map
        ("coolify.service.subType=" ++ ·)).toList ++
      ((subName.filter fun t => Value.truthy (.string t)).map fun t =>
        "coolify.service.subName=" ++ w.slug t).toList

/-- A container of an application or of one of its previews, `pullRequestId` 0
for the application itself. Besides the labels above it carries those of Docker
Compose, of the proxy and of the user. -/
structure AppContainer (w : Labelling) where
  name : String
  applicationId : Nat
  pullRequestId : Nat
  uuid : String
  projectName : String
  resourceName : String
  environment : String
  others : List String
  /-- In the order `docker ps` prints them. -/
  labels : List String
  named : Value.truthy (.string name) = true
  written : labels.Perm
    (defaultLabels w applicationId uuid projectName resourceName environment pullRequestId
      .application none none none ++ others)
  others_plain : ∀ l ∈ others, strContains l "coolify.pullRequestId=" = false ∧
    strStartsWith l "coolify.applicationId=" = false

/-- On a swarm the labels belong to the services, and no container carries them. -/
structure DockerServer (w : Labelling) where
  isSwarm : Bool
  containers : List (AppContainer w)
  names_nodup : (containers.map AppContainer.name).Nodup
  swarm_unlabelled : isSwarm = true → containers = []

variable {w : Labelling}

/-- The container belongs to pull request `n` of application `id`. -/
def AppContainer.IsOf (c : AppContainer w) (id n : Nat) : Prop :=
  c.applicationId = id ∧ c.pullRequestId = n

instance (c : AppContainer w) (id n : Nat) : Decidable (c.IsOf id n) :=
  inferInstanceAs (Decidable (_ ∧ _))

/-- The `Labels` of `docker ps --format '\x7b\x7bjson .\x7d\x7d'`. -/
def AppContainer.psLabels (c : AppContainer w) : String := implode ',' c.labels

def prKey : List Char := "coolify.pullRequestId=".toList

/-- The callback of `getCurrentApplicationContainerStatus`, for the labels of
one container. -/
def keepsContainer (pullRequestId : Option Nat) (includePullrequests : Bool) (labels : String) :
    Bool :=
  let hasPrLabel := strContains labels "coolify.pullRequestId="
  let prLabelValue :=
    if hasPrLabel then digitsAfter prKey labels.toList else none
  -- `(int) null` is 0 as well
  let isBaseDeploy := !hasPrLabel || digitsValue (prLabelValue.getD []) == 0
  let asked := pullRequestId.filter (· ≠ 0)
  if asked.isSome && isBaseDeploy then false
  else if isBaseDeploy then true
  else if includePullrequests then true
  else asked.any fun n => strContains labels ("coolify.pullRequestId=" ++ toString n)

namespace DockerServer

/-- `docker ps -a --filter label=…`, which compares whole labels. -/
def ps (s : DockerServer w) (label : String) : List (AppContainer w) :=
  s.containers.filter fun c => c.labels.contains label

def getCurrentApplicationContainerStatus (s : DockerServer w) (id : Nat)
    (pullRequestId : Option Nat) (includePullrequests : Bool) :
    List (AppContainer w) :=
  if s.isSwarm then []
  else
    (s.ps ("coolify.applicationId=" ++ toString id)).filter fun c =>
      keepsContainer pullRequestId includePullrequests c.psLabels

end DockerServer

inductive DockerCommand
  | stop (container : String)
  | rm (container : String)
  | updateRestartNo (container : String)
  | stackRm (stack : String)
  deriving DecidableEq, Repr

/-- The command stops or removes the container. -/
def DockerCommand.ends (name : String) : DockerCommand → Bool
  | .stop container | .rm container => container == name
  | .updateRestartNo _ | .stackRm _ => false

/-- `CleanupPreviewDeployment::stopRunningContainers`. -/
def stopRunningContainers (s : DockerServer w) (uuid : String) (id pullRequestId : Nat) :
    List DockerCommand :=
  if s.isSwarm then [.stackRm (uuid ++ "-" ++ toString pullRequestId)]
  else
    ((s.getCurrentApplicationContainerStatus id (some pullRequestId) false).filter fun c =>
      Value.truthy (.string c.name)).map fun c => .rm c.name

/-- `StopApplicationPreview::handle`. -/
def stopApplicationPreview (s : DockerServer w) (id pullRequestId : Nat)
    (removeContainer : Bool) : List DockerCommand :=
  (s.getCurrentApplicationContainerStatus id (some pullRequestId) false).flatMap fun c =>
    if removeContainer then [.stop c.name, .rm c.name]
    else [.updateRestartNo c.name, .stop c.name]

/-! ## What the labels of a container say -/

theorem prKey_eq : prKey = "coolify.pullRequestId".toList ++ ['='] := rfl

theorem toList_prLabel (n : Nat) :
    ("coolify.pullRequestId=" ++ toString n).toList = prKey ++ Nat.toDigits 10 n := by
  have hn : (toString n).toList = Nat.toDigits 10 n := Nat.toList_repr
  rw [String.toList_append, hn]
  rfl

theorem prKey_ne_nil : prKey ≠ [] := by decide

theorem eq_not_mem_digits (n : Nat) : '=' ∉ Nat.toDigits 10 n := fun h => by
  have := Nat.isDigit_of_mem_toDigits (by decide) (by decide) h
  cases this

/-- A key with its sign, other than that of the pull request. -/
def isOtherKey (q : List Char) : Bool :=
  q.getLast? == some '=' && !q.dropLast.contains '=' &&
    !"coolify.pullRequestId".toList.isSuffixOf q.dropLast

/-- A label with another key does not have the text of the pull request label. -/
theorem not_infix_otherKey {q v : String} (hq : isOtherKey q.toList = true)
    (hv : '=' ∉ v.toList) : ¬ prKey <:+: (q ++ v).toList := by
  simp only [isOtherKey, Bool.and_eq_true, beq_iff_eq, Bool.not_eq_true',
    ← Bool.not_eq_true, List.contains_iff_mem, List.isSuffixOf_iff_suffix] at hq
  intro h
  have hsplit : q.toList = q.toList.dropLast ++ ['='] :=
    (List.dropLast_append_getLast? _ hq.1.1).symm
  rw [prKey_eq, String.toList_append, hsplit, List.append_assoc] at h
  exact hq.2 ((infix_keyed hq.1.2 hv).mp h).1

/-- Among the labels of a container only one has the text of the pull request
label, and it names the container's pull request. -/
theorem eq_prLabel_of_infix {id n : Nat} {name projectName resourceName environment l : String}
    (hl : l ∈ defaultLabels w id name projectName resourceName environment n .application
      none none none) (h : prKey <:+: l.toList) : l = "coolify.pullRequestId=" ++ toString n := by
  have hid : '=' ∉ (toString id).toList := by
    rw [show (toString id).toList = Nat.toDigits 10 id from Nat.toList_repr]
    exact eq_not_mem_digits id
  simp only [defaultLabels, List.append_nil, List.mem_cons, List.not_mem_nil, or_false] at hl
  rcases hl with rfl | rfl | rfl | rfl | rfl | rfl | rfl | rfl | rfl | rfl
  · exact absurd h (by decide)
  · exact absurd h (not_infix_otherKey (by decide) w.version_plain)
  · exact absurd h (not_infix_otherKey (by decide) hid)
  · exact absurd h (by decide)
  · exact absurd h (not_infix_otherKey (by decide) (w.slug_plain _))
  · exact absurd h (not_infix_otherKey (by decide) (w.slug_plain _))
  · exact absurd h (not_infix_otherKey (by decide) (w.slug_plain _))
  · exact absurd h (not_infix_otherKey (by decide) (w.slug_plain _))
  · exact absurd h (not_infix_otherKey (by decide) (w.slug_plain _))
  · rfl

namespace AppContainer

variable (c : AppContainer w)

theorem prLabel_mem : "coolify.pullRequestId=" ++ toString c.pullRequestId ∈ c.labels :=
  c.written.mem_iff.mpr (List.mem_append_left _ (by simp [defaultLabels]))

theorem eq_prLabel {l : String} (hl : l ∈ c.labels) (h : prKey <:+: l.toList) :
    l = "coolify.pullRequestId=" ++ toString c.pullRequestId := by
  rcases List.mem_append.mp (c.written.mem_iff.mp hl) with hl | hl
  · exact eq_prLabel_of_infix hl h
  · have := (c.others_plain l hl).1
    rw [← Bool.not_eq_true, strContains_iff] at this
    exact absurd h this

theorem toList_psLabels : c.psLabels.toList = [','].intercalate (c.labels.map String.toList) :=
  String.toList_ofList

/-- Searching the printed labels for the label of `n` finds the numbers that
begin with the digits of `n`. -/
theorem strContains_psLabels (n : Nat) :
    strContains c.psLabels ("coolify.pullRequestId=" ++ toString n) = true ↔
      Nat.toDigits 10 n <+: Nat.toDigits 10 c.pullRequestId := by
  have hcomma : ',' ∉ prKey ++ Nat.toDigits 10 n := fun h => by
    rcases List.mem_append.mp h with h | h
    · exact absurd h (by decide)
    · have := Nat.isDigit_of_mem_toDigits (by decide) (by decide) h
      cases this
  rw [strContains_iff, toList_prLabel, toList_psLabels,
    infix_intercalate hcomma (by simp [prKey_ne_nil])]
  constructor
  · rintro ⟨l, hl, hin⟩
    obtain ⟨t, ht, rfl⟩ := List.mem_map.mp hl
    rw [c.eq_prLabel ht ((List.prefix_append ..).isInfix.trans hin), toList_prLabel,
      prKey_eq, List.append_assoc, List.append_assoc] at hin
    exact ((infix_keyed (by decide) (eq_not_mem_digits _)).mp hin).2
  · intro hpre
    refine ⟨_, List.mem_map_of_mem c.prLabel_mem, ?_⟩
    rw [toList_prLabel]
    exact ((List.prefix_append_right_inj prKey).mpr hpre).isInfix

theorem hasPrLabel : strContains c.psLabels "coolify.pullRequestId=" = true := by
  rw [strContains_iff, toList_psLabels]
  refine (infix_intercalate (by decide) (by decide)).mpr
    ⟨_, List.mem_map_of_mem c.prLabel_mem, ?_⟩
  rw [toList_prLabel]
  exact (List.prefix_append ..).isInfix

theorem prLabelValue :
    digitsAfter prKey c.psLabels.toList = some (Nat.toDigits 10 c.pullRequestId) := by
  rw [toList_psLabels]
  refine digitsAfter_intercalate (by decide) (by decide) prKey_ne_nil Nat.toDigits_ne_nil
    (fun d hd => Nat.isDigit_of_mem_toDigits (by decide) (by decide) hd) ?_ fun l hl hin => ?_
  · rw [← toList_prLabel]
    exact List.mem_map_of_mem c.prLabel_mem
  · obtain ⟨t, ht, rfl⟩ := List.mem_map.mp hl
    rw [c.eq_prLabel ht hin, toList_prLabel]

theorem digitsValue_toDigits (n : Nat) : digitsValue (Nat.toDigits 10 n) = n := by
  have h := Nat.ofDigitChars_ten_toDigits (n := n)
  rw [Nat.ofDigitChars_eq_foldl] at h
  simpa [digitsValue, Nat.mul_comm] using h

/-- What the callback keeps of a container of pull request `n`. -/
theorem keepsContainer_psLabels (asked : Option Nat) (includePullrequests : Bool) :
    keepsContainer asked includePullrequests c.psLabels =
      if c.pullRequestId = 0 then !(asked.filter (· ≠ 0)).isSome
      else includePullrequests || (asked.filter (· ≠ 0)).any fun n =>
        decide (Nat.toDigits 10 n <+: Nat.toDigits 10 c.pullRequestId) := by
  have hsearch : ∀ n, strContains c.psLabels ("coolify.pullRequestId=" ++ toString n) =
      decide (Nat.toDigits 10 n <+: Nat.toDigits 10 c.pullRequestId) := fun n => by
    rw [Bool.eq_iff_iff, strContains_psLabels, decide_eq_true_iff]
  simp only [keepsContainer, c.hasPrLabel, if_true, c.prLabelValue, Option.getD_some,
    digitsValue_toDigits, hsearch, Bool.not_true, Bool.false_or, beq_iff_eq]
  by_cases hzero : c.pullRequestId = 0
  · simp [hzero]
  · simp [hzero]

/-- Among the labels only one begins like that of an application. -/
theorem eq_appLabel {l : String} (hl : l ∈ c.labels)
    (h : "coolify.applicationId=".toList <+: l.toList) :
    l = "coolify.applicationId=" ++ toString c.applicationId := by
  have hother : ∀ {q v : String}, ¬ "coolify.applicationId=".toList <+: q.toList →
      ¬ q.toList <+: "coolify.applicationId=".toList → l ≠ q ++ v := by
    rintro q v hq hq' rfl
    rw [String.toList_append] at h
    rcases List.prefix_or_prefix_of_prefix h (List.prefix_append ..) with h | h
    · exact hq h
    · exact hq' h
  rcases List.mem_append.mp (c.written.mem_iff.mp hl) with hl | hl
  · simp only [defaultLabels, List.append_nil, List.mem_cons, List.not_mem_nil, or_false] at hl
    rcases hl with rfl | hl | hl | rfl | hl | hl | hl | hl | hl | hl
    · exact absurd h (by decide)
    · exact absurd hl (hother (by decide) (by decide))
    · exact hl
    · exact absurd h (by decide)
    all_goals exact absurd hl (hother (by decide) (by decide))
  · have := (c.others_plain l hl).2
    rw [strStartsWith, ← Bool.not_eq_true, List.isPrefixOf_iff_prefix] at this
    exact absurd h this

theorem appLabel_mem_iff (id : Nat) :
    "coolify.applicationId=" ++ toString id ∈ c.labels ↔ c.applicationId = id := by
  constructor
  · intro hl
    have heq := c.eq_appLabel hl (by rw [String.toList_append]; exact List.prefix_append ..)
    rw [String.append_right_inj] at heq
    have hdigits : Nat.toDigits 10 id = Nat.toDigits 10 c.applicationId := by
      rw [← Nat.toList_repr, ← Nat.toList_repr]
      exact congrArg String.toList heq
    rw [← digitsValue_toDigits id, hdigits, digitsValue_toDigits]
  · rintro rfl
    exact c.written.mem_iff.mpr
      (List.mem_append_left _ (by simp [defaultLabels, ResourceType.text]))

end AppContainer

/-! ## Which containers are found, and which are ended -/

namespace DockerServer

variable {s : DockerServer w} {c : AppContainer w} {id : Nat}

theorem mem_current (asked : Option Nat) :
    c ∈ s.getCurrentApplicationContainerStatus id asked false ↔
      c ∈ s.containers ∧ c.applicationId = id ∧
        (if c.pullRequestId = 0 then !(asked.filter (· ≠ 0)).isSome
        else (asked.filter (· ≠ 0)).any fun n =>
          decide (Nat.toDigits 10 n <+: Nat.toDigits 10 c.pullRequestId)) = true := by
  have hswarm : c ∈ s.containers → s.isSwarm = false := fun hc => by
    by_contra hs
    rw [s.swarm_unlabelled (by simpa using hs)] at hc
    cases hc
  rw [getCurrentApplicationContainerStatus]
  split
  · next hs => exact ⟨nofun, fun h => absurd hs (by simp [hswarm h.1])⟩
  · rw [List.mem_filter, ps, List.mem_filter, List.contains_iff_mem, c.appLabel_mem_iff,
      c.keepsContainer_psLabels, Bool.false_or, and_assoc]

/-- Without previews the base containers are found, and no others. -/
theorem mem_current_base {asked : Option Nat} (hasked : asked = none ∨ asked = some 0) :
    c ∈ s.getCurrentApplicationContainerStatus id asked false ↔
      c ∈ s.containers ∧ c.IsOf id 0 := by
  have hnone : asked.filter (· ≠ 0) = none := by
    rcases hasked with rfl | rfl <;> rfl
  rw [mem_current, hnone, AppContainer.IsOf]
  simp

/-- For a pull request all numbers are found that begin with its digits. -/
theorem mem_current_preview {n : Nat} (hn : n ≠ 0) :
    c ∈ s.getCurrentApplicationContainerStatus id (some n) false ↔
      c ∈ s.containers ∧ c.applicationId = id ∧ c.pullRequestId ≠ 0 ∧
        Nat.toDigits 10 n <+: Nat.toDigits 10 c.pullRequestId := by
  have hsome : (some n).filter (· ≠ 0) = some n := by simp [Option.filter, hn]
  rw [mem_current, hsome]
  by_cases hzero : c.pullRequestId = 0 <;> simp [hzero]

/-- A name stands for one container. -/
theorem name_mem_iff {l : List (AppContainer w)} (hl : ∀ d ∈ l, d ∈ s.containers)
    (hc : c ∈ s.containers) : (∃ d ∈ l, d.name = c.name) ↔ c ∈ l := by
  constructor
  · rintro ⟨d, hd, hname⟩
    rwa [← List.inj_on_of_nodup_map s.names_nodup (hl d hd) hc hname]
  · exact fun h => ⟨c, h, rfl⟩

theorem current_subset (asked : Option Nat) :
    ∀ d ∈ s.getCurrentApplicationContainerStatus id asked false, d ∈ s.containers :=
  fun _ hd => ((mem_current asked).mp hd).1

theorem ends_stopRunningContainers (uuid : String) (n : Nat) (hc : c ∈ s.containers) :
    (stopRunningContainers s uuid id n).any (·.ends c.name) = true ↔
      c ∈ s.getCurrentApplicationContainerStatus id (some n) false := by
  have hswarm : s.isSwarm = false := by
    by_contra hs
    rw [s.swarm_unlabelled (by simpa using hs)] at hc
    cases hc
  rw [← name_mem_iff (current_subset (some n)) hc, stopRunningContainers, if_neg (by simp [hswarm]),
    List.any_map, List.any_eq_true]
  constructor
  · rintro ⟨d, hd, hname⟩
    exact ⟨d, (List.mem_filter.mp hd).1, beq_iff_eq.mp hname⟩
  · rintro ⟨d, hd, hname⟩
    exact ⟨d, List.mem_filter.mpr ⟨hd, d.named⟩, beq_iff_eq.mpr hname⟩

theorem ends_stopApplicationPreview (n : Nat) (removeContainer : Bool) (hc : c ∈ s.containers) :
    (stopApplicationPreview s id n removeContainer).any (·.ends c.name) = true ↔
      c ∈ s.getCurrentApplicationContainerStatus id (some n) false := by
  rw [← name_mem_iff (current_subset (some n)) hc, stopApplicationPreview, List.any_flatMap,
    List.any_eq_true]
  cases removeContainer <;> simp [DockerCommand.ends]

end DockerServer

/-- The commands stop or remove the containers of pull request `n` of the
application, and no other. -/
def EndsExactly (s : DockerServer w) (commands : List DockerCommand) (id n : Nat) : Prop :=
  ∀ c ∈ s.containers, commands.any (·.ends c.name) = true ↔ c.IsOf id n

/-- Closing pull request `n` is felt by its own containers only, and without
previews the base containers are found. -/
structure ClosesExactly (s : DockerServer w) (uuid : String) (id n : Nat) : Prop where
  cleanup : EndsExactly s (stopRunningContainers s uuid id n) id n
  stop : ∀ removeContainer, EndsExactly s (stopApplicationPreview s id n removeContainer) id n
  base : ∀ asked, asked = none ∨ asked = some 0 → ∀ c,
    c ∈ s.getCurrentApplicationContainerStatus id asked false ↔ c ∈ s.containers ∧ c.IsOf id 0

/-- The digits of `n` begin another number. -/
def Confusable (n m : Nat) : Prop :=
  n ≠ 0 ∧ m ≠ 0 ∧ m ≠ n ∧ Nat.toDigits 10 n <+: Nat.toDigits 10 m

theorem mem_current_some_iff {s : DockerServer w} {c : AppContainer w} {id n : Nat}
    (hc : c ∈ s.containers) :
    (c ∈ s.getCurrentApplicationContainerStatus id (some n) false ↔ c.IsOf id n) ↔
      (c.applicationId = id → ¬ Confusable n c.pullRequestId) := by
  by_cases hn : n = 0
  · subst hn
    rw [DockerServer.mem_current_base (.inr rfl)]
    exact iff_of_true (by simp [hc]) fun _ h => h.1 rfl
  · rw [DockerServer.mem_current_preview hn]
    constructor
    · rintro hexact hid ⟨-, hzero, hne, hpre⟩
      exact hne (hexact.mp ⟨hc, hid, hzero, hpre⟩).2
    · intro hplain
      constructor
      · rintro ⟨-, hid, hzero, hpre⟩
        refine ⟨hid, ?_⟩
        by_contra hne
        exact hplain hid ⟨hn, hzero, hne, hpre⟩
      · rintro ⟨hid, rfl⟩
        exact ⟨hc, hid, hn, List.prefix_rfl⟩

/-- Closing a pull request is exact when its digits begin the number of no
other preview of the application. -/
theorem closes_exactly_iff (s : DockerServer w) (uuid : String) (id n : Nat) :
    ClosesExactly s uuid id n ↔
      ∀ c ∈ s.containers, c.applicationId = id → ¬ Confusable n c.pullRequestId := by
  constructor
  · intro h c hc
    rw [← mem_current_some_iff hc, ← DockerServer.ends_stopRunningContainers uuid n hc]
    exact h.cleanup c hc
  · intro h
    refine ⟨fun c hc => ?_, fun removeContainer c hc => ?_,
      fun asked hasked c => DockerServer.mem_current_base hasked⟩
    · rw [DockerServer.ends_stopRunningContainers uuid n hc]
      exact (mem_current_some_iff hc).mpr (h c hc)
    · rw [DockerServer.ends_stopApplicationPreview n removeContainer hc]
      exact (mem_current_some_iff hc).mpr (h c hc)

def plainLabelling : Labelling where
  slug _ := "shop"
  version := "4.3.15"
  slug_plain _ := by decide
  version_plain := by decide

def shopContainer (name : String) (hname : Value.truthy (.string name) = true)
    (pullRequestId : Nat) : AppContainer plainLabelling where
  name := name
  applicationId := 1
  pullRequestId := pullRequestId
  uuid := "shop"
  projectName := "shop"
  resourceName := "shop"
  environment := "production"
  others := []
  labels := defaultLabels plainLabelling 1 "shop" "shop" "shop" "production" pullRequestId
    .application none none none
  named := hname
  written := by rw [List.append_nil]
  others_plain := nofun

/-- An application with previews of pull requests 1 and 12. -/
def shopServer : DockerServer plainLabelling where
  isSwarm := false
  containers := [shopContainer "shop" (by decide) 0, shopContainer "shop-pr-1" (by decide) 1,
    shopContainer "shop-pr-12" (by decide) 12]
  names_nodup := by decide
  swarm_unlabelled := nofun

theorem closing_one_ends_twelve :
    ¬ ∀ (w : Labelling) (s : DockerServer w) (uuid : String) (id n : Nat),
      ClosesExactly s uuid id n := by
  intro h
  have hmem : shopContainer "shop-pr-12" (by decide) 12 ∈ shopServer.containers := by
    simp [shopServer]
  have hfound : shopContainer "shop-pr-12" (by decide) 12 ∈
      shopServer.getCurrentApplicationContainerStatus 1 (some 1) false :=
    (DockerServer.mem_current_preview (by decide)).mpr ⟨hmem, rfl, by decide, by decide⟩
  have := ((h plainLabelling shopServer "shop" 1 1).cleanup _ hmem).mp
    ((DockerServer.ends_stopRunningContainers "shop" 1 hmem).mpr hfound)
  exact absurd this.2 (by decide)

end OnePloy
