import OnePloy.Lib.Attempt
import OnePloy.Lib.Scan
import OnePloy.DomainUsage

/-!
# What the domain checks find

Both checks are scans for a domain that the resource shares with another one of the
team or with the instance (`usage_finds_iff`, `api_finds_iff`). What each one reads
differs: `checkDomainUsage` takes the values of `docker_compose_domains` as they
stand, and of the other applications the `fqdn` lists alone.
-/

namespace OnePloy

open Php

/-! ## Domains of a resource -/

namespace DomainResource

def fqdn : DomainResource → Option String
  | .application app => app.fqdn
  | .serviceApplication app => app.fqdn

/-- The domains of one service; a value that is empty for PHP holds none. -/
def serviceDomains (service : String × Option String) : List String :=
  match service.2.filter fun value => (Value.string value).truthy with
  | none => []
  | some value => listOfDomains value

def composeDomains : DomainResource → List String
  | .application app => app.dockerComposeDomains.flatMap serviceDomains
  | .serviceApplication _ => []

def isCompose : DomainResource → Bool
  | .application app => app.buildPack = .dockercompose
  | .serviceApplication _ => false

/-- All that its lists hold. -/
def domains (r : DomainResource) : List String :=
  listOfDomains (r.fqdn.getD "") ++ r.composeDomains

def naked (r : DomainResource) : Set String := {d | d ∈ r.domains.map nakedDomain}

/-- The domains on its `fqdn` list. -/
def listed (r : DomainResource) : Set String :=
  {d | d ∈ (listOfDomains (r.fqdn.getD "")).map nakedDomain}

/-- Those, and the ones of the services of a compose application. -/
def served (r : DomainResource) : Set String :=
  r.listed ∪ {d | r.isCompose = true ∧ d ∈ r.composeDomains.map nakedDomain}

/-- What `checkDomainUsage` compares for it. -/
def readByUsage (r : DomainResource) : Set String := {d | d ∈ r.proposed.map nakedDomain}

theorem listed_subset_naked (r : DomainResource) : r.listed ⊆ r.naked := by
  intro d hd
  simp only [naked, domains, List.map_append, Set.mem_ofPred_eq, List.mem_append]
  exact .inl hd

theorem served_subset_naked (r : DomainResource) : r.served ⊆ r.naked := by
  rintro d (hd | ⟨-, hd⟩)
  · exact r.listed_subset_naked hd
  · simp only [naked, domains, List.map_append, Set.mem_ofPred_eq, List.mem_append]
    exact .inr hd

end DomainResource

namespace DomainStores

/-- The other resources of the team. -/
def Others (stores : DomainStores) (r : DomainResource) (t : Nat) (b : DomainResource) : Prop :=
  (match b with
    | .application app => app ∈ stores.applications
    | .serviceApplication app => app ∈ stores.serviceApplications) ∧
  b.team = some t ∧ r.uuid ≠ b.uuid

/-- What the others hold of the domains in question, and the domain of the instance. -/
def taken (stores : DomainStores) (part : DomainResource → Set String) (r : DomainResource)
    (t : Nat) : Set String :=
  {d | (∃ b, stores.Others r t b ∧ d ∈ part b) ∨
    ∃ domain, stores.instanceDomain = some domain ∧ d = nakedDomain domain}

/-- The resource has a domain that is taken. -/
def Conflict (stores : DomainStores) (r : DomainResource) (t : Nat) : Prop :=
  Scan.Shares r.naked (stores.taken DomainResource.naked r t)

theorem taken_mono {stores : DomainStores} {part part' : DomainResource → Set String}
    {r : DomainResource} {t : Nat} (h : ∀ b, part b ⊆ part' b) :
    stores.taken part r t ⊆ stores.taken part' r t := by
  rintro d (⟨b, hb, hd⟩ | hd)
  · exact .inl ⟨b, hb, h b hd⟩
  · exact .inr hd

end DomainStores

/-! ## What the loops find -/

section

variable {numericEq : String → String → Bool}

/-- A domain that the checks take for one that they look for. -/
def Same (numericEq : String → String → Bool) (domain naked : String) : Prop :=
  looseEq numericEq naked domain = true

theorem same_refl (domain : String) : Same numericEq domain domain := by
  simp [Same, looseEq]

theorem containsDomain_iff {domains : List String} {naked : String} :
    containsDomain numericEq domains naked = true ↔
      ∃ domain ∈ domains, Same numericEq domain naked := by
  rw [containsDomain, List.any_eq_true]
  exact Iff.rfl

/-- Both loops over a list look for the domains of the list. -/
theorem exists_contains_iff {domains list : List String} :
    (∃ domain ∈ list, containsDomain numericEq domains (nakedDomain domain) = true) ↔
      Scan.Finds (Same numericEq) {d | d ∈ domains} {d | d ∈ list.map nakedDomain} := by
  simp only [containsDomain_iff]
  constructor
  · rintro ⟨domain, hdomain, d, hd, hsame⟩
    exact ⟨d, hd, _, List.mem_map_of_mem hdomain, hsame⟩
  · rintro ⟨d, hd, naked, hnaked, hsame⟩
    obtain ⟨domain, hdomain, rfl⟩ := List.mem_map.mp hnaked
    exact ⟨domain, hdomain, d, hd, hsame⟩

theorem apiConflicts_ne_nil {domains : List String} {value : String}
    {conflict : String → DomainConflict} : apiConflicts numericEq domains value conflict ≠ [] ↔
      Scan.Finds (Same numericEq) {d | d ∈ domains}
        {d | d ∈ (listOfDomains value).map nakedDomain} := by
  rw [← exists_contains_iff, apiConflicts, ne_eq, List.map_eq_nil_iff, List.filter_eq_nil_iff]
  simp

theorem usageConflicts_ne_nil {r : DomainResource} {domains : List String} {uuid : Uuid}
    {fqdn : Option String} {conflict : String → DomainConflict} :
    usageConflicts numericEq (some r) domains uuid fqdn conflict ≠ [] ↔ r.uuid ≠ uuid ∧
      Scan.Finds (Same numericEq) {d | d ∈ domains}
        {d | d ∈ (listOfDomains (fqdn.getD "")).map nakedDomain} := by
  rw [← exists_contains_iff, usageConflicts, ne_eq, List.flatMap_eq_nil_iff]
  by_cases huuid : r.uuid = uuid
  · simp [huuid]
  · simp [huuid]

/-- The conflicts of a resource with another one in `checkDomainUsage`. -/
def DomainResource.usageWith (numericEq : String → String → Bool) (r b : DomainResource) :
    List DomainConflict :=
  match b with
  | .application app =>
      usedByApplication numericEq (some r) (r.proposed.map nakedDomain) app
  | .serviceApplication app =>
      usedByService numericEq (some r) (r.proposed.map nakedDomain) app

/-- Those of its domains in `checkIfDomainIsAlreadyUsedViaAPI`. -/
def DomainResource.apiUsageWith (numericEq : String → String → Bool) (r b : DomainResource) :
    List DomainConflict :=
  match b with
  | .application app => usedByApplicationViaAPI numericEq (r.domains.map nakedDomain) app
  | .serviceApplication app => usedByServiceViaAPI numericEq (r.domains.map nakedDomain) app

variable {stores : DomainStores} {r b : DomainResource} {t : Nat}

theorem usageWith_ne_nil : r.usageWith numericEq b ≠ [] ↔
    r.uuid ≠ b.uuid ∧ Scan.Finds (Same numericEq) r.readByUsage b.listed := by
  cases b with
  | application app =>
      rw [DomainResource.usageWith, usedByApplication, usageConflicts_ne_nil]
      rfl
  | serviceApplication app =>
      rw [DomainResource.usageWith, usedByService, usageConflicts_ne_nil]
      rfl

theorem usedByComposeServiceViaAPI_ne_nil {domains : List String} {app : UsageApplication}
    {service : String × Option String} :
    usedByComposeServiceViaAPI numericEq domains app service ≠ [] ↔
      Scan.Finds (Same numericEq) {d | d ∈ domains}
        {d | d ∈ (DomainResource.serviceDomains service).map nakedDomain} := by
  rw [usedByComposeServiceViaAPI, DomainResource.serviceDomains]
  cases service.2.filter fun value => (Value.string value).truthy with
  | none => simp [Scan.Finds]
  | some value => exact apiConflicts_ne_nil

theorem finds_union {read s s' : Set String} : Scan.Finds (Same numericEq) read (s ∪ s') ↔
    Scan.Finds (Same numericEq) read s ∨ Scan.Finds (Same numericEq) read s' := by
  constructor
  · rintro ⟨a, ha, d, hd | hd, hsame⟩
    · exact .inl ⟨a, ha, d, hd, hsame⟩
    · exact .inr ⟨a, ha, d, hd, hsame⟩
  · rintro (⟨a, ha, d, hd, hsame⟩ | ⟨a, ha, d, hd, hsame⟩)
    · exact ⟨a, ha, d, .inl hd, hsame⟩
    · exact ⟨a, ha, d, .inr hd, hsame⟩

theorem flatMap_ne_nil {α β : Type} {l : List α} {f : α → List β} :
    l.flatMap f ≠ [] ↔ ∃ a ∈ l, f a ≠ [] := by
  rw [ne_eq, List.flatMap_eq_nil_iff]
  simp

theorem finds_flatMap {α : Type} {l : List α} {part : α → List String} {read : Set String} :
    Scan.Finds (Same numericEq) read {d | d ∈ (l.flatMap part).map nakedDomain} ↔
      ∃ a ∈ l, Scan.Finds (Same numericEq) read {d | d ∈ (part a).map nakedDomain} := by
  rw [List.map_flatMap]
  constructor
  · rintro ⟨x, hx, d, hd, hsame⟩
    obtain ⟨a, ha, hd⟩ := List.mem_flatMap.mp hd
    exact ⟨a, ha, x, hx, d, hd, hsame⟩
  · rintro ⟨a, ha, x, hx, d, hd, hsame⟩
    exact ⟨x, hx, d, List.mem_flatMap.mpr ⟨a, ha, hd⟩, hsame⟩

theorem usedByApplicationViaAPI_ne_nil {domains : List String} {app : UsageApplication} :
    usedByApplicationViaAPI numericEq domains app ≠ [] ↔
      Scan.Finds (Same numericEq) {d | d ∈ domains} (DomainResource.application app).served := by
  rw [DomainResource.served, finds_union, usedByApplicationViaAPI, ne_eq, List.append_eq_nil_iff,
    not_and_or]
  refine or_congr ?_ ?_
  · cases hfqdn : app.fqdn with
    | none =>
        simp [DomainResource.listed, DomainResource.fqdn, hfqdn, listOfDomains, explode, pieces,
          Scan.Finds]
    | some fqdn =>
        rw [DomainResource.listed, DomainResource.fqdn, hfqdn]
        exact apiConflicts_ne_nil
  · by_cases hpack : app.buildPack = .dockercompose
    · rw [if_pos hpack, ← ne_eq, flatMap_ne_nil]
      simp only [usedByComposeServiceViaAPI_ne_nil]
      have hcomposed : {d | (DomainResource.application app).isCompose = true ∧
          d ∈ (DomainResource.application app).composeDomains.map nakedDomain} =
          {d | d ∈
            (app.dockerComposeDomains.flatMap DomainResource.serviceDomains).map nakedDomain} := by
        ext d
        exact and_iff_right (decide_eq_true hpack)
      rw [hcomposed]
      exact finds_flatMap.symm
    · rw [if_neg hpack]
      refine iff_of_false (by simp) ?_
      rintro ⟨a, -, d, ⟨hcompose, -⟩, -⟩
      exact hpack (of_decide_eq_true hcompose)

theorem apiUsageWith_ne_nil : r.apiUsageWith numericEq b ≠ [] ↔
    Scan.Finds (Same numericEq) r.naked b.served := by
  cases b with
  | application app => exact usedByApplicationViaAPI_ne_nil
  | serviceApplication app =>
      rw [DomainResource.apiUsageWith, usedByServiceViaAPI, apiConflicts_ne_nil]
      have hserved : (DomainResource.serviceApplication app).served =
          (DomainResource.serviceApplication app).listed := by
        rw [DomainResource.served]
        exact Set.union_eq_left.mpr fun d hd => nomatch hd.1
      rw [hserved]
      rfl

theorem usedByInstance_ne_nil {domains : List String} {link : Option String} :
    usedByInstance numericEq link domains stores ≠ [] ↔
      Scan.Finds (Same numericEq) {d | d ∈ domains}
        {d | ∃ domain, stores.instanceDomain = some domain ∧ d = nakedDomain domain} := by
  rw [usedByInstance]
  cases hinstance : stores.instanceDomain with
  | none => simp [Scan.Finds]
  | some domain =>
      have hfinds : Scan.Finds (Same numericEq) {d | d ∈ domains}
          {d | ∃ domain', some domain = some domain' ∧ d = nakedDomain domain'} ↔
          containsDomain numericEq domains (nakedDomain domain) = true := by
        rw [containsDomain_iff]
        constructor
        · rintro ⟨a, ha, d, ⟨domain', hdomain, rfl⟩, hsame⟩
          obtain rfl := Option.some.inj hdomain
          exact ⟨a, ha, hsame⟩
        · rintro ⟨a, ha, hsame⟩
          exact ⟨a, ha, _, ⟨domain, rfl, rfl⟩, hsame⟩
      rw [hfinds]
      by_cases hcontains : containsDomain numericEq domains (nakedDomain domain) = true
      · simp [hcontains]
      · simp [hcontains]

/-! ## What the checks find -/

theorem finds_taken {part : DomainResource → Set String} {read : Set String} :
    Scan.Finds (Same numericEq) read (stores.taken part r t) ↔
      (∃ b, stores.Others r t b ∧ Scan.Finds (Same numericEq) read (part b)) ∨
        Scan.Finds (Same numericEq) read
          {d | ∃ domain, stores.instanceDomain = some domain ∧ d = nakedDomain domain} := by
  constructor
  · rintro ⟨a, ha, d, ⟨b, hb, hd⟩ | hd, hsame⟩
    · exact .inl ⟨b, hb, a, ha, d, hd, hsame⟩
    · exact .inr ⟨a, ha, d, hd, hsame⟩
  · rintro (⟨b, hb, a, ha, d, hd, hsame⟩ | ⟨a, ha, d, hd, hsame⟩)
    · exact ⟨a, ha, d, .inl ⟨b, hb, hd⟩, hsame⟩
    · exact ⟨a, ha, d, .inr hd, hsame⟩

theorem exists_others {P : DomainResource → Prop} : (∃ b, stores.Others r t b ∧ P b) ↔
    (∃ app ∈ stores.applications,
      app.team = some t ∧ r.uuid ≠ app.uuid ∧ P (.application app)) ∨
    ∃ app ∈ stores.serviceApplications,
      app.team = some t ∧ r.uuid ≠ app.uuid ∧ P (.serviceApplication app) := by
  constructor
  · rintro ⟨b, ⟨hmem, hteam, huuid⟩, hb⟩
    cases b with
    | application app => exact .inl ⟨app, hmem, hteam, huuid, hb⟩
    | serviceApplication app => exact .inr ⟨app, hmem, hteam, huuid, hb⟩
  · rintro (⟨app, hmem, hteam, huuid, hb⟩ | ⟨app, hmem, hteam, huuid, hb⟩)
    · exact ⟨.application app, ⟨hmem, hteam, huuid⟩, hb⟩
    · exact ⟨.serviceApplication app, ⟨hmem, hteam, huuid⟩, hb⟩

theorem of_hasConflicts {conflicts conflicts' conflicts'' : List DomainConflict} :
    (DomainUsage.of (conflicts ++ conflicts' ++ conflicts'')).hasConflicts = true ↔
      (conflicts ≠ [] ∨ conflicts' ≠ []) ∨ conflicts'' ≠ [] := by
  simp only [DomainUsage.of, decide_eq_true_eq, List.length_pos_iff, ne_eq, List.append_eq_nil_iff,
    not_and_or]

theorem usage_finds_iff (hteam : r.team = some t) :
    (checkDomainUsage numericEq stores (some r) none).hasConflicts = true ↔
      Scan.Finds (Same numericEq) r.readByUsage (stores.taken DomainResource.listed r t) := by
  have hother : ∀ b, r.usageWith numericEq b ≠ [] ↔
      r.uuid ≠ b.uuid ∧ Scan.Finds (Same numericEq) r.readByUsage b.listed :=
    fun b => usageWith_ne_nil
  simp only [checkDomainUsage, Option.bind_some, hteam, Option.all_some, beq_iff_eq,
    Option.isSome_some, if_true, of_hasConflicts, flatMap_ne_nil, List.mem_filter, and_assoc]
  rw [finds_taken, exists_others, usedByInstance_ne_nil]
  refine or_congr (or_congr ?_ ?_) Iff.rfl
  · refine exists_congr fun app => and_congr_right fun _ => and_congr_right fun _ => ?_
    exact hother (.application app)
  · refine exists_congr fun app => and_congr_right fun _ => and_congr_right fun _ => ?_
    exact hother (.serviceApplication app)

theorem api_finds_iff :
    (∃ usage, checkIfDomainIsAlreadyUsedViaAPI numericEq stores r.domains (some t) (some r.uuid) =
      .ok usage ∧ usage.hasConflicts = true) ↔
      Scan.Finds (Same numericEq) r.naked (stores.taken DomainResource.served r t) := by
  have hother : ∀ b, r.apiUsageWith numericEq b ≠ [] ↔
      Scan.Finds (Same numericEq) r.naked b.served := fun b => apiUsageWith_ne_nil
  simp only [checkIfDomainIsAlreadyUsedViaAPI, Except.ok.injEq, exists_eq_left', of_hasConflicts,
    flatMap_ne_nil, List.mem_filter, Option.all_some, Bool.and_eq_true, beq_iff_eq, ne_eq,
    decide_not, Bool.not_eq_true', decide_eq_false_iff_not, and_assoc]
  rw [finds_taken, exists_others, ← ne_eq (usedByInstance _ _ _ _), usedByInstance_ne_nil]
  refine or_congr (or_congr ?_ ?_) Iff.rfl
  · refine exists_congr fun app => and_congr_right fun _ => and_congr_right fun _ => ?_
    exact and_congr ne_comm (hother (.application app))
  · refine exists_congr fun app => and_congr_right fun _ => and_congr_right fun _ => ?_
    exact and_congr ne_comm (hother (.serviceApplication app))

/-! ## When they find the conflicts -/

/-- For the resource both checks report a conflict just if there is one. -/
structure ChecksFind (numericEq : String → String → Bool) (stores : DomainStores)
    (r : DomainResource) (t : Nat) : Prop where
  usage : (checkDomainUsage numericEq stores (some r) none).hasConflicts = true ↔
    stores.Conflict r t
  api : (∃ usage, checkIfDomainIsAlreadyUsedViaAPI numericEq stores r.domains (some t)
    (some r.uuid) = .ok usage ∧ usage.hasConflicts = true) ↔ stores.Conflict r t
  agree : (checkDomainUsage numericEq stores (some r) none).hasConflicts = true ↔
    ∃ usage, checkIfDomainIsAlreadyUsedViaAPI numericEq stores r.domains (some t)
      (some r.uuid) = .ok usage ∧ usage.hasConflicts = true

/-- For either of two resources both checks name the other one just if they share a
domain. -/
structure NameEachOther (numericEq : String → String → Bool) (a b : DomainResource) : Prop where
  usage : a.usageWith numericEq b ≠ [] ↔ Scan.Shares a.naked b.naked
  api : a.apiUsageWith numericEq b ≠ [] ↔ Scan.Shares a.naked b.naked
  usage_symm : a.usageWith numericEq b ≠ [] ↔ b.usageWith numericEq a ≠ []
  api_symm : a.apiUsageWith numericEq b ≠ [] ↔ b.apiUsageWith numericEq a ≠ []

/-- A shared domain is one that `checkDomainUsage` reads as it stands, of the resource
and on the `fqdn` list of another one or as the domain of the instance; or what it
misses makes no difference. -/
def UsageReliable (numericEq : String → String → Bool) (stores : DomainStores)
    (r : DomainResource) (t : Nat) : Prop :=
  Scan.Reliable (Same numericEq) r.naked r.readByUsage (stores.taken DomainResource.naked r t)
    (stores.taken DomainResource.listed r t)

/-- For `checkIfDomainIsAlreadyUsedViaAPI`, which also reads the services of compose
applications. -/
def ApiReliable (numericEq : String → String → Bool) (stores : DomainStores)
    (r : DomainResource) (t : Nat) : Prop :=
  Scan.Reliable (Same numericEq) r.naked r.naked (stores.taken DomainResource.naked r t)
    (stores.taken DomainResource.served r t)

/-- The same of two resources. -/
def PairReliable (numericEq : String → String → Bool) (a b : DomainResource) : Prop :=
  Scan.Reliable (Same numericEq) a.naked a.readByUsage b.naked b.listed ∧
    Scan.Reliable (Same numericEq) a.naked a.naked b.naked b.served

theorem checksFind_iff (hteam : r.team = some t) : ChecksFind numericEq stores r t ↔
    UsageReliable numericEq stores r t ∧ ApiReliable numericEq stores r t := by
  have husage : UsageReliable numericEq stores r t ↔
      ((checkDomainUsage numericEq stores (some r) none).hasConflicts = true ↔
        stores.Conflict r t) := by
    rw [usage_finds_iff hteam]
    exact (Scan.finds_iff_shares_iff same_refl
      (DomainStores.taken_mono DomainResource.listed_subset_naked)).symm
  have hapi : ApiReliable numericEq stores r t ↔
      ((∃ usage, checkIfDomainIsAlreadyUsedViaAPI numericEq stores r.domains (some t)
        (some r.uuid) = .ok usage ∧ usage.hasConflicts = true) ↔ stores.Conflict r t) := by
    rw [api_finds_iff]
    exact (Scan.finds_iff_shares_iff same_refl
      (DomainStores.taken_mono DomainResource.served_subset_naked)).symm
  rw [husage, hapi]
  exact ⟨fun h => ⟨h.usage, h.api⟩, fun ⟨hu, ha⟩ => ⟨hu, ha, hu.trans ha.symm⟩⟩

theorem pairReliable_iff {a : DomainResource} (huuid : a.uuid ≠ b.uuid) :
    PairReliable numericEq a b ↔ (a.usageWith numericEq b ≠ [] ↔ Scan.Shares a.naked b.naked) ∧
      (a.apiUsageWith numericEq b ≠ [] ↔ Scan.Shares a.naked b.naked) := by
  rw [usageWith_ne_nil, and_iff_right huuid, apiUsageWith_ne_nil]
  exact and_congr
    (Scan.finds_iff_shares_iff same_refl (DomainResource.listed_subset_naked b)).symm
    (Scan.finds_iff_shares_iff same_refl (DomainResource.served_subset_naked b)).symm

theorem nameEachOther_iff {a : DomainResource} (huuid : a.uuid ≠ b.uuid) :
    NameEachOther numericEq a b ↔ PairReliable numericEq a b ∧ PairReliable numericEq b a := by
  have hcomm : Scan.Shares b.naked a.naked ↔ Scan.Shares a.naked b.naked := Scan.shares_comm
  rw [pairReliable_iff huuid, pairReliable_iff huuid.symm, hcomm]
  constructor
  · intro h
    exact ⟨⟨h.usage, h.api⟩, h.usage_symm.symm.trans h.usage, h.api_symm.symm.trans h.api⟩
  · rintro ⟨⟨husage, hapi⟩, husage', hapi'⟩
    exact ⟨husage, hapi, husage.trans husage'.symm, hapi.trans hapi'.symm⟩

end

/-- The checks find the conflicts of a resource, and each other's of two, just if what
they do not read makes no difference. -/
theorem domain_conflicts_found_iff (numericEq : String → String → Bool) (stores : DomainStores)
    (r : DomainResource) (t : Nat) (hteam : r.team = some t) :
    (ChecksFind numericEq stores r t ∧ ∀ b, stores.Others r t b → NameEachOther numericEq r b) ↔
      (UsageReliable numericEq stores r t ∧ ApiReliable numericEq stores r t) ∧
        ∀ b, stores.Others r t b → PairReliable numericEq r b ∧ PairReliable numericEq b r := by
  refine and_congr (checksFind_iff hteam) ?_
  refine forall_congr' fun b => forall_congr' fun hb => ?_
  exact nameEachOther_iff hb.2.2

/-- An application and a service that share a domain on their `fqdn` lists. -/
theorem shared_list_domain_found :
    let app : UsageApplication :=
      ⟨⟨"app", rfl⟩, some 1, "app", none, .nixpacks, some "https://a.example.com/", []⟩
    let service : UsageServiceApplication :=
      ⟨⟨"service", rfl⟩, some 1, "service", none,
        some "https://b.example.com,https://a.example.com"⟩
    let stores : DomainStores := ⟨[app], [service], none⟩
    let r := DomainResource.application app
    let numericEq := fun _ _ : String => false
    stores.Conflict r 1 ∧ ChecksFind numericEq stores r 1 ∧
      NameEachOther numericEq r (.serviceApplication service) := by
  intro app service stores r numericEq
  have hothers : stores.Others r 1 (.serviceApplication service) :=
    ⟨List.mem_singleton_self service, rfl, by decide⟩
  have hown : "https://a.example.com" ∈ r.naked := by
    show _ ∈ r.domains.map nakedDomain
    decide +kernel
  have hread : "https://a.example.com" ∈ r.readByUsage := by
    show _ ∈ r.proposed.map nakedDomain
    decide +kernel
  have hlisted : "https://a.example.com" ∈ r.listed := by
    show _ ∈ (listOfDomains (r.fqdn.getD "")).map nakedDomain
    decide +kernel
  have hother : "https://a.example.com" ∈ (DomainResource.serviceApplication service).listed := by
    show _ ∈ (listOfDomains (service.fqdn.getD "")).map nakedDomain
    decide +kernel
  have hother' : "https://a.example.com" ∈
      (DomainResource.serviceApplication service).readByUsage := by
    show _ ∈ (fqdns service.fqdn).map nakedDomain
    decide +kernel
  have hnaked := DomainResource.listed_subset_naked _ hother
  have hfound := (domain_conflicts_found_iff numericEq stores r 1 rfl).mpr
    ⟨⟨.inl ⟨_, ⟨hown, hread⟩, .inl ⟨_, hothers, hother⟩⟩,
      .inl ⟨_, ⟨hown, hown⟩, .inl ⟨_, hothers, .inl hother⟩⟩⟩, by
      rintro b ⟨hmem, -, huuid⟩
      cases b with
      | application app' =>
          obtain rfl := List.mem_singleton.mp hmem
          exact absurd rfl huuid
      | serviceApplication service' =>
          obtain rfl := List.mem_singleton.mp hmem
          exact ⟨⟨.inl ⟨_, ⟨hown, hread⟩, hother⟩, .inl ⟨_, ⟨hown, hown⟩, .inl hother⟩⟩,
            .inl ⟨_, ⟨hnaked, hother'⟩, hlisted⟩, .inl ⟨_, ⟨hnaked, hnaked⟩, .inl hlisted⟩⟩⟩
  exact ⟨⟨_, hown, .inl ⟨_, hothers, hnaked⟩⟩, hfound.1, hfound.2 _ hothers⟩

/-- A domain that a service of another compose application has: the one check reports
it, the other does not. -/
theorem compose_domain_missed : ¬ ∀ (numericEq : String → String → Bool) (stores : DomainStores)
    (r : DomainResource) (t : Nat), r.team = some t → ChecksFind numericEq stores r t := by
  intro h
  let app : UsageApplication :=
    ⟨⟨"app", rfl⟩, some 1, "app", none, .nixpacks, some "https://a.example.com", []⟩
  let compose : UsageApplication :=
    ⟨⟨"compose", rfl⟩, some 1, "compose", none, .dockercompose, none,
      [("web", some "https://a.example.com")]⟩
  let stores : DomainStores := ⟨[app, compose], [], none⟩
  let r := DomainResource.application app
  have hagree := (h (fun _ _ => false) stores r 1 rfl).agree
  have husage :
      (checkDomainUsage (fun _ _ => false) stores (some r) none).hasConflicts = false := by
    decide +kernel
  have hapi : ((checkIfDomainIsAlreadyUsedViaAPI (fun _ _ => false) stores r.domains (some 1)
      (some r.uuid)).toOption.any (·.hasConflicts)) = true := by
    decide +kernel
  rw [husage] at hagree
  refine absurd (hagree.mpr ?_) Bool.false_ne_true
  obtain ⟨usage, husage, hconflicts⟩ := (Option.any_eq_true ..).mp hapi
  exact ⟨usage, Conc.eq_ok_of_toOption husage, hconflicts⟩

end OnePloy
