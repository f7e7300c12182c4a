import OnePloy.Lib.OrderedMap
import OnePloy.Lib.PhpText

/-!
# Domains of compose services

The domains of an application with a compose file are kept in a map by service.
Its keys were once normalised names, in which hyphens and dots are underscores,
and are exact names now. Reading goes by the normal form and does not know the
services there are; writing and rekeying resolve a key to a service first, and
leave a key alone that could be any of several.
-/

namespace OnePloy

open Php

/-! ## Names -/

def normalizeComposeServiceName (serviceName : String) : String :=
  let hyphens := serviceName.toList.map fun c => if c = '-' then '_' else c
  String.ofList (hyphens.map fun c => if c = '.' then '_' else c)

def findComposeServiceName (candidate : String) (serviceNames : List String) : Option String :=
  if candidate ∈ serviceNames then some candidate
  else
    let normalized := normalizeComposeServiceName candidate
    match serviceNames.filter fun name => normalizeComposeServiceName name = normalized with
    | [name] => some name
    | _ => none

/-! ## Entries -/

/-- What is stored for a service: a text or null, or an object. -/
inductive DomainEntry
  | bare (domain : Option String)
  | object (fields : OrderedMap String Value)

abbrev ComposeDomains := OrderedMap String DomainEntry

/-- `composeDomainEntryString`. -/
def DomainEntry.domain : DomainEntry → Option String
  | .bare domain => domain
  | .object fields => (fields.get? "domain").bind Value.asString

/-- `filled`. -/
def isFilledValue : Value → Bool
  | .null => false
  | .string s => filled (some s)
  | .list items => !items.isEmpty
  | .map fields => !fields.isEmpty
  | _ => true

/-! ## getComposeServiceDomainString -/

/-- The requested one of the matches, or else the first. -/
def requestedOrFirst (serviceName : String) (matched : List (String × Option String)) :
    Option String :=
  match matched.find? fun m => m.1 = serviceName with
  | some m => m.2
  | none => matched.head?.bind Prod.snd

def getComposeServiceDomainString (domains : ComposeDomains) (serviceName : String) :
    Option String :=
  let normalized := normalizeComposeServiceName serviceName
  let matched := (domains.entries.filter fun e =>
    e.1 = serviceName || e.1 = normalized || normalizeComposeServiceName e.1 = normalized).map
      fun e => (e.1, e.2.domain)
  let filledOnes := matched.filter fun m => filled m.2
  if filledOnes ≠ [] then requestedOrFirst serviceName filledOnes
  else requestedOrFirst serviceName matched

/-! ## putComposeServiceDomain -/

def DomainEntry.asArray : DomainEntry → Option (OrderedMap String Value)
  | .bare _ => none
  | .object fields => some fields

/-- What is written, on top of the fields of an entry that it takes the place of. -/
def mergeReplaced (merged : OrderedMap String Value) (e : String × DomainEntry) :
    OrderedMap String Value :=
  match e.2.asArray with
  | some existing => existing.merge merged
  | none => merged

def mergedFields (domainString : Option String) (replaced : List (String × DomainEntry)) :
    OrderedMap String Value :=
  replaced.foldl mergeReplaced
    (OrderedMap.empty.set "domain" (domainString.elim .null .string))

def putComposeServiceDomain (domains : ComposeDomains) (serviceName : String)
    (domainString : Option String) (serviceNames : List String) : ComposeDomains :=
  let storageKey := (findComposeServiceName serviceName serviceNames).getD serviceName
  let isTwin := fun key : String =>
    key = storageKey || findComposeServiceName key serviceNames = some storageKey
  let merged := mergedFields domainString (domains.entries.filter (isTwin ·.1))
  (domains.filter fun key _ => key = storageKey || !isTwin key).set storageKey (.object merged)

/-! ## rekeyComposeDomainsToServiceNames -/

def preferComposeDomainValue (existingDomain : Value) (existingIsCanonical : Bool)
    (incomingDomain : Value) (incomingIsCanonical : Bool) : Value :=
  if isFilledValue existingDomain && !isFilledValue incomingDomain then existingDomain
  else if isFilledValue incomingDomain && !isFilledValue existingDomain then incomingDomain
  else if isFilledValue existingDomain && isFilledValue incomingDomain then
    if incomingIsCanonical && !existingIsCanonical then incomingDomain else existingDomain
  else if incomingIsCanonical then incomingDomain
  else existingDomain

/-- The entry as an array. -/
def DomainEntry.toFields : DomainEntry → OrderedMap String Value
  | .bare domain => OrderedMap.empty.set "domain" (domain.elim .null .string)
  | .object fields => fields

/-- A rekeyed entry, and whether one of its sources had the service's own key. -/
abbrev RekeyedEntry := OrderedMap String Value × Bool

/-- One turn of the loop, for the key that the entry gets. -/
def mergeEntry (existing : Option RekeyedEntry) (value : OrderedMap String Value)
    (isCanonical : Bool) : RekeyedEntry :=
  match existing with
  | none => (value, isCanonical)
  | some (fields, existingIsCanonical) =>
      let existingDomain := (fields.get? "domain").getD .null
      let incomingDomain := (value.get? "domain").getD .null
      ((fields.merge value).set "domain"
          (preferComposeDomainValue existingDomain existingIsCanonical incomingDomain isCanonical),
        existingIsCanonical || isCanonical)

def rekeyedName (serviceNames : List String) (key : String) : String :=
  (findComposeServiceName key serviceNames).getD key

def rekeyTurn (serviceNames : List String) (rekeyed : OrderedMap String RekeyedEntry)
    (e : String × DomainEntry) : OrderedMap String RekeyedEntry :=
  let original := rekeyedName serviceNames e.1
  rekeyed.set original (mergeEntry (rekeyed.get? original) e.2.toFields (e.1 = original))

def rekeyComposeDomainsToServiceNames (domains : ComposeDomains) (serviceNames : List String) :
    ComposeDomains :=
  (domains.entries.foldl (rekeyTurn serviceNames) .empty).mapValues fun r => .object r.1

/-! ## Normal forms -/

theorem normalizeComposeServiceName_idem (name : String) :
    normalizeComposeServiceName (normalizeComposeServiceName name) =
      normalizeComposeServiceName name := by
  simp only [normalizeComposeServiceName, String.toList_ofList, List.map_map]
  refine congrArg String.ofList (List.map_congr_left fun c _ => ?_)
  simp only [Function.comp_apply]
  split_ifs <;> simp_all

theorem findComposeServiceName_of_mem {name : String} {names : List String} (h : name ∈ names) :
    findComposeServiceName name names = some name := if_pos h

/-- A key that resolves to a service has its normal form. -/
theorem normalize_of_find {key name : String} {names : List String}
    (h : findComposeServiceName key names = some name) :
    name ∈ names ∧ normalizeComposeServiceName name = normalizeComposeServiceName key := by
  unfold findComposeServiceName at h
  split at h
  · next hmem =>
      obtain rfl := Option.some.inj h
      exact ⟨hmem, rfl⟩
  · dsimp only at h
    split at h
    · next hfilter =>
        obtain rfl := Option.some.inj h
        have hmem := hfilter ▸ List.mem_singleton_self _
        simpa using List.mem_filter.mp hmem
    · cases h

/-- Where no other service has the normal form, every key with it resolves to
the service. -/
theorem find_of_alone {key name : String} {names : List String} (hnodup : names.Nodup)
    (hname : name ∈ names)
    (halone : ∀ t ∈ names,
      normalizeComposeServiceName t = normalizeComposeServiceName name → t = name)
    (hkey : normalizeComposeServiceName key = normalizeComposeServiceName name) :
    findComposeServiceName key names = some name := by
  by_cases hmem : key ∈ names
  · rw [halone key hmem hkey]
    exact findComposeServiceName_of_mem hname
  · have hfilter : (names.filter fun t => normalizeComposeServiceName t =
        normalizeComposeServiceName key) = [name] := by
      have hpred : (names.filter fun t => normalizeComposeServiceName t =
          normalizeComposeServiceName key) = names.filter (· == name) := by
        refine List.filter_congr fun t ht => ?_
        rw [hkey, Bool.eq_iff_iff, decide_eq_true_iff, beq_iff_eq]
        exact ⟨halone t ht, fun h => by rw [h]⟩
      rw [hpred, List.filter_beq, List.count_eq_one_of_mem hnodup hname]
      rfl
    rw [findComposeServiceName, if_neg hmem]
    simp only [hfilter]

/-- Where another service has it too, a key resolves to the service only if it
is its name. -/
theorem find_of_clash {key name other : String} {names : List String} (hname : name ∈ names)
    (hother : other ∈ names) (hne : other ≠ name)
    (hclash : normalizeComposeServiceName other = normalizeComposeServiceName name) :
    findComposeServiceName key names = some name ↔ key = name := by
  constructor
  · intro h
    have hnorm := (normalize_of_find h).2
    unfold findComposeServiceName at h
    split at h
    · exact Option.some.inj h
    · dsimp only at h
      split at h
      · next hfilter =>
          -- both services match, so that there is more than one match
          have hmem : ∀ t ∈ names, normalizeComposeServiceName t =
              normalizeComposeServiceName key → t = name := by
            intro t ht hkey
            have hin : t ∈ names.filter fun t => normalizeComposeServiceName t =
                normalizeComposeServiceName key :=
              List.mem_filter.mpr ⟨ht, decide_eq_true hkey⟩
            rw [hfilter, List.mem_singleton] at hin
            rw [hin]
            exact Option.some.inj h
          exact absurd (hmem other hother (hclash.trans hnorm)) hne
      · cases h
  · rintro rfl
    exact findComposeServiceName_of_mem hname

/-! ## What is read -/

/-- The entries that are read for a name, by key. -/
def twins (domains : ComposeDomains) (name : String) : List (String × Option String) :=
  (domains.entries.filter fun e =>
    normalizeComposeServiceName e.1 = normalizeComposeServiceName name).map
      fun e => (e.1, e.2.domain)

section Reading

variable (l : List (String × Option String)) (s : String)

/-- What stands under the name itself. -/
def ownDomain : Option (Option String) := (l.find? fun e => e.1 = s).map Prod.snd

def firstFilled : Option String := l.findSome? fun e => if filled e.2 then e.2 else none

/-- The entries before the one of the name, or all of them if it has none. -/
def placeBefore : List (String × Option String) := l.takeWhile fun e => e.1 ≠ s

def placeAfter : List (String × Option String) := (l.dropWhile fun e => e.1 ≠ s).tail

/-- What is read where nothing is filled. -/
def blankDomain : Option String := (ownDomain l s).getD (l.head?.bind Prod.snd)

/-- The own domain if it is filled, or else the first that is. -/
def domainRead : Option String :=
  if filled (ownDomain l s).join then (ownDomain l s).join
  else (firstFilled l).or (blankDomain l s)

end Reading

section Reading

variable {l : List (String × Option String)} {s : String}

theorem firstFilled_eq_none_iff : firstFilled l = none ↔ ∀ e ∈ l, filled e.2 = false := by
  rw [firstFilled, List.findSome?_eq_none_iff]
  refine forall₂_congr fun e _ => ?_
  cases hd : e.2 with
  | none => exact iff_of_true (by simp) rfl
  | some d => cases hfilled : filled (some d) <;> simp

theorem filled_of_firstFilled {d : String} (h : firstFilled l = some d) :
    filled (some d) = true := by
  obtain ⟨e, -, he⟩ := List.exists_of_findSome?_eq_some h
  split at he
  · next hfilled => rwa [he] at hfilled
  · cases he

/-- The filled ones, with the first of them. -/
theorem head_filter_filled :
    ((l.filter fun e => filled e.2).head?.bind Prod.snd) = firstFilled l := by
  induction l with
  | nil => rfl
  | cons e l ih =>
      rw [firstFilled, List.findSome?_cons, List.filter_cons, ← firstFilled]
      cases hfilled : filled e.2 with
      | true =>
          obtain ⟨d, hd⟩ : ∃ d, e.2 = some d := by
            cases hd : e.2 with
            | none => rw [hd] at hfilled; cases hfilled
            | some d => exact ⟨d, rfl⟩
          simp [hd]
      | false => simpa using ih

/-- No key occurs twice, so that nothing else has the key. -/
theorem find_filter_key (hnodup : (l.map Prod.fst).Nodup) (p : String × Option String → Bool) :
    (l.filter p).find? (fun e => e.1 = s) = (l.find? fun e => e.1 = s).filter p := by
  induction l with
  | nil => rfl
  | cons e l ih =>
      rw [List.map_cons, List.nodup_cons] at hnodup
      have ih' := ih hnodup.2
      by_cases he : e.1 = s
      · have hnone : (l.find? fun e => e.1 = s) = none := by
          rw [List.find?_eq_none]
          intro f hf hkey
          have hfs : f.1 = s := by simpa using hkey
          exact hnodup.1 (he ▸ hfs ▸ List.mem_map_of_mem hf)
        rw [hnone] at ih'
        cases hp : p e with
        | true => simp [he, hp, Option.filter]
        | false =>
            rw [List.filter_cons_of_neg (by simp [hp]), ih']
            simp [he, hp, Option.filter]
      · cases hp : p e with
        | true => simpa [he, hp] using ih'
        | false => simpa [he, hp] using ih'

theorem requestedOrFirst_eq :
    requestedOrFirst s l = (ownDomain l s).getD (l.head?.bind Prod.snd) := by
  rw [requestedOrFirst, ownDomain]
  cases l.find? fun e => e.1 = s <;> rfl

/-- The getter on the entries that it reads. -/
theorem requestedOrFirst_filled (hnodup : (l.map Prod.fst).Nodup) :
    (if (l.filter fun e => filled e.2) ≠ [] then
        requestedOrFirst s (l.filter fun e => filled e.2)
      else requestedOrFirst s l) = domainRead l s := by
  have hown : ownDomain (l.filter fun e => filled e.2) s =
      if filled (ownDomain l s).join then ownDomain l s else none := by
    rw [ownDomain, ownDomain, find_filter_key hnodup]
    cases hfind : l.find? fun e => e.1 = s with
    | none => rfl
    | some e => cases hfilled : filled e.2 <;> simp [Option.filter, hfilled]
  rw [requestedOrFirst_eq, requestedOrFirst_eq, domainRead, head_filter_filled, hown]
  cases hfirst : firstFilled l with
  | none =>
      have hblank := firstFilled_eq_none_iff.mp hfirst
      have hnil : (l.filter fun e => filled e.2) = [] := by
        rw [List.filter_eq_nil_iff]
        exact fun e he => by simp [hblank e he]
      have hownBlank : filled (ownDomain l s).join = false := by
        rw [ownDomain]
        cases hfind : l.find? fun e => e.1 = s with
        | none => rfl
        | some e => exact hblank e (List.mem_of_find?_eq_some hfind)
      rw [if_neg (not_not_intro hnil), hownBlank]
      rfl
  | some d =>
      have hne : (l.filter fun e => filled e.2) ≠ [] := by
        intro hnil
        have hhead : firstFilled l = none := by rw [← head_filter_filled, hnil]; rfl
        rw [hhead] at hfirst
        cases hfirst
      rw [if_pos hne]
      split
      · next hfilled =>
          cases hfind : ownDomain l s with
          | none =>
              rw [hfind] at hfilled
              cases hfilled
          | some v => rfl
      · rfl

end Reading

theorem getComposeServiceDomainString_eq (domains : ComposeDomains) (name : String) :
    getComposeServiceDomainString domains name = domainRead (twins domains name) name := by
  have hfilter : (domains.entries.filter fun e => e.1 = name ||
      e.1 = normalizeComposeServiceName name ||
      normalizeComposeServiceName e.1 = normalizeComposeServiceName name) =
      domains.entries.filter fun e =>
        normalizeComposeServiceName e.1 = normalizeComposeServiceName name := by
    refine List.filter_congr fun e _ => ?_
    rw [Bool.eq_iff_iff, Bool.or_eq_true, Bool.or_eq_true, decide_eq_true_iff, decide_eq_true_iff,
      decide_eq_true_iff]
    refine ⟨?_, .inr⟩
    rintro ((h | h) | h)
    · rw [h]
    · rw [h, normalizeComposeServiceName_idem]
    · exact h
  have hnodup : ((twins domains name).map Prod.fst).Nodup := by
    rw [twins, List.map_map]
    exact (domains.nodup.sublist (List.filter_sublist.map _))
  rw [getComposeServiceDomainString]
  simp only [hfilter]
  exact requestedOrFirst_filled hnodup

/-! ## What is written -/

theorem twins_nodup (domains : ComposeDomains) (name : String) :
    ((twins domains name).map Prod.fst).Nodup := by
  rw [twins, List.map_map]
  exact domains.nodup.sublist (List.filter_sublist.map _)

theorem twins_set (domains : ComposeDomains) (key name : String) (entry : DomainEntry) :
    twins (domains.set key entry) name =
      if normalizeComposeServiceName key = normalizeComposeServiceName name then
        OrderedMap.setEntries key entry.domain (twins domains name)
      else twins domains name := by
  rw [twins, OrderedMap.set, OrderedMap.filter_setEntries fun k =>
    normalizeComposeServiceName k = normalizeComposeServiceName name]
  by_cases hkey : normalizeComposeServiceName key = normalizeComposeServiceName name
  · rw [if_pos (decide_eq_true hkey), if_pos hkey, OrderedMap.map_setEntries, twins]
  · rw [if_neg (by simpa using hkey), if_neg hkey, twins]

theorem twins_filter (domains : ComposeDomains) (p : String → Bool) (name : String) :
    twins (domains.filter fun key _ => p key) name =
      (twins domains name).filter fun e => p e.1 := by
  rw [twins, twins, OrderedMap.filter, List.filter_map, List.filter_filter, List.filter_filter]
  refine congrArg _ (List.filter_congr fun e _ => ?_)
  exact Bool.and_comm ..

/-- The loop does not touch the domain. -/
theorem mergedFields_domain (domainString : Option String)
    (replaced : List (String × DomainEntry)) :
    (DomainEntry.object (mergedFields domainString replaced)).domain = domainString := by
  have hloop : ∀ (merged : OrderedMap String Value) (v : Value),
      merged.get? "domain" = some v →
        (replaced.foldl mergeReplaced merged).get? "domain" = some v := by
    induction replaced with
    | nil => exact fun _ _ h => h
    | cons e l ih =>
        intro merged v hv
        refine ih _ v ?_
        rw [mergeReplaced]
        cases e.2.asArray with
        | none => exact hv
        | some existing => simp [OrderedMap.get?_merge, hv]
  rw [DomainEntry.domain, mergedFields, hloop _ _ (OrderedMap.get?_set_self ..)]
  cases domainString <;> rfl

/-- For a listed service, its own entry is written and the keys that resolve to
it are dropped. -/
theorem putComposeServiceDomain_eq (domains : ComposeDomains) {name : String}
    (domainString : Option String) {names : List String} (hname : name ∈ names) :
    ∃ entry : DomainEntry, entry.domain = domainString ∧
      putComposeServiceDomain domains name domainString names =
        (domains.filter fun key _ =>
          key = name || !(key = name || findComposeServiceName key names = some name)).set name
            entry := by
  have hkey : (findComposeServiceName name names).getD name = name := by
    rw [findComposeServiceName_of_mem hname]
    rfl
  unfold putComposeServiceDomain
  simp only [hkey]
  exact ⟨_, mergedFields_domain domainString _, rfl⟩

section Put

variable (domains : ComposeDomains) {name : String} (domain : String) {names : List String}

/-- A service with another normal form has other entries. -/
theorem twins_put_ne (hname : name ∈ names) {other : String}
    (hne : normalizeComposeServiceName name ≠ normalizeComposeServiceName other) :
    twins (putComposeServiceDomain domains name (some domain) names) other =
      twins domains other := by
  obtain ⟨entry, -, hput⟩ := putComposeServiceDomain_eq domains (some domain) hname
  rw [hput, twins_set, if_neg hne, twins_filter, List.filter_eq_self]
  intro e he
  obtain ⟨f, hf, rfl⟩ := List.mem_map.mp he
  have hkey : normalizeComposeServiceName f.1 = normalizeComposeServiceName other := by
    simpa using (List.mem_filter.mp hf).2
  have hfind : findComposeServiceName f.1 names ≠ some name := fun h =>
    hne ((normalize_of_find h).2.trans hkey)
  have hself : f.1 ≠ name := by
    rintro h
    exact hne (h ▸ hkey)
  simp [hfind, hself]

theorem get_put_ne (hname : name ∈ names) {other : String}
    (hne : normalizeComposeServiceName name ≠ normalizeComposeServiceName other) :
    getComposeServiceDomainString (putComposeServiceDomain domains name (some domain) names)
        other =
      getComposeServiceDomainString domains other := by
  rw [getComposeServiceDomainString_eq, getComposeServiceDomainString_eq,
    twins_put_ne domains domain hname hne]

/-- Where no other service has the normal form, one entry is left with it. -/
theorem twins_put_alone (hnodup : names.Nodup) (hname : name ∈ names)
    (halone : ∀ t ∈ names,
      normalizeComposeServiceName t = normalizeComposeServiceName name → t = name) :
    twins (putComposeServiceDomain domains name (some domain) names) name =
      [(name, some domain)] := by
  obtain ⟨entry, hentry, hput⟩ := putComposeServiceDomain_eq domains (some domain) hname
  rw [hput, twins_set, if_pos rfl, twins_filter, hentry]
  have honly : ∀ e ∈ (twins domains name).filter fun e =>
      e.1 = name || !(e.1 = name || findComposeServiceName e.1 names = some name), e.1 = name := by
    intro e he
    obtain ⟨htwin, hkept⟩ := List.mem_filter.mp he
    obtain ⟨f, hf, rfl⟩ := List.mem_map.mp htwin
    have hfind := find_of_alone hnodup hname halone (by simpa using (List.mem_filter.mp hf).2)
    simpa [hfind] using hkept
  have hnodup' : (((twins domains name).filter fun e => e.1 = name ||
      !(e.1 = name || findComposeServiceName e.1 names = some name)).map Prod.fst).Nodup :=
    (twins_nodup domains name).sublist (List.filter_sublist.map _)
  exact OrderedMap.setEntries_eq_singleton hnodup' honly

/-- Where another service has it too, nothing else is dropped. -/
theorem twins_put_clash (hname : name ∈ names) {other : String} (hother : other ∈ names)
    (hne : other ≠ name)
    (hclash : normalizeComposeServiceName other = normalizeComposeServiceName name) :
    twins (putComposeServiceDomain domains name (some domain) names) name =
      OrderedMap.setEntries name (some domain) (twins domains name) := by
  obtain ⟨entry, hentry, hput⟩ := putComposeServiceDomain_eq domains (some domain) hname
  rw [hput, twins_set, if_pos rfl, twins_filter, hentry, List.filter_eq_self.mpr]
  intro e _
  have hfind : decide (findComposeServiceName e.1 names = some name) = decide (e.1 = name) := by
    rw [decide_eq_decide]
    exact find_of_clash hname hother hne hclash
  rw [hfind, Bool.or_self]
  cases decide (e.1 = name) <;> rfl

end Put

/-! ## A clash of normal forms -/

section Clash

variable (l : List (String × Option String)) (s d t : String)

/-- What is read for `t` is the same with the domain `d` under `s`: it is read
in front of it, or `d` is there already, or neither `d` nor what is there is
filled and it is not what is read, or one is and the next that is filled is the
same. -/
def SameForTwin : Prop :=
  filled (ownDomain l t).join = true ∨
  (∃ e ∈ placeBefore l s, filled e.2 = true) ∨
  ownDomain l s = some (some d) ∨
  (filled (some d) = false ∧ filled (ownDomain l s).join = false ∧
    ((∃ e ∈ placeAfter l s, filled e.2 = true) ∨ (ownDomain l t).isSome = true ∨
      placeBefore l s ≠ [])) ∨
  (filled (some d) = true ∧ filled (ownDomain l s).join = false ∧
    firstFilled (placeAfter l s) = some d) ∨
  (filled (some d) = false ∧ filled (ownDomain l s).join = true ∧
    firstFilled (placeAfter l s) = (ownDomain l s).join)

end Clash

section Clash

variable {l : List (String × Option String)} {s d t : String}

/-- The list is what stands before the place, what stands there, and the rest. -/
theorem place_cases (l : List (String × Option String)) (s : String) :
    (ownDomain l s = none ∧ placeAfter l s = [] ∧ l = placeBefore l s) ∨
    ∃ v, ownDomain l s = some v ∧ l = placeBefore l s ++ (s, v) :: placeAfter l s := by
  induction l with
  | nil => exact .inl ⟨rfl, rfl, rfl⟩
  | cons e l ih =>
      by_cases he : e.1 = s
      · exact .inr ⟨e.2, by simp [ownDomain, he], by simp [placeBefore, placeAfter, ← he]⟩
      · have hown : ownDomain (e :: l) s = ownDomain l s := by simp [ownDomain, he]
        have hbefore : placeBefore (e :: l) s = e :: placeBefore l s := by simp [placeBefore, he]
        have hafter : placeAfter (e :: l) s = placeAfter l s := by simp [placeAfter, he]
        rw [hown, hbefore, hafter]
        rcases ih with ⟨hnone, hnil, hl⟩ | ⟨v, hv, hl⟩
        · exact .inl ⟨hnone, hnil, by rw [← hl]⟩
        · exact .inr ⟨v, hv, by rw [List.cons_append, ← hl]⟩

theorem setEntries_place :
    OrderedMap.setEntries s (some d) l = placeBefore l s ++ (s, some d) :: placeAfter l s :=
  OrderedMap.setEntries_eq ..

theorem firstFilled_append (b a : List (String × Option String)) :
    firstFilled (b ++ a) = (firstFilled b).or (firstFilled a) :=
  List.findSome?_append

theorem firstFilled_place {b a : List (String × Option String)} {v : Option String} :
    firstFilled (b ++ (s, v) :: a) =
      (firstFilled b).or (if filled v then v else firstFilled a) := by
  rw [firstFilled, List.findSome?_append, List.findSome?_cons]
  cases hv : filled v with
  | true =>
      obtain ⟨w, rfl⟩ : ∃ w, v = some w := by
        cases v with
        | none => cases hv
        | some w => exact ⟨w, rfl⟩
      simp [firstFilled]
  | false => simp [firstFilled]

theorem ownDomain_place_ne {b a : List (String × Option String)} {v : Option String}
    (h : t ≠ s) : ownDomain (b ++ (s, v) :: a) t = ownDomain (b ++ a) t := by
  simp [ownDomain, List.find?_append, Ne.symm h]

/-- What is read for `t` where nothing before the place is filled. -/
theorem domainRead_place {b a : List (String × Option String)} {v : Option String}
    (hne : t ≠ s) (hown : filled (ownDomain (b ++ a) t).join = false)
    (hbefore : firstFilled b = none) :
    domainRead (b ++ (s, v) :: a) t =
      if filled v then v
      else (firstFilled a).or ((ownDomain (b ++ a) t).getD (b.head?.elim v Prod.snd)) := by
  have hhead : ((b ++ (s, v) :: a).head?.bind Prod.snd) = b.head?.elim v Prod.snd := by
    cases b <;> rfl
  rw [domainRead, ownDomain_place_ne hne, hown, firstFilled_place, hbefore, blankDomain,
    ownDomain_place_ne hne, hhead, Option.none_or]
  cases hv : filled v with
  | true =>
      cases v with
      | none => cases hv
      | some w => simp
  | false => simp

/-- Nothing filled is read from what is not filled. -/
theorem filled_getD_head {b : List (String × Option String)} {o : Option (Option String)}
    {v : Option String} (hown : filled o.join = false) (hbefore : firstFilled b = none)
    (hv : filled v = false) : filled (o.getD (b.head?.elim v Prod.snd)) = false := by
  cases o with
  | some w => exact hown
  | none =>
      cases b with
      | nil => exact hv
      | cons e b => exact firstFilled_eq_none_iff.mp hbefore e (List.mem_cons_self ..)

theorem exists_filled_iff : (∃ e ∈ l, filled e.2 = true) ↔ (firstFilled l).isSome = true := by
  rw [← not_iff_not, not_exists, Option.not_isSome_iff_eq_none, firstFilled_eq_none_iff]
  simp

theorem ne_of_filled {v w : Option String} (hv : filled v = true) (hw : filled w = false) :
    v ≠ w := by
  rintro rfl
  rw [hv] at hw
  cases hw

/-- With `d` under `s`, where it was `v`. -/
theorem undisturbed_replaced {b a : List (String × Option String)} {v : Option String}
    (hne : t ≠ s) (hown : filled (ownDomain (b ++ a) t).join = false)
    (hbefore : firstFilled b = none) :
    domainRead (b ++ (s, some d) :: a) t = domainRead (b ++ (s, v) :: a) t ↔
      v = some d ∨
      (filled (some d) = false ∧ filled v = false ∧
        ((firstFilled a).isSome = true ∨ (ownDomain (b ++ a) t).isSome = true ∨ b ≠ [])) ∨
      (filled (some d) = true ∧ filled v = false ∧ firstFilled a = some d) ∨
      (filled (some d) = false ∧ filled v = true ∧ firstFilled a = v) := by
  rw [domainRead_place hne hown hbefore, domainRead_place hne hown hbefore]
  generalize ownDomain (b ++ a) t = o at hown ⊢
  by_cases hvd : v = some d
  · rw [hvd]
    simp
  cases hd : filled (some d) with
  | true =>
      cases hv : filled v with
      | true => simpa [hvd] using Ne.symm hvd
      | false =>
          -- only the next that is filled can make up for it
          have hblank := filled_getD_head hown hbefore hv
          cases hafter : firstFilled a with
          | none => simpa [hvd] using ne_of_filled hd hblank
          | some x =>
              simp only [if_true, Bool.false_eq_true, if_false, Option.some_or, hvd, false_and,
                false_or, or_false, true_and, Option.some.injEq, reduceCtorEq]
              exact eq_comm
  | false =>
      have hblank := filled_getD_head hown hbefore hd
      cases hv : filled v with
      | true =>
          cases hafter : firstFilled a with
          | none =>
              have hvnone : v ≠ none := by
                rintro rfl
                cases hv
              simpa [hvd, Ne.symm hvnone] using Ne.symm (ne_of_filled hv hblank)
          | some x => simp [hvd]
      | false =>
          cases hafter : firstFilled a with
          | some x => simp
          | none =>
              cases o with
              | some w => simp
              | none =>
                  cases b with
                  | nil => simpa [hvd] using Ne.symm hvd
                  | cons e b => simp

theorem ownDomain_place (hne : t ≠ s) :
    ownDomain (placeBefore l s ++ placeAfter l s) t = ownDomain l t := by
  rcases place_cases l s with ⟨-, hnil, hl⟩ | ⟨v, -, hl⟩
  · rw [hnil, List.append_nil, ← hl]
  · conv_rhs => rw [hl, ownDomain_place_ne hne]

theorem domainRead_of_before {x : String} {rest : List (String × Option String)}
    (hown : filled (ownDomain (placeBefore l s ++ rest) t).join = false)
    (hx : firstFilled (placeBefore l s) = some x) :
    domainRead (placeBefore l s ++ rest) t = some x := by
  rw [domainRead, hown, firstFilled_append, hx]
  rfl

/-- Putting `d` under `s` changes nothing for `t` exactly where it is undisturbed. -/
theorem domainRead_put_iff (hne : t ≠ s) :
    domainRead (OrderedMap.setEntries s (some d) l) t = domainRead l t ↔ SameForTwin l s d t := by
  have howner := ownDomain_place (l := l) hne
  by_cases hown : filled (ownDomain l t).join = true
  · refine iff_of_true ?_ (.inl hown)
    rw [domainRead, domainRead, setEntries_place, ownDomain_place_ne hne, howner, if_pos hown,
      if_pos hown]
  rw [Bool.not_eq_true] at hown
  have hown' := howner.symm ▸ hown
  rw [setEntries_place]
  cases hbefore : firstFilled (placeBefore l s) with
  | some x =>
      refine iff_of_true ?_ (.inr (.inl (exists_filled_iff.mpr (by rw [hbefore]; rfl))))
      rw [domainRead_of_before (by rwa [ownDomain_place_ne hne]) hbefore]
      obtain ⟨rest, hrest⟩ : ∃ rest, l = placeBefore l s ++ rest := by
        rcases place_cases l s with ⟨-, -, hl⟩ | ⟨v, -, hl⟩
        · exact ⟨[], by rw [List.append_nil, ← hl]⟩
        · exact ⟨_, hl⟩
      have hfree : filled (ownDomain (placeBefore l s ++ rest) t).join = false := by rwa [← hrest]
      have hread := domainRead_of_before hfree hbefore
      rw [← hrest] at hread
      exact hread.symm
  | none =>
      rw [SameForTwin, hown, exists_filled_iff, exists_filled_iff, hbefore]
      rcases place_cases l s with ⟨hnone, hnil, hl⟩ | ⟨v, hv, hl⟩
      · -- the entry is a new one, at the end
        have hread : domainRead l t = (ownDomain l t).getD (l.head?.bind Prod.snd) := by
          rw [domainRead, hown, hl, hbefore]
          rfl
        have hempty : firstFilled [] = none := rfl
        have hfresh : filled (none : Option (Option String)).join = false := rfl
        rw [domainRead_place hne hown' hbefore, howner, hnone, hnil, hread, hempty, hfresh,
          ← hl]
        rw [← hl] at hbefore
        cases hd : filled (some d) with
        | true =>
            have hblank := filled_getD_head (v := none) hown hbefore rfl
            have helim : l.head?.elim none Prod.snd = l.head?.bind Prod.snd := by
              cases l <;> rfl
            rw [helim] at hblank
            simpa using ne_of_filled hd hblank
        | false =>
            cases ownDomain l t with
            | some w => simp
            | none => cases l <;> simp
      · have hread : domainRead l t =
            domainRead (placeBefore l s ++ (s, v) :: placeAfter l s) t := by rw [← hl]
        rw [hread, undisturbed_replaced hne hown' hbefore, howner, hv]
        simp

end Clash

/-! ## Get after put -/

theorem twins_congr (domains : ComposeDomains) {name other : String}
    (h : normalizeComposeServiceName name = normalizeComposeServiceName other) :
    twins domains name = twins domains other := by
  rw [twins, twins, h]

theorem ownDomain_setEntries_self (l : List (String × Option String)) (s : String)
    (v : Option String) : ownDomain (OrderedMap.setEntries s v l) s = some v := by
  induction l with
  | nil => simp [OrderedMap.setEntries, ownDomain]
  | cons e l ih =>
      rw [OrderedMap.setEntries]
      by_cases he : e.1 = s
      · simp [he, ownDomain]
      · rw [if_neg he, ← ih, ownDomain, ownDomain, List.find?_cons_of_neg (by simpa using he)]

/-- The domain is read back where it is filled, or nothing else is. -/
theorem domainRead_setEntries_self {l : List (String × Option String)} {s d : String}
    (hnodup : (l.map Prod.fst).Nodup) :
    domainRead (OrderedMap.setEntries s (some d) l) s = some d ↔
      filled (some d) = true ∨ ∀ e ∈ l, e.1 ≠ s → filled e.2 = false := by
  rw [domainRead, blankDomain, ownDomain_setEntries_self, Option.join_some]
  cases hd : filled (some d) with
  | true => simp
  | false =>
      cases hfirst : firstFilled (OrderedMap.setEntries s (some d) l) with
      | none =>
          refine iff_of_true rfl (.inr fun e he hne => ?_)
          exact firstFilled_eq_none_iff.mp hfirst e
            (OrderedMap.mem_setEntries hnodup |>.mpr (.inr ⟨he, hne⟩))
      | some x =>
          refine iff_of_false ?_ ?_
          · have hx := filled_of_firstFilled hfirst
            simpa using ne_of_filled hx hd
          · rintro (h | h)
            · cases h
            · have hnone : firstFilled (OrderedMap.setEntries s (some d) l) = none := by
                refine firstFilled_eq_none_iff.mpr fun e he => ?_
                rcases OrderedMap.mem_setEntries hnodup |>.mp he with rfl | ⟨he, hne⟩
                · exact hd
                · exact h e he hne
              rw [hnone] at hfirst
              cases hfirst

section GetPut

variable (domains : ComposeDomains) {name : String} (domain : String) {names : List String}

theorem get_put_self_alone (hnodup : names.Nodup) (hname : name ∈ names)
    (halone : ∀ t ∈ names,
      normalizeComposeServiceName t = normalizeComposeServiceName name → t = name) :
    getComposeServiceDomainString (putComposeServiceDomain domains name (some domain) names)
      name = some domain := by
  rw [getComposeServiceDomainString_eq, twins_put_alone domains domain hnodup hname halone]
  refine (domainRead_setEntries_self (l := []) List.nodup_nil).mpr (.inr ?_)
  exact fun e he => absurd he List.not_mem_nil

theorem get_put_clash (hname : name ∈ names) {other : String} (hother : other ∈ names)
    (hne : other ≠ name)
    (hclash : normalizeComposeServiceName other = normalizeComposeServiceName name) :
    (getComposeServiceDomainString (putComposeServiceDomain domains name (some domain) names)
        name = some domain ↔
      filled (some domain) = true ∨
        ∀ e ∈ twins domains name, e.1 ≠ name → filled e.2 = false) ∧
    (getComposeServiceDomainString (putComposeServiceDomain domains name (some domain) names)
        other = getComposeServiceDomainString domains other ↔
      SameForTwin (twins domains name) name domain other) := by
  have htwins := twins_put_clash domains domain hname hother hne hclash
  rw [getComposeServiceDomainString_eq, getComposeServiceDomainString_eq,
    getComposeServiceDomainString_eq, twins_congr _ hclash, twins_congr _ hclash, htwins]
  exact ⟨domainRead_setEntries_self (twins_nodup domains name), domainRead_put_iff hne⟩

/-- What is put is read back, and every other service keeps its domain, exactly
where no service has the same normal form, or it makes no difference. -/
theorem get_put_iff (hnodup : names.Nodup) (hname : name ∈ names) :
    (getComposeServiceDomainString (putComposeServiceDomain domains name (some domain) names)
        name = some domain ∧
      ∀ t ∈ names, t ≠ name →
        getComposeServiceDomainString (putComposeServiceDomain domains name (some domain) names)
          t = getComposeServiceDomainString domains t) ↔
    ∀ t ∈ names, t ≠ name →
      normalizeComposeServiceName t = normalizeComposeServiceName name →
        (filled (some domain) = true ∨
          ∀ e ∈ twins domains name, e.1 ≠ name → filled e.2 = false) ∧
        SameForTwin (twins domains name) name domain t := by
  constructor
  · rintro ⟨hself, hothers⟩ t ht hne hclash
    obtain ⟨hown, hother⟩ := get_put_clash domains domain hname ht hne hclash
    exact ⟨hown.mp hself, hother.mp (hothers t ht hne)⟩
  · intro h
    refine ⟨?_, fun t ht hne => ?_⟩
    · by_cases halone : ∀ t ∈ names,
          normalizeComposeServiceName t = normalizeComposeServiceName name → t = name
      · exact get_put_self_alone domains domain hnodup hname halone
      · push Not at halone
        obtain ⟨t, ht, hclash, hne⟩ := halone
        exact (get_put_clash domains domain hname ht hne hclash).1.mpr (h t ht hne hclash).1
    · by_cases hclash : normalizeComposeServiceName t = normalizeComposeServiceName name
      · exact (get_put_clash domains domain hname ht hne hclash).2.mpr (h t ht hne hclash).2
      · exact get_put_ne domains domain hname (Ne.symm hclash)

end GetPut

/-- Two services whose names differ in a hyphen, both with a domain. -/
theorem get_put_iff_both :
    let domains : ComposeDomains :=
      ⟨[("a-b", .bare (some "https://x")), ("a_b", .bare (some "https://y"))], by simp⟩
    getComposeServiceDomainString
        (putComposeServiceDomain domains "a-b" (some "https://z") ["a-b", "a_b"]) "a-b" =
      some "https://z" ∧
    ∀ t ∈ ["a-b", "a_b"], t ≠ "a-b" →
      getComposeServiceDomainString
          (putComposeServiceDomain domains "a-b" (some "https://z") ["a-b", "a_b"]) t =
        getComposeServiceDomainString domains t := by
  intro domains
  refine (get_put_iff domains "https://z" (by decide) (by decide)).mpr fun t ht hne _ => ?_
  obtain rfl : t = "a_b" := by simpa [hne] using ht
  exact ⟨.inl (by decide), .inl (by decide +kernel)⟩

/-- A domain is emptied, and the one of the other service is read instead. -/
theorem get_put_clashing_names :
    let domains : ComposeDomains := ⟨[("a_b", .bare (some "https://x"))], by simp⟩
    getComposeServiceDomainString
        (putComposeServiceDomain domains "a-b" (some "") ["a-b", "a_b"]) "a-b" =
      some "https://x" := by
  decide +kernel

end OnePloy
