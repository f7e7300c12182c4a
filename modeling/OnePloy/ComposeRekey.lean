import OnePloy.ComposeDomains

/-!
# Rekeying the domains of compose services

`rekeyComposeDomainsToServiceNames` moves the entries of a map to the exact
names of the services, and merges those that come to the same name. The domain
of the merged entry is the one that was read before (`mergedGroup_domain`), in
whatever order the entries stand. Its other fields are those of the entry that
comes last.
-/

namespace OnePloy

open Php

/-! ## One key at a time -/

/-- The entries that come to a key. -/
def groupOf (domains : ComposeDomains) (names : List String) (key : String) :
    List (String × DomainEntry) :=
  domains.entries.filter fun e => rekeyedName names e.1 = key

def mergeGroup (key : String) (l : List (String × DomainEntry)) : Option RekeyedEntry :=
  l.foldl (fun r e => some (mergeEntry r e.2.toFields (e.1 = key))) none

theorem get?_foldl_rekeyTurn (names : List String) (l : List (String × DomainEntry))
    (rekeyed : OrderedMap String RekeyedEntry) (key : String) :
    (l.foldl (rekeyTurn names) rekeyed).get? key =
      (l.filter fun e => rekeyedName names e.1 = key).foldl
        (fun r e => some (mergeEntry r e.2.toFields (e.1 = key))) (rekeyed.get? key) := by
  induction l generalizing rekeyed with
  | nil => rfl
  | cons e l ih =>
      rw [List.foldl_cons, ih, rekeyTurn, OrderedMap.get?_set, List.filter_cons]
      by_cases he : rekeyedName names e.1 = key
      · subst he
        simp
      · rw [if_neg (Ne.symm he), if_neg (by simpa using he)]

theorem get?_mapValues {α β : Type} (f : α → β) (m : OrderedMap String α) (key : String) :
    (m.mapValues f).get? key = (m.get? key).map f := by
  ext b
  rw [OrderedMap.get?_eq_some_iff, Option.map_eq_some_iff]
  simp only [OrderedMap.mapValues, List.mem_map, OrderedMap.get?_eq_some_iff]
  constructor
  · rintro ⟨e, he, heq⟩
    obtain ⟨rfl, rfl⟩ := Prod.mk.inj heq
    exact ⟨e.2, he, rfl⟩
  · rintro ⟨a, ha, rfl⟩
    exact ⟨(key, a), ha, rfl⟩

theorem get?_rekey (domains : ComposeDomains) (names : List String) (key : String) :
    (rekeyComposeDomainsToServiceNames domains names).get? key =
      (mergeGroup key (groupOf domains names key)).map fun r => .object r.1 := by
  rw [rekeyComposeDomainsToServiceNames, get?_mapValues, get?_foldl_rekeyTurn]
  rfl

theorem mergeGroup_concat (key : String) (l : List (String × DomainEntry))
    (e : String × DomainEntry) :
    mergeGroup key (l ++ [e]) =
      some (mergeEntry (mergeGroup key l) e.2.toFields (e.1 = key)) := by
  rw [mergeGroup, List.foldl_append]
  rfl

theorem mergeGroup_eq_none_iff {key : String} {l : List (String × DomainEntry)} :
    mergeGroup key l = none ↔ l = [] := by
  rcases List.eq_nil_or_concat l with rfl | ⟨l, e, rfl⟩
  · exact iff_of_true rfl rfl
  · rw [List.concat_eq_append, mergeGroup_concat]
    simp

/-! ## The merged domain -/

/-- The domain of the entry is a text or null, if it has one. -/
def DomainEntry.HasTextDomain (e : DomainEntry) : Prop :=
  e.toFields.get? "domain" = none ∨ e.toFields.get? "domain" = some .null ∨
    ∃ text, e.toFields.get? "domain" = some (.string text)

def textValue (domain : Option String) : Value := domain.elim .null .string

/-- `preferComposeDomainValue` where the domains are texts. -/
def preferText (existing : Option String) (existingIsCanonical : Bool) (incoming : Option String)
    (incomingIsCanonical : Bool) : Option String :=
  if filled existing && !filled incoming then existing
  else if filled incoming && !filled existing then incoming
  else if filled existing && filled incoming then
    if incomingIsCanonical && !existingIsCanonical then incoming else existing
  else if incomingIsCanonical then incoming
  else existing

theorem isFilledValue_textValue (domain : Option String) :
    isFilledValue (textValue domain) = filled domain := by
  cases domain <;> rfl

theorem asString_textValue (domain : Option String) : (textValue domain).asString = domain := by
  cases domain <;> rfl

theorem preferComposeDomainValue_textValue (existing incoming : Option String) (c c' : Bool) :
    preferComposeDomainValue (textValue existing) c (textValue incoming) c' =
      textValue (preferText existing c incoming c') := by
  simp only [preferComposeDomainValue, preferText, isFilledValue_textValue]
  split_ifs <;> rfl

theorem DomainEntry.domain_toFields (e : DomainEntry) :
    (DomainEntry.object e.toFields).domain = e.domain := by
  cases e with
  | bare domain =>
      have hget := OrderedMap.get?_set_self OrderedMap.empty "domain" (textValue domain)
      exact (congrArg (·.bind Value.asString) hget).trans (asString_textValue domain)
  | object fields => rfl

theorem DomainEntry.HasTextDomain.getD {e : DomainEntry} (h : e.HasTextDomain) :
    (e.toFields.get? "domain").getD .null = textValue e.domain := by
  rw [← e.domain_toFields, DomainEntry.domain]
  rcases h with h | h | ⟨text, h⟩ <;> rw [h] <;> rfl

section Reading

variable {l : List (String × Option String)} {s : String}

theorem filled_domainRead : filled (domainRead l s) = (firstFilled l).isSome := by
  rw [Bool.eq_iff_iff, ← exists_filled_iff, domainRead]
  split
  · next hown =>
      refine iff_of_true hown ?_
      cases hfind : l.find? fun e => e.1 = s with
      | none =>
          rw [ownDomain, hfind] at hown
          cases hown
      | some e =>
          rw [ownDomain, hfind] at hown
          exact ⟨e, List.mem_of_find?_eq_some hfind, hown⟩
  · next hown =>
      rw [exists_filled_iff]
      cases hfirst : firstFilled l with
      | some x => exact iff_of_true (filled_of_firstFilled hfirst) rfl
      | none =>
          have hblank := firstFilled_eq_none_iff.mp hfirst
          refine iff_of_false ?_ (by simp)
          rw [Option.none_or, blankDomain, Bool.not_eq_true]
          cases hfind : ownDomain l s with
          | some w => simpa [hfind] using hown
          | none =>
              cases l with
              | nil => rfl
              | cons e l => exact hblank e (List.mem_cons_self ..)

/-- One more entry: what is read is the domain that the merge prefers. -/
theorem domainRead_concat {key : String} {v : Option String} (hne : l ≠ [])
    (hkey : key ∉ l.map Prod.fst) :
    domainRead (l ++ [(key, v)]) s =
      preferText (domainRead l s) (ownDomain l s).isSome v (key = s) := by
  have hfirst : firstFilled (l ++ [(key, v)]) =
      (firstFilled l).or (if filled v then v else none) := by
    rw [firstFilled_append]
    cases hv : filled v <;> simp [firstFilled, hv]
  have hhead : (l ++ [(key, v)]).head?.bind Prod.snd = l.head?.bind Prod.snd := by
    obtain ⟨e, l, rfl⟩ := List.exists_cons_of_ne_nil hne
    rfl
  have hread : filled (domainRead l s) = (firstFilled l).isSome := filled_domainRead
  rw [preferText, hread]
  by_cases hks : key = s
  · -- the entry of the name itself comes now
    subst hks
    have hown : ownDomain l key = none := by
      rw [ownDomain, List.find?_eq_none.mpr]
      · rfl
      · intro e he hkeyed
        have hfst : e.1 = key := by simpa using hkeyed
        exact hkey (hfst ▸ List.mem_map_of_mem he)
    have hownNew : ownDomain (l ++ [(key, v)]) key = some v := by
      have hfind : l.find? (fun e => e.1 = key) = none := by
        rw [ownDomain, Option.map_eq_none_iff] at hown
        exact hown
      rw [ownDomain, List.find?_append, hfind]
      simp
    rw [domainRead, domainRead, blankDomain, blankDomain, hownNew, hown, hfirst]
    have hfresh : filled none = false := rfl
    cases hv : filled v with
    | true => cases firstFilled l <;> simp [hv]
    | false => cases firstFilled l <;> simp [hv, hfresh]
  · have hownNew : ownDomain (l ++ [(key, v)]) s = ownDomain l s := by
      simp [ownDomain, List.find?_append, hks]
    rw [domainRead, hownNew, hfirst, blankDomain, hownNew, hhead, ← blankDomain]
    cases hown : filled (ownDomain l s).join with
    | true =>
        have hold : domainRead l s = (ownDomain l s).join := by rw [domainRead, if_pos hown]
        rw [← hread, hold, hown]
        cases filled v <;> simp [hks]
    | false =>
        have hold : domainRead l s = (firstFilled l).or (blankDomain l s) := by
          rw [domainRead, hown]
          rfl
        rw [hold]
        cases hv : filled v with
        | true =>
            obtain ⟨w, rfl⟩ : ∃ w, v = some w := by
              cases v with
              | none => cases hv
              | some w => exact ⟨w, rfl⟩
            cases firstFilled l <;> simp [hks]
        | false => cases firstFilled l <;> simp [hks]

end Reading

/-- The domains of entries, by key. -/
def domainsOf (l : List (String × DomainEntry)) : List (String × Option String) :=
  l.map fun e => (e.1, e.2.domain)

theorem domainRead_singleton (key s : String) (v : Option String) :
    domainRead [(key, v)] s = v := by
  have hfresh : filled none = false := rfl
  cases v with
  | none => by_cases hks : key = s <;>
      simp [domainRead, ownDomain, firstFilled, blankDomain, hks, hfresh]
  | some w =>
      by_cases hks : key = s <;> cases hw : filled (some w) <;>
        simp [domainRead, ownDomain, firstFilled, blankDomain, hks, hw, hfresh]

/-- The domain of a merged entry is the one that is read of its sources. -/
theorem mergeGroup_domain {key : String} {l : List (String × DomainEntry)}
    (hnodup : (l.map Prod.fst).Nodup) (htext : ∀ e ∈ l, e.2.HasTextDomain) {r : RekeyedEntry}
    (h : mergeGroup key l = some r) :
    r.2 = (ownDomain (domainsOf l) key).isSome ∧
      (r.1.get? "domain").getD .null = textValue (domainRead (domainsOf l) key) := by
  induction l using List.reverseRecOn generalizing r with
  | nil => cases h
  | append_singleton l e ih =>
      rw [mergeGroup_concat, Option.some.injEq] at h
      subst h
      have hconcat : domainsOf (l ++ [e]) = domainsOf l ++ [(e.1, e.2.domain)] := by
        simp [domainsOf]
      have hkey : e.1 ∉ l.map Prod.fst := by
        rw [List.map_append, List.nodup_append] at hnodup
        exact fun hmem => hnodup.2.2 e.1 hmem e.1 (by simp) rfl
      have hdomain := (htext e (by simp)).getD
      have hown : (ownDomain (domainsOf (l ++ [e])) key).isSome =
          ((ownDomain (domainsOf l) key).isSome || decide (e.1 = key)) := by
        rw [hconcat, ownDomain, ownDomain, List.find?_append]
        cases (domainsOf l).find? fun e => e.1 = key with
        | some f => simp
        | none => by_cases hek : e.1 = key <;> simp [hek]
      cases hprev : mergeGroup key l with
      | none =>
          obtain rfl := mergeGroup_eq_none_iff.mp hprev
          refine ⟨?_, ?_⟩
          · rw [hown]
            rfl
          · rw [hconcat]
            exact hdomain.trans (congrArg textValue (domainRead_singleton ..).symm)
      | some r =>
          have hne : l ≠ [] := by
            rintro rfl
            cases hprev
          have hsub : (l.map Prod.fst).Nodup := by
            rw [List.map_append, List.nodup_append] at hnodup
            exact hnodup.1
          obtain ⟨hflag, hread⟩ := ih hsub (fun f hf => htext f (by simp [hf])) hprev
          obtain ⟨fields, flag⟩ := r
          have hconcatRead := domainRead_concat (s := key) (v := e.2.domain)
            (l := domainsOf l) (by simpa [domainsOf] using hne)
            (by simpa [domainsOf] using hkey)
          dsimp only at hflag hread
          rw [hconcat] at hown ⊢
          simp only [mergeEntry, OrderedMap.get?_set_self, Option.getD_some, hread, hdomain,
            preferComposeDomainValue_textValue, hown, hflag, hconcatRead, and_self]

/-! ## Keys -/

theorem normalize_rekeyedName (names : List String) (key : String) :
    normalizeComposeServiceName (rekeyedName names key) = normalizeComposeServiceName key := by
  rw [rekeyedName]
  cases hfind : findComposeServiceName key names with
  | none => rfl
  | some name => exact (normalize_of_find hfind).2

/-- The names are distinct, and no two of them have the same normal form. -/
def DistinctForms (names : List String) : Prop :=
  (names.map normalizeComposeServiceName).Nodup

theorem exists_of_mem_keys_rekey {domains : ComposeDomains} {names : List String} {key : String}
    (hkey : key ∈ (rekeyComposeDomainsToServiceNames domains names).keys) :
    ∃ e ∈ domains.entries, rekeyedName names e.1 = key := by
  have hne : groupOf domains names key ≠ [] := by
    intro hnil
    refine OrderedMap.get?_eq_none_iff.mp ?_ hkey
    rw [get?_rekey, hnil]
    rfl
  obtain ⟨e, he⟩ := List.exists_mem_of_ne_nil _ hne
  exact ⟨e, by simpa [groupOf] using he⟩

theorem groupOf_nodup (domains : ComposeDomains) (names : List String) (key : String) :
    ((groupOf domains names key).map Prod.fst).Nodup :=
  domains.nodup.sublist (List.filter_sublist.map _)

theorem mergeGroup_text (domains : ComposeDomains) {names : List String} {key : String}
    (htext : ∀ e ∈ domains.entries, e.2.HasTextDomain) {r : RekeyedEntry}
    (h : mergeGroup key (groupOf domains names key) = some r) :
    r.2 = (ownDomain (domainsOf (groupOf domains names key)) key).isSome ∧
      (DomainEntry.object r.1).domain =
        domainRead (domainsOf (groupOf domains names key)) key := by
  obtain ⟨hflag, hdomain⟩ := mergeGroup_domain (groupOf_nodup domains names key)
    (fun e he => htext e (List.mem_filter.mp he).1) h
  refine ⟨hflag, ?_⟩
  have hstring := congrArg Value.asString hdomain
  rw [asString_textValue] at hstring
  rw [← hstring, DomainEntry.domain]
  cases r.1.get? "domain" <;> rfl

section Distinct

variable {names : List String} (hforms : DistinctForms names)
include hforms

theorem DistinctForms.alone {s t : String} (hs : s ∈ names) (ht : t ∈ names)
    (h : normalizeComposeServiceName t = normalizeComposeServiceName s) : t = s :=
  List.inj_on_of_nodup_map hforms ht hs h

theorem DistinctForms.rekeyedName_eq_iff {s key : String} (hs : s ∈ names) :
    rekeyedName names key = s ↔
      normalizeComposeServiceName key = normalizeComposeServiceName s := by
  constructor
  · rintro rfl
    exact (normalize_rekeyedName names key).symm
  · intro h
    rw [rekeyedName, find_of_alone (List.Nodup.of_map _ hforms) hs
      (fun t ht => hforms.alone hs ht) h]
    rfl

theorem DistinctForms.groupOf_eq (domains : ComposeDomains) {s : String} (hs : s ∈ names) :
    domainsOf (groupOf domains names s) = twins domains s := by
  rw [groupOf, twins, domainsOf]
  refine congrArg _ (List.filter_congr fun e _ => ?_)
  rw [decide_eq_decide]
  exact hforms.rekeyedName_eq_iff hs

/-- A service has one key at most, its name. -/
theorem DistinctForms.key_rekey {domains : ComposeDomains} {key s : String}
    (hkey : key ∈ (rekeyComposeDomainsToServiceNames domains names).keys) (hs : s ∈ names)
    (h : normalizeComposeServiceName key = normalizeComposeServiceName s) : key = s := by
  obtain ⟨e, -, he⟩ := exists_of_mem_keys_rekey hkey
  rw [← he, normalize_rekeyedName] at h
  rw [← he]
  exact (hforms.rekeyedName_eq_iff hs).mpr h

theorem DistinctForms.get_rekey {domains : ComposeDomains}
    (htext : ∀ e ∈ domains.entries, e.2.HasTextDomain) {s : String} (hs : s ∈ names) :
    getComposeServiceDomainString (rekeyComposeDomainsToServiceNames domains names) s =
      getComposeServiceDomainString domains s := by
  have honly : twins (rekeyComposeDomainsToServiceNames domains names) s =
      domainsOf (((rekeyComposeDomainsToServiceNames domains names).get? s).map
        fun e => (s, e)).toList := by
    rw [twins, domainsOf, ← OrderedMap.filter_key]
    refine congrArg _ (List.filter_congr fun e he => ?_)
    rw [decide_eq_decide]
    refine ⟨fun h => hforms.key_rekey (List.mem_map_of_mem he) hs h, fun h => by rw [h]⟩
  rw [getComposeServiceDomainString_eq, getComposeServiceDomainString_eq, honly, get?_rekey,
    ← hforms.groupOf_eq domains hs]
  cases hmerged : mergeGroup s (groupOf domains names s) with
  | none =>
      rw [mergeGroup_eq_none_iff.mp hmerged]
      rfl
  | some r =>
      rw [Option.map_some, Option.map_some, ← (mergeGroup_text domains htext hmerged).2]
      exact domainRead_singleton ..

end Distinct

/-! ## Keys of no service -/

theorem rekeyedName_cases (names : List String) (key : String) :
    rekeyedName names key ∈ names ∨
      (findComposeServiceName key names = none ∧ rekeyedName names key = key) := by
  rw [rekeyedName]
  cases hfind : findComposeServiceName key names with
  | none => exact .inr ⟨rfl, rfl⟩
  | some name => exact .inl (normalize_of_find hfind).1

theorem rekeyedName_of_mem {names : List String} {name : String} (h : name ∈ names) :
    rekeyedName names name = name := by
  rw [rekeyedName, findComposeServiceName_of_mem h]
  rfl

/-- A key of no service keeps its entry. -/
theorem get?_rekey_unlisted {domains : ComposeDomains} {names : List String} {key : String}
    (hkey : ∀ s ∈ names,
      normalizeComposeServiceName s ≠ normalizeComposeServiceName key) {e : DomainEntry}
    (he : domains.get? key = some e) :
    (rekeyComposeDomainsToServiceNames domains names).get? key = some (.object e.toFields) := by
  have hsame : ∀ k, rekeyedName names k = key ↔ k = key := by
    intro k
    rcases rekeyedName_cases names k with hmem | ⟨-, hk⟩
    · -- it would be a service of the same normal form
      refine ⟨fun h => (hkey _ hmem (by rw [h])).elim, ?_⟩
      rintro rfl
      exact (hkey _ hmem (normalize_rekeyedName names k)).elim
    · rw [hk]
  have hgroup : groupOf domains names key = [(key, e)] := by
    have hfilter := OrderedMap.filter_key domains key
    rw [he] at hfilter
    rw [groupOf]
    simp only [hsame]
    exact hfilter
  rw [get?_rekey, hgroup]
  rfl

/-! ## Rekeying again -/

/-- Where every key stays, the entries do too. -/
theorem foldl_rekeyTurn_entries {names : List String} {l : List (String × DomainEntry)}
    {rekeyed : OrderedMap String RekeyedEntry} (hstays : ∀ e ∈ l, rekeyedName names e.1 = e.1)
    (hnodup : (rekeyed.keys ++ l.map Prod.fst).Nodup) :
    (l.foldl (rekeyTurn names) rekeyed).entries =
      rekeyed.entries ++ l.map fun e => (e.1, (e.2.toFields, true)) := by
  induction l generalizing rekeyed with
  | nil => simp
  | cons e l ih =>
      have he : rekeyedName names e.1 = e.1 := hstays e (List.mem_cons_self ..)
      have hnew : e.1 ∉ rekeyed.keys := by
        rw [List.nodup_append] at hnodup
        exact fun hmem => hnodup.2.2 e.1 hmem e.1 (by simp) rfl
      have hget : rekeyed.get? e.1 = none := OrderedMap.get?_eq_none_iff.mpr hnew
      have hset : (rekeyTurn names rekeyed e).entries =
          rekeyed.entries ++ [(e.1, (e.2.toFields, true))] := by
        rw [rekeyTurn, he, hget]
        refine (OrderedMap.setEntries_of_notMem hnew).trans ?_
        simp [mergeEntry]
      have hkeys : (rekeyTurn names rekeyed e).keys = rekeyed.keys ++ [e.1] := by
        rw [OrderedMap.keys, hset, List.map_append]
        rfl
      rw [List.foldl_cons, ih (fun f hf => hstays f (List.mem_cons_of_mem _ hf)), hset]
      · simp
      · simpa [hkeys] using hnodup

theorem rekey_idem (domains : ComposeDomains) (names : List String) :
    rekeyComposeDomainsToServiceNames (rekeyComposeDomainsToServiceNames domains names) names =
      rekeyComposeDomainsToServiceNames domains names := by
  have hstays : ∀ e ∈ (rekeyComposeDomainsToServiceNames domains names).entries,
      rekeyedName names e.1 = e.1 := by
    intro e he
    obtain ⟨f, -, hf⟩ := exists_of_mem_keys_rekey (List.mem_map_of_mem he)
    rcases rekeyedName_cases names f.1 with hmem | ⟨hnone, hsame⟩
    · rw [← hf]
      exact rekeyedName_of_mem hmem
    · rw [← hf, hsame, hsame]
  have hobjects : ∀ e ∈ (rekeyComposeDomainsToServiceNames domains names).entries,
      DomainEntry.object e.2.toFields = e.2 := by
    intro e he
    obtain ⟨f, -, rfl⟩ := List.mem_map.mp he
    rfl
  apply OrderedMap.ext_entries
  conv_lhs => rw [rekeyComposeDomainsToServiceNames]
  rw [OrderedMap.mapValues]
  simp only
  rw [foldl_rekeyTurn_entries hstays (by simpa [OrderedMap.keys, OrderedMap.empty] using
    (rekeyComposeDomainsToServiceNames domains names).nodup)]
  simp only [OrderedMap.empty, List.nil_append, List.map_map, Function.comp_def]
  refine (List.map_congr_left fun e he => ?_).trans (List.map_id _)
  rw [hobjects e he]
  rfl

/-! ## Another order of the entries -/

/-- The same fields, in whatever order. -/
def DomainEntry.Same (e e' : DomainEntry) : Prop := e.toFields.Same e'.toFields

/-- The same entries under the same keys. -/
def SameDomains (domains domains' : ComposeDomains) : Prop :=
  ∀ key, Option.Rel DomainEntry.Same (domains.get? key) (domains'.get? key)

/-- No two keys but its own come to a service. -/
def OneLegacyKey (domains : ComposeDomains) (s : String) : Prop :=
  ∀ key ∈ domains.keys, ∀ key' ∈ domains.keys, key ≠ s → key' ≠ s →
    normalizeComposeServiceName key = normalizeComposeServiceName s →
    normalizeComposeServiceName key' = normalizeComposeServiceName s → key = key'

/-- What the own entry of a service and another one for it both say, apart from
the domain, is the same. -/
def AgreeingFields (domains : ComposeDomains) (s : String) : Prop :=
  ∀ e e' key, domains.get? s = some e → domains.get? key = some e' → key ≠ s →
    normalizeComposeServiceName key = normalizeComposeServiceName s →
    ∀ field ≠ "domain", ∀ v v', e.toFields.get? field = some v →
      e'.toFields.get? field = some v' → v = v'

theorem domainRead_swap {s : String} {x y : String × Option String} (hne : x.1 ≠ y.1)
    (hs : x.1 = s ∨ y.1 = s) : domainRead [x, y] s = domainRead [y, x] s := by
  have hwlog : ∀ x y : String × Option String, x.1 = s → y.1 ≠ s →
      domainRead [x, y] s = domainRead [y, x] s := by
    intro x y hx hy
    have hown : ∀ l : List (String × Option String), l = [x, y] ∨ l = [y, x] →
        ownDomain l s = some x.2 := by
      rintro l (rfl | rfl) <;> simp [ownDomain, hx, hy]
    rw [domainRead, domainRead, blankDomain, blankDomain, hown _ (.inl rfl), hown _ (.inr rfl)]
    cases hfilled : filled x.2 with
    | true => simp [hfilled]
    | false =>
        have hfresh : filled none = false := rfl
        have hfirst : firstFilled [x, y] = firstFilled [y, x] := by
          cases hy : y.2 with
          | none => simp [firstFilled, hfilled, hy, hfresh]
          | some w => cases hw : filled (some w) <;> simp [firstFilled, hfilled, hy, hw]
        simp [hfilled, hfirst]
  rcases hs with hs | hs
  · exact hwlog x y hs fun h => hne (hs.trans h.symm)
  · exact (hwlog y x hs fun h => hne (h.trans hs.symm)).symm

theorem mergeGroup_pair (s : String) (x y : String × DomainEntry) :
    mergeGroup s [x, y] =
      some (mergeEntry (some (x.2.toFields, x.1 = s)) y.2.toFields (y.1 = s)) := rfl

theorem toFields_object (fields : OrderedMap String Value) :
    (DomainEntry.object fields).toFields = fields := rfl

theorem get?_mergeEntry (fields value : OrderedMap String Value) (c c' : Bool) {field : String}
    (hfield : field ≠ "domain") :
    (mergeEntry (some (fields, c)) value c').1.get? field =
      (value.get? field).or (fields.get? field) := by
  simp only [mergeEntry]
  rw [OrderedMap.get?_set_ne _ _ hfield, OrderedMap.get?_merge]

theorem get?_mergeEntry_domain (fields value : OrderedMap String Value) (c c' : Bool) :
    (mergeEntry (some (fields, c)) value c').1.get? "domain" =
      some (((mergeEntry (some (fields, c)) value c').1.get? "domain").getD .null) := by
  simp only [mergeEntry, OrderedMap.get?_set_self, Option.getD_some]

/-- Two entries merge to the same in either order exactly where their other
fields agree. -/
theorem mergeGroup_swap_iff {s : String} {x y : String × DomainEntry} (hne : x.1 ≠ y.1)
    (hs : x.1 = s ∨ y.1 = s) (hx : x.2.HasTextDomain) (hy : y.2.HasTextDomain) :
    Option.Rel DomainEntry.Same ((mergeGroup s [x, y]).map fun r => .object r.1)
        ((mergeGroup s [y, x]).map fun r => .object r.1) ↔
      ∀ field ≠ "domain", ∀ v v', x.2.toFields.get? field = some v →
        y.2.toFields.get? field = some v' → v = v' := by
  rw [mergeGroup_pair, mergeGroup_pair, Option.map_some, Option.map_some, Option.rel_some_some,
    DomainEntry.Same, toFields_object, toFields_object]
  constructor
  · intro hsame field hfield v v' hv hv'
    have hget := hsame field
    rw [get?_mergeEntry _ _ _ _ hfield, get?_mergeEntry _ _ _ _ hfield, hv, hv'] at hget
    exact (Option.some.inj hget).symm
  · intro hagree field
    by_cases hfield : field = "domain"
    · have hxy := (mergeGroup_domain (by simpa using hne) (by simp [hx, hy])
        (mergeGroup_pair s x y)).2
      have hyx := (mergeGroup_domain (by simpa using Ne.symm hne) (by simp [hx, hy])
        (mergeGroup_pair s y x)).2
      have hread : domainRead (domainsOf [x, y]) s = domainRead (domainsOf [y, x]) s :=
        domainRead_swap (x := (x.1, x.2.domain)) (y := (y.1, y.2.domain)) hne hs
      have hvalue := hxy.trans ((congrArg textValue hread).trans hyx.symm)
      rw [hfield]
      exact (get?_mergeEntry_domain ..).trans
        ((congrArg some hvalue).trans (get?_mergeEntry_domain ..).symm)
    · rw [get?_mergeEntry _ _ _ _ hfield, get?_mergeEntry _ _ _ _ hfield]
      cases hv : x.2.toFields.get? field with
      | none => simp
      | some v =>
          cases hv' : y.2.toFields.get? field with
          | none => rfl
          | some v' => rw [hagree field hfield v v' hv hv']

/-- A key with no legacy key but one has two entries at most. -/
inductive Short (s : String) : List (String × DomainEntry) → Prop
  | nil : Short s []
  | one (x : String × DomainEntry) : Short s [x]
  | two (x y : String × DomainEntry) (hne : x.1 ≠ y.1) (hs : x.1 = s ∨ y.1 = s) : Short s [x, y]

section Distinct

variable {names : List String} (hforms : DistinctForms names) {domains : ComposeDomains}
include hforms

/-- A key that comes to another is a legacy key of a service. -/
theorem DistinctForms.legacy {e : String × DomainEntry} {key : String}
    (hname : rekeyedName names e.1 = key) (hne : e.1 ≠ key) :
    key ∈ names ∧ normalizeComposeServiceName e.1 = normalizeComposeServiceName key := by
  have hlisted : key ∈ names := by
    rcases rekeyedName_cases names e.1 with hmem | ⟨-, hsame⟩
    · rwa [hname] at hmem
    · exact absurd (hsame.symm.trans hname) hne
  exact ⟨hlisted, (hforms.rekeyedName_eq_iff hlisted).mp hname⟩

theorem DistinctForms.short (hone : ∀ s ∈ names, OneLegacyKey domains s) (key : String) :
    Short key (groupOf domains names key) := by
  have hnodup := groupOf_nodup domains names key
  have hlegacy : ∀ e ∈ groupOf domains names key, ∀ f ∈ groupOf domains names key,
      e.1 ≠ key → f.1 ≠ key → e.1 = f.1 := by
    intro e he f hf hekey hfkey
    obtain ⟨hemem, hename⟩ := List.mem_filter.mp he
    obtain ⟨hfmem, hfname⟩ := List.mem_filter.mp hf
    rw [decide_eq_true_iff] at hename hfname
    obtain ⟨hlisted, heform⟩ := hforms.legacy hename hekey
    obtain ⟨-, hfform⟩ := hforms.legacy hfname hfkey
    exact hone key hlisted e.1 (List.mem_map_of_mem hemem) f.1 (List.mem_map_of_mem hfmem) hekey
      hfkey heform hfform
  generalize groupOf domains names key = l at hnodup hlegacy
  match l with
  | [] => exact .nil
  | [x] => exact .one x
  | [x, y] =>
      have hne : x.1 ≠ y.1 := by simpa using hnodup
      refine .two x y hne ?_
      by_contra hnone
      rw [not_or] at hnone
      exact hne (hlegacy x (by simp) y (by simp) hnone.1 hnone.2)
  | x :: y :: z :: l =>
      -- of three keys, two would be legacy keys
      simp only [List.map_cons, List.nodup_cons, List.mem_cons, not_or] at hnodup
      obtain ⟨⟨hxy, hxz, -⟩, ⟨hyz, -⟩, -⟩ := hnodup
      have hx := hlegacy x (by simp)
      have hy := hlegacy y (by simp)
      by_cases hxkey : x.1 = key
      · exact absurd (hy z (by simp) (fun h => hxy (hxkey.trans h.symm))
          fun h => hxz (hxkey.trans h.symm)) hyz
      · by_cases hykey : y.1 = key
        · exact absurd (hx z (by simp) hxkey fun h => hyz (hykey.trans h.symm)) hxz
        · exact absurd (hx y (by simp) hxkey hykey) hxy

end Distinct

theorem groupOf_perm {domains domains' : ComposeDomains} (h : domains'.entries.Perm domains.entries)
    (names : List String) (key : String) :
    (groupOf domains' names key).Perm (groupOf domains names key) :=
  h.filter _

theorem perm_pair {α : Type} {l : List α} {x y : α} (h : l.Perm [x, y]) :
    l = [x, y] ∨ l = [y, x] := by
  match l, h.length_eq with
  | [a, b], _ =>
      have ha : a = x ∨ a = y := by simpa using h.subset (List.mem_cons_self ..)
      rcases ha with rfl | rfl
      · have hb := List.perm_singleton.mp (List.perm_cons a |>.mp h)
        exact .inl (congrArg _ hb)
      · have hb := List.perm_singleton.mp (List.perm_cons a |>.mp (h.trans (.swap ..)))
        exact .inr (congrArg _ hb)

theorem sameEntry_refl (r : Option DomainEntry) : Option.Rel DomainEntry.Same r r := by
  cases r with
  | none => exact .none
  | some e => exact .some fun _ => rfl

/-- The order of the entries makes no difference exactly where the entries of
each service agree. -/
theorem DistinctForms.order_iff {names : List String} (hforms : DistinctForms names)
    {domains : ComposeDomains} (htext : ∀ e ∈ domains.entries, e.2.HasTextDomain)
    (hone : ∀ s ∈ names, OneLegacyKey domains s) :
    (∀ domains' : ComposeDomains, domains'.entries.Perm domains.entries →
      SameDomains (rekeyComposeDomainsToServiceNames domains' names)
        (rekeyComposeDomainsToServiceNames domains names)) ↔
    ∀ s ∈ names, AgreeingFields domains s := by
  constructor
  · intro h s hs e e' key he he' hne hkey
    have hreverse : ((⟨domains.entries.reverse, by simpa using domains.nodup⟩ :
        ComposeDomains).entries).Perm domains.entries := List.reverse_perm _
    have hsame := h _ hreverse s
    rw [get?_rekey, get?_rekey, groupOf, List.filter_reverse, ← groupOf] at hsame
    -- both entries are in the group of the service, and nothing else is
    have hmem : ∀ k v, domains.get? k = some v →
        normalizeComposeServiceName k = normalizeComposeServiceName s →
        (k, v) ∈ groupOf domains names s := fun k v hget hk =>
      List.mem_filter.mpr ⟨OrderedMap.get?_eq_some_iff.mp hget,
        decide_eq_true ((hforms.rekeyedName_eq_iff hs).mpr hk)⟩
    have hmemOwn := hmem s e he rfl
    have hmemLegacy := hmem key e' he' hkey
    have hall : ∀ f ∈ groupOf domains names s, f.2.HasTextDomain :=
      fun f hf => htext f (List.mem_filter.mp hf).1
    have hshort := hforms.short hone s
    generalize groupOf domains names s = l at hsame hmemOwn hmemLegacy hall hshort
    cases hshort with
    | nil => cases hmemOwn
    | one x =>
        have hx := List.mem_singleton.mp hmemOwn
        rw [← hx, List.mem_singleton] at hmemLegacy
        exact absurd (Prod.mk.inj hmemLegacy).1 hne
    | two x y hxy hxs =>
        have hagree := (mergeGroup_swap_iff (Ne.symm hxy) hxs.symm (hall y (by simp))
          (hall x (by simp))).mp hsame
        intro field hfield v v' hv hv'
        simp only [List.mem_cons, List.not_mem_nil, or_false] at hmemOwn hmemLegacy
        rcases hmemOwn with rfl | rfl
        · rcases hmemLegacy with heq | rfl
          · exact absurd (Prod.mk.inj heq).1 hne
          · exact (hagree field hfield v' v hv' hv).symm
        · rcases hmemLegacy with rfl | heq
          · exact hagree field hfield v v' hv hv'
          · exact absurd (Prod.mk.inj heq).1 hne
  · intro hagree domains' hperm key
    rw [get?_rekey, get?_rekey]
    have hgroup := groupOf_perm hperm names key
    have hmem : ∀ e ∈ groupOf domains names key, e ∈ domains.entries :=
      fun e he => (List.mem_filter.mp he).1
    have hname : ∀ e ∈ groupOf domains names key, rekeyedName names e.1 = key :=
      fun e he => by simpa using (List.mem_filter.mp he).2
    generalize hl : groupOf domains names key = l at hgroup hmem hname
    generalize groupOf domains' names key = l' at hgroup
    have hshort := hl ▸ hforms.short hone key
    cases hshort with
    | nil =>
        rw [List.perm_nil.mp hgroup]
        exact sameEntry_refl _
    | one x =>
        rw [List.perm_singleton.mp hgroup]
        exact sameEntry_refl _
    | two x y hne hs =>
        rcases perm_pair hgroup with rfl | rfl
        · exact sameEntry_refl _
        · refine (mergeGroup_swap_iff (Ne.symm hne) hs.symm (htext y (hmem y (by simp)))
            (htext x (hmem x (by simp)))).mpr ?_
          have hx := hforms.legacy (hname x (by simp))
          have hy := hforms.legacy (hname y (by simp))
          intro field hfield v v' hv hv'
          rcases hs with rfl | rfl
          · obtain ⟨hlisted, hform⟩ := hy (Ne.symm hne)
            exact (hagree x.1 hlisted x.2 y.2 y.1
              (OrderedMap.get?_eq_some_iff.mpr (hmem x (by simp)))
              (OrderedMap.get?_eq_some_iff.mpr (hmem y (by simp))) (Ne.symm hne) hform field
              hfield v' v hv' hv).symm
          · obtain ⟨hlisted, hform⟩ := hx hne
            exact hagree y.1 hlisted y.2 x.2 x.1
              (OrderedMap.get?_eq_some_iff.mpr (hmem y (by simp)))
              (OrderedMap.get?_eq_some_iff.mpr (hmem x (by simp))) hne hform field hfield v v'
              hv hv'

/-- The domains are the same in any order, whatever the other fields are. -/
theorem DistinctForms.domain_order {names : List String} (hforms : DistinctForms names)
    {domains domains' : ComposeDomains} (htext : ∀ e ∈ domains.entries, e.2.HasTextDomain)
    (hone : ∀ s ∈ names, OneLegacyKey domains s)
    (hperm : domains'.entries.Perm domains.entries) (key : String) :
    ((rekeyComposeDomainsToServiceNames domains' names).get? key).map DomainEntry.domain =
      ((rekeyComposeDomainsToServiceNames domains names).get? key).map DomainEntry.domain := by
  have htext' : ∀ e ∈ domains'.entries, e.2.HasTextDomain := fun e he => htext e (hperm.subset he)
  have hread : ∀ {d : ComposeDomains}, (∀ e ∈ d.entries, e.2.HasTextDomain) →
      ((rekeyComposeDomainsToServiceNames d names).get? key).map DomainEntry.domain =
        if groupOf d names key = [] then none
        else some (domainRead (domainsOf (groupOf d names key)) key) := by
    intro d hd
    rw [get?_rekey]
    cases hmerged : mergeGroup key (groupOf d names key) with
    | none => rw [if_pos (mergeGroup_eq_none_iff.mp hmerged)]; rfl
    | some r =>
        have hne : groupOf d names key ≠ [] := fun hnil => by
          rw [mergeGroup_eq_none_iff.mpr hnil] at hmerged
          cases hmerged
        rw [if_neg hne, ← (mergeGroup_text d hd hmerged).2]
        rfl
  rw [hread htext', hread htext]
  have hgroup := groupOf_perm hperm names key
  have hshort := hforms.short hone key
  generalize groupOf domains names key = l at hgroup hshort
  generalize groupOf domains' names key = l' at hgroup
  cases hshort with
  | nil => rw [List.perm_nil.mp hgroup]
  | one x => rw [List.perm_singleton.mp hgroup]
  | two x y hne hs =>
      rcases perm_pair hgroup with rfl | rfl
      · rfl
      · exact congrArg some (domainRead_swap (x := (y.1, y.2.domain)) (y := (x.1, x.2.domain))
          (Ne.symm hne) hs.symm)

/-! ## What rekeying keeps -/

/-- What rekeying is to keep: one key for a service, its name; the domain that is
read for it; the domain of a key of no service; and all of it, when it is done
again or the entries stand in another order. -/
structure RekeysWell (domains : ComposeDomains) (names : List String) : Prop where
  oneKey : ∀ key ∈ (rekeyComposeDomainsToServiceNames domains names).keys, ∀ s ∈ names,
    normalizeComposeServiceName key = normalizeComposeServiceName s → key = s
  sameAnswer : ∀ s ∈ names,
    getComposeServiceDomainString (rekeyComposeDomainsToServiceNames domains names) s =
      getComposeServiceDomainString domains s
  keepsOthers : ∀ key e,
    (∀ s ∈ names, normalizeComposeServiceName s ≠ normalizeComposeServiceName key) →
    domains.get? key = some e →
      ∃ e', (rekeyComposeDomainsToServiceNames domains names).get? key = some e' ∧
        e'.domain = e.domain
  idempotent :
    rekeyComposeDomainsToServiceNames (rekeyComposeDomainsToServiceNames domains names) names =
      rekeyComposeDomainsToServiceNames domains names
  orderFree : (∀ s ∈ names, OneLegacyKey domains s) →
    ∀ domains' : ComposeDomains, domains'.entries.Perm domains.entries →
      SameDomains (rekeyComposeDomainsToServiceNames domains' names)
        (rekeyComposeDomainsToServiceNames domains names)

/-- It keeps all of it exactly where the two entries of a service do not say
different things beside the domain. -/
theorem rekeysWell_iff {domains : ComposeDomains} {names : List String}
    (hforms : DistinctForms names) (htext : ∀ e ∈ domains.entries, e.2.HasTextDomain) :
    RekeysWell domains names ↔
      ((∀ s ∈ names, OneLegacyKey domains s) → ∀ s ∈ names, AgreeingFields domains s) := by
  constructor
  · intro h hone
    exact (hforms.order_iff htext hone).mp (h.orderFree hone)
  · intro hagree
    exact {
      oneKey := fun key hkey s hs h => hforms.key_rekey hkey hs h
      sameAnswer := fun s hs => hforms.get_rekey htext hs
      keepsOthers := fun key e hkey he =>
        ⟨.object e.toFields, get?_rekey_unlisted hkey he, e.domain_toFields⟩
      idempotent := rekey_idem domains names
      orderFree := fun hone => (hforms.order_iff htext hone).mpr (hagree hone) }

theorem get?_toFields_bare (domain : Option String) {field : String} (hfield : field ≠ "domain") :
    (DomainEntry.bare domain).toFields.get? field = none :=
  OrderedMap.get?_set_ne _ _ hfield

/-- A service with its own key and a legacy one. -/
theorem rekeysWell_iff_legacy :
    RekeysWell ⟨[("web_api", .bare (some "https://a")), ("web-api", .bare (some ""))], by simp⟩
      ["web-api", "db"] := by
  refine (rekeysWell_iff (by unfold DistinctForms; decide) ?_).mpr ?_
  · intro e he
    simp only [List.mem_cons, List.not_mem_nil, or_false] at he
    rcases he with rfl | rfl
    · exact .inr (.inr ⟨"https://a", OrderedMap.get?_set_self ..⟩)
    · exact .inr (.inr ⟨"", OrderedMap.get?_set_self ..⟩)
  · intro _ s _ e e' key he _ _ _ field hfield v v' hv _
    have hmem := OrderedMap.get?_eq_some_iff.mp he
    simp only [List.mem_cons, List.not_mem_nil, or_false] at hmem
    rcases hmem with heq | heq <;>
    · rw [(Prod.mk.inj heq).2, get?_toFields_bare _ hfield] at hv
      cases hv

/-- The domain is that of the service's own key in either order, but the redirect
is that of the entry that comes last. -/
theorem rekey_keeps_last_redirect :
    let own : String × DomainEntry := ("web-api", .object
      ⟨[("domain", .string "https://a"), ("redirect", .string "www")], by simp⟩)
    let legacy : String × DomainEntry := ("web_api", .object
      ⟨[("domain", .string "https://b"), ("redirect", .string "non-www")], by simp⟩)
    let rekeyed : ComposeDomains → String → Option String := fun domains field =>
      ((rekeyComposeDomainsToServiceNames domains ["web-api"]).get? "web-api").bind fun e =>
        (e.toFields.get? field).bind Value.asString
    let ownFirst : ComposeDomains := ⟨[own, legacy], by simp [own, legacy]⟩
    let legacyFirst : ComposeDomains := ⟨[legacy, own], by simp [own, legacy]⟩
    rekeyed ownFirst "domain" = some "https://a" ∧ rekeyed ownFirst "redirect" = some "non-www" ∧
    rekeyed legacyFirst "domain" = some "https://a" ∧
    rekeyed legacyFirst "redirect" = some "www" := by
  decide +kernel

end OnePloy
