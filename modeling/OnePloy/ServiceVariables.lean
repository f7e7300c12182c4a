import OnePloy.ComposeDomains
import OnePloy.Lib.Attempt
import OnePloy.Lib.LastWrite

/-!
# Service variables and the domain map

For each service of a compose file, `applicationParser` goes through the whole domain
map: a filled entry sets `SERVICE_URL_X` and `SERVICE_FQDN_X` of its own name, a blank one
clears the variables whose names begin like the one of the service whose turn it is. So the
turn of the last service decides, and in it the last entry that counts
(`variables_follow_iff`).
-/

namespace OnePloy

open Php Conc

namespace ServiceVariables

/-! ## The parser -/

/-- The variables of the application, without its previews. -/
abbrev Rows := OrderedMap String (Option String)

/-- What is in the name of a variable for a service. -/
def envName (forServiceName : String) : String :=
  strtoupper (normalizeComposeServiceName forServiceName)

/-- `$serviceNameFormatted`. -/
def serviceNameFormatted (serviceName : String) : String :=
  normalizeComposeServiceName (strtoupper serviceName)

inductive Variable
  | url | fqdn
  deriving DecidableEq, Repr

def Variable.start : Variable → String
  | url => "SERVICE_URL_"
  | fqdn => "SERVICE_FQDN_"

def Variable.key (v : Variable) (name : String) : String := v.start ++ name

/-- `LIKE`, with a pattern that ends in `%` and has no other, nor a backslash. -/
def matchesLike : List Char → List Char → Bool
  | [], _ => true
  | _, [] => false
  | p :: pattern, c :: cs => (p == '_' || p == c) && matchesLike pattern cs

/-- `update(['value' => null])` where the key is like the pattern. -/
def clearLike (pattern : String) (rows : Rows) : Rows where
  entries := rows.entries.map fun e =>
    if matchesLike pattern.toList e.1.toList then (e.1, none) else e
  nodup := by
    rw [List.map_map]
    refine (List.map_congr_left fun e _ => ?_) ▸ rows.nodup
    rw [Function.comp_apply]
    split <;> rfl

/-- A service of the compose file. -/
structure ParsedService where
  name : String
  /-- Compose allows no others. -/
  plain : name.toList.all (fun c => c.isAlphanum || ['-', '_', '.'].contains c) = true
  /-- What its environment asks for, with the value that a row is created with. -/
  asked : List (String × Option String)

section

/- URL without port and host of a domain, where `Spatie\Url` reads it. -/
variable (readUrl : String → Except String (String × String))

/-- `firstOrCreate`. -/
def askTurn (rows : Rows) (asked : String × Option String) : Rows :=
  match rows.get? asked.1 with
  | some _ => rows
  | none => rows.set asked.1 asked.2

def firstDomain (domain : Option String) : String := (explode ',' (domain.getD "")).headD ""

/-- An entry of the domain map, in the turn of a service. -/
def domainTurn (serviceName : String) (rows : Rows) (e : String × DomainEntry) :
    Except String Rows :=
  if filled e.2.domain then
    (readUrl (firstDomain e.2.domain)).map fun url =>
      (rows.set (Variable.url.key (envName e.1)) (some (trim url.1))).set
        (Variable.fqdn.key (envName e.1)) (some (trim url.2))
  else
    .ok (clearLike (Variable.url.key (serviceNameFormatted serviceName))
      (clearLike (Variable.fqdn.key (serviceNameFormatted serviceName)) rows))

def serviceTurn (domains : ComposeDomains) (rows : Rows) (service : ParsedService) :
    Except String Rows :=
  domains.entries.foldlM (domainTurn readUrl service.name) (service.asked.foldl askTurn rows)

/-- The loop over the services. -/
def parseServices (domains : ComposeDomains) (services : List ParsedService) (rows : Rows) :
    Except String Rows :=
  services.foldlM (serviceTurn readUrl domains) rows

/-! ## What an entry stands for -/

def Variable.ofUrl (v : Variable) (url : String × String) : String :=
  match v with
  | .url => trim url.1
  | .fqdn => trim url.2

/-- What a variable is to hold by an entry: nothing, if it is blank. -/
def due (v : Variable) (e : String × DomainEntry) : Option String :=
  if filled e.2.domain then (readUrl (firstDomain e.2.domain)).toOption.map v.ofUrl else none

/-- Every variable holds what the entry of its service stands for. -/
def Follows (domains : ComposeDomains) (rows : Rows) : Prop :=
  ∀ e ∈ domains.entries, ∀ v : Variable,
    (rows.get? (v.key (envName e.1))).join = due readUrl v e

end

/-! ## One key -/

theorem get?_clearLike (pattern : String) (rows : Rows) (key : String) :
    (clearLike pattern rows).get? key =
      if matchesLike pattern.toList key.toList then (rows.get? key).map fun _ => none
      else rows.get? key := by
  rw [OrderedMap.get?, OrderedMap.get?, clearLike]
  dsimp only
  induction rows.entries with
  | nil => split <;> rfl
  | cons e l ih =>
      rw [List.map_cons]
      by_cases hkey : e.1 = key
      · subst hkey
        split <;> simp
      · have hother : ¬ (if matchesLike pattern.toList e.1.toList = true then (e.1, none)
            else e).1 = key := by
          split <;> exact hkey
        rw [List.find?_cons_of_neg (by simpa using hother), ih,
          List.find?_cons_of_neg (by simpa using hkey)]

theorem matchesLike_append (front pattern cs : List Char) :
    matchesLike (front ++ pattern) (front ++ cs) = matchesLike pattern cs := by
  induction front with
  | nil => rfl
  | cons c front ih =>
      rw [List.cons_append, List.cons_append, matchesLike, ih]
      simp

/-- The pattern of one variable is not like the key of the other. -/
theorem matchesLike_key (v v' : Variable) (name name' : String) :
    matchesLike (v.key name).toList (v'.key name').toList =
      (decide (v = v') && matchesLike name.toList name'.toList) := by
  rw [Variable.key, Variable.key, String.toList_append, String.toList_append]
  cases v <;> cases v'
  · exact matchesLike_append _ _ _
  · rfl
  · rfl
  · exact matchesLike_append _ _ _

theorem key_injective {v v' : Variable} {name name' : String}
    (h : v.key name = v'.key name') : v = v' ∧ name = name' := by
  have hchars := congrArg String.toList h
  rw [Variable.key, Variable.key, String.toList_append, String.toList_append] at hchars
  cases v <;> cases v'
  · exact ⟨rfl, String.toList_inj.mp (List.append_cancel_left hchars)⟩
  · cases hchars
  · cases hchars
  · exact ⟨rfl, String.toList_inj.mp (List.append_cancel_left hchars)⟩

/-- A blank entry clears the variable in this service's turn. -/
def clears (service : ParsedService) (name : String) : Bool :=
  matchesLike (serviceNameFormatted service.name).toList name.toList

section

variable {readUrl : String → Except String (String × String)}

/-- What an entry writes to a variable, in the turn of a service. -/
def writes (readUrl : String → Except String (String × String)) (v : Variable)
    (service : ParsedService) (name : String) (e : String × DomainEntry) :
    Option (Option String) :=
  if filled e.2.domain then
    if envName e.1 = name then some (due readUrl v e) else none
  else if clears service name then some none
  else none

theorem get?_domainTurn_blank {service : ParsedService} {rows rows' : Rows}
    {e : String × DomainEntry} (hblank : filled e.2.domain = false)
    (h : domainTurn readUrl service.name rows e = .ok rows') (v : Variable) (name : String) :
    rows'.get? (v.key name) =
      if clears service name then (rows.get? (v.key name)).map fun _ => none
      else rows.get? (v.key name) := by
  rw [domainTurn, hblank, if_neg Bool.false_ne_true] at h
  obtain rfl := Except.ok.inj h
  rw [get?_clearLike, get?_clearLike, matchesLike_key, matchesLike_key, clears]
  cases v <;> split <;> simp_all

theorem get?_domainTurn_filled {service : ParsedService} {rows rows' : Rows}
    {e : String × DomainEntry} (hfilled : filled e.2.domain = true)
    (h : domainTurn readUrl service.name rows e = .ok rows') (v : Variable) (name : String) :
    rows'.get? (v.key name) =
      if envName e.1 = name then some (due readUrl v e) else rows.get? (v.key name) := by
  rw [domainTurn, if_pos hfilled] at h
  cases hread : readUrl (firstDomain e.2.domain) with
  | error err =>
      rw [hread] at h
      cases h
  | ok url =>
      rw [hread] at h
      obtain rfl := Except.ok.inj h
      dsimp only
      have hdue : due readUrl v e = some (v.ofUrl url) := by
        rw [due, if_pos hfilled, hread]
        rfl
      have hother : ∀ {v v' : Variable} {name name' : String}, v ≠ v' →
          v.key name ≠ v'.key name' := fun hne heq => hne (key_injective heq).1
      by_cases hname : envName e.1 = name
      · subst hname
        rw [if_pos rfl, hdue]
        cases v with
        | url =>
            rw [OrderedMap.get?_set_ne _ _ (hother Variable.noConfusion), OrderedMap.get?_set_self]
            rfl
        | fqdn =>
            rw [OrderedMap.get?_set_self]
            rfl
      · have hkey : ∀ v' : Variable, v.key name ≠ v'.key (envName e.1) :=
          fun v' heq => hname (key_injective heq).2.symm
        rw [if_neg hname, OrderedMap.get?_set_ne _ _ (hkey _), OrderedMap.get?_set_ne _ _ (hkey _)]

/-- What a variable holds after an entry. -/
theorem held_domainTurn {service : ParsedService} {rows rows' : Rows} {e : String × DomainEntry}
    (h : domainTurn readUrl service.name rows e = .ok rows') (v : Variable) (name : String) :
    (rows'.get? (v.key name)).join =
      (writes readUrl v service name e).getD (rows.get? (v.key name)).join := by
  rw [writes]
  by_cases hfilled : filled e.2.domain = true
  · rw [get?_domainTurn_filled hfilled h, if_pos hfilled]
    split <;> rfl
  · rw [if_neg hfilled]
    rw [Bool.not_eq_true] at hfilled
    rw [get?_domainTurn_blank hfilled h]
    split
    · cases rows.get? (v.key name) <;> rfl
    · rfl

/-- The last write of a turn stays. -/
theorem held_foldlM_domainTurn {service : ParsedService} {l : List (String × DomainEntry)}
    {rows rows' : Rows} (h : l.foldlM (domainTurn readUrl service.name) rows = .ok rows')
    (v : Variable) (name : String) :
    (rows'.get? (v.key name)).join =
      lastWrite (writes readUrl v service name) l (rows.get? (v.key name)).join := by
  induction l generalizing rows with
  | nil =>
      rw [← Except.ok.inj h]
      rfl
  | cons e l ih =>
      rw [List.foldlM_cons] at h
      obtain ⟨rows₁, hfirst, hrest⟩ := bind_eq_ok.mp h
      rw [ih hrest, held_domainTurn hfirst, lastWrite_cons]

/-- Without a filled entry for it, a variable is only cleared. -/
theorem get?_foldlM_domainTurn_blank {service : ParsedService} {l : List (String × DomainEntry)}
    {rows rows' : Rows} (h : l.foldlM (domainTurn readUrl service.name) rows = .ok rows')
    {name : String} (hnone : ∀ e ∈ l, filled e.2.domain = true → envName e.1 ≠ name)
    (v : Variable) :
    rows'.get? (v.key name) =
      if clears service name && l.any (fun e => !filled e.2.domain) then
        (rows.get? (v.key name)).map fun _ => none
      else rows.get? (v.key name) := by
  induction l generalizing rows with
  | nil =>
      rw [← Except.ok.inj h]
      simp
  | cons e l ih =>
      rw [List.foldlM_cons] at h
      obtain ⟨rows₁, hfirst, hrest⟩ := bind_eq_ok.mp h
      rw [ih hrest fun e' he' => hnone e' (List.mem_cons_of_mem _ he')]
      by_cases hfilled : filled e.2.domain = true
      · rw [get?_domainTurn_filled hfilled hfirst,
          if_neg (hnone e (List.mem_cons_self ..) hfilled), List.any_cons, hfilled,
          Bool.not_true, Bool.false_or]
      · rw [Bool.not_eq_true] at hfilled
        rw [get?_domainTurn_blank hfilled hfirst, List.any_cons, hfilled, Bool.not_false,
          Bool.true_or, Bool.and_true]
        cases clears service name with
        | false => simp
        | true => cases rows.get? (v.key name) <;> simp

theorem get?_askTurn (asked : List (String × Option String)) (rows : Rows) (key : String) :
    (asked.foldl askTurn rows).get? key = (rows.get? key).or (asked.lookup key) := by
  induction asked generalizing rows with
  | nil => cases h : rows.get? key <;> simp [h]
  | cons a asked ih =>
      rw [List.foldl_cons, ih, askTurn, List.lookup_cons]
      cases hrow : rows.get? a.1 with
      | some value =>
          by_cases hkey : key = a.1
          · subst hkey
            rw [hrow]
            rfl
          · rw [beq_false_of_ne hkey]
      | none =>
          by_cases hkey : key = a.1
          · subst hkey
            rw [OrderedMap.get?_set_self, hrow, beq_self_eq_true]
            rfl
          · rw [OrderedMap.get?_set_ne _ _ hkey, beq_false_of_ne hkey]

/-! ## One service and all of them -/

/-- `Char.toUpper` makes no hyphen or dot, and leaves the underscore. -/
theorem toUpper_eq_iff {d : Char} (hd : ¬ ('A'.val ≤ d.val ∧ d.val ≤ 'Z'.val))
    (hd' : ¬ ('a'.val ≤ d.val ∧ d.val ≤ 'z'.val)) (c : Char) : c.toUpper = d ↔ c = d := by
  unfold Char.toUpper
  split
  · next hlower =>
      refine iff_of_false (fun h => hd ?_) fun h => hd' (h ▸ hlower)
      have hval := congrArg Char.val h
      dsimp only at hval
      obtain ⟨hlow, hhigh⟩ := hlower
      rw [← hval]
      simp only [UInt32.le_iff_toNat_le, UInt32.toNat_add, UInt32.toNat_sub] at hlow hhigh ⊢
      have ha : 'a'.val.toNat = 97 := rfl
      have hz : 'z'.val.toNat = 122 := rfl
      have hA : 'A'.val.toNat = 65 := rfl
      have hZ : 'Z'.val.toNat = 90 := rfl
      omega
  · rfl

theorem serviceNameFormatted_eq (name : String) : serviceNameFormatted name = envName name := by
  rw [serviceNameFormatted, envName, strtoupper, strtoupper, normalizeComposeServiceName,
    normalizeComposeServiceName]
  simp only [String.toList_ofList, List.map_map]
  refine congrArg String.ofList (List.map_congr_left fun c _ => ?_)
  have hhyphen := toUpper_eq_iff (d := '-') (by decide) (by decide) c
  have hdot := toUpper_eq_iff (d := '.') (by decide) (by decide) c
  simp only [Function.comp_apply, hhyphen]
  by_cases hc : c = '-'
  · rw [if_pos hc, if_pos hc]
    rfl
  · rw [if_neg hc, if_neg hc]
    by_cases hc' : c = '.'
    · rw [if_pos (hdot.mpr hc'), if_pos hc']
      rfl
    · rw [if_neg (fun h => hc' (hdot.mp h)), if_neg hc']

theorem matchesLike_refl (cs : List Char) : matchesLike cs cs = true := by
  induction cs with
  | nil => rfl
  | cons c cs ih =>
      rw [matchesLike, ih, beq_self_eq_true, Bool.or_true]
      rfl

/-- A blank entry clears the variables of the service whose turn it is. -/
theorem clears_own {service : ParsedService} {name : String}
    (h : envName service.name = name) : clears service name = true := by
  rw [clears, serviceNameFormatted_eq, h]
  exact matchesLike_refl _

/-- A variable keeps no value, without a filled entry for it: what it holds is cleared, and
so is what it is created with. -/
structure Cleared (name key : String) (held : Option (Option String))
    (services : List ParsedService) : Prop where
  there : ∀ text, held = some (some text) → ∃ s ∈ services, clears s name = true
  asked : held = none → ∀ before s after text, services = before ++ s :: after →
    (∀ s' ∈ before, s'.asked.lookup key = none) → s.asked.lookup key = some (some text) →
      ∃ s' ∈ s :: after, clears s' name = true

theorem cleared_nil {name key : String} {held : Option (Option String)} :
    Cleared name key held [] ↔ held.join = none := by
  constructor
  · intro h
    rcases held with - | - | text
    · rfl
    · rfl
    · obtain ⟨s, hs, -⟩ := h.there text rfl
      cases hs
  · intro h
    refine ⟨fun text hheld => ?_, fun _ before s after _ hsplit => ?_⟩
    · rw [hheld] at h
      cases h
    · cases before <;> cases hsplit

/-- What holds nothing does not come to hold anything. -/
theorem cleared_some_none {name key : String} {services : List ParsedService} :
    Cleared name key (some none) services :=
  ⟨nofun, nofun⟩

/-- What a variable holds after a turn. -/
def heldAfter (name key : String) (held : Option (Option String)) (service : ParsedService) :
    Option (Option String) :=
  if clears service name then (held.or (service.asked.lookup key)).map fun _ => none
  else held.or (service.asked.lookup key)

theorem cleared_cons {name key : String} {held : Option (Option String)} {s : ParsedService}
    {l : List ParsedService} :
    Cleared name key held (s :: l) ↔ Cleared name key (heldAfter name key held s) l := by
  have hvalue : ∀ text, (∃ s' ∈ s :: l, clears s' name = true) ↔
      Cleared name key (if clears s name then some none else some (some text)) l := by
    intro text
    split
    · next hclears =>
        exact iff_of_true ⟨s, List.mem_cons_self .., hclears⟩ cleared_some_none
    · next hclears =>
        constructor
        · rintro ⟨s', _ | ⟨_, hs'⟩, hclears'⟩
          · exact absurd hclears' hclears
          · exact ⟨fun _ _ => ⟨s', hs', hclears'⟩, nofun⟩
        · intro h
          obtain ⟨s', hs', hclears'⟩ := h.there text rfl
          exact ⟨s', List.mem_cons_of_mem _ hs', hclears'⟩
  rcases held with - | - | text
  · cases hlookup : s.asked.lookup key with
    | none =>
        -- the variable is not there yet, and is not created in this turn
        have hafter : heldAfter name key none s = none := by
          rw [heldAfter, hlookup]
          exact ite_self none
        rw [hafter]
        constructor
        · intro h
          refine ⟨nofun, fun _ before s' after text hsplit hbefore hs' => ?_⟩
          refine h.asked rfl (s :: before) s' after text (by rw [hsplit]; rfl) ?_ hs'
          rintro s'' (_ | ⟨_, hs''⟩)
          · exact hlookup
          · exact hbefore s'' hs''
        · intro h
          refine ⟨nofun, fun _ before s' after text hsplit hbefore hs' => ?_⟩
          cases before with
          | nil =>
              obtain ⟨rfl, rfl⟩ := List.cons.inj hsplit
              rw [hlookup] at hs'
              cases hs'
          | cons s'' before =>
              exact h.asked rfl before s' after text (List.cons.inj hsplit).2
                (fun x hx => hbefore x (List.mem_cons_of_mem _ hx)) hs'
    | some value =>
        have hfirst : ∀ before s' after, s :: l = before ++ s' :: after →
            (∀ x ∈ before, x.asked.lookup key = none) → before = [] := by
          intro before s' after hsplit hbefore
          cases before with
          | nil => rfl
          | cons x before =>
              obtain ⟨rfl, -⟩ := List.cons.inj hsplit
              exact absurd (hbefore s (List.mem_cons_self ..)) (by rw [hlookup]; nofun)
        cases value with
        | none =>
            have hafter : heldAfter name key none s = some none := by
              rw [heldAfter, hlookup]
              exact ite_self (some none)
            rw [hafter]
            refine iff_of_true ⟨nofun, fun _ before s' after text hsplit hbefore hs' => ?_⟩
              cleared_some_none
            obtain rfl := hfirst before s' after hsplit hbefore
            obtain ⟨rfl, -⟩ := List.cons.inj hsplit
            rw [hlookup] at hs'
            cases hs'
        | some text =>
            have hafter : heldAfter name key none s =
                if clears s name then some none else some (some text) := by
              rw [heldAfter, hlookup]
              rfl
            rw [hafter, ← hvalue text]
            constructor
            · exact fun h => h.asked rfl [] s l text rfl nofun hlookup
            · intro h
              refine ⟨nofun, fun _ before s' after _ hsplit hbefore _ => ?_⟩
              obtain rfl := hfirst before s' after hsplit hbefore
              obtain ⟨rfl, rfl⟩ := List.cons.inj hsplit
              exact h
  · have hafter : heldAfter name key (some none) s = some none := ite_self (some none)
    rw [hafter]
    exact iff_of_true cleared_some_none cleared_some_none
  · have hafter : heldAfter name key (some (some text)) s =
        if clears s name then some none else some (some text) := rfl
    rw [hafter, ← hvalue text]
    exact ⟨fun h => h.there text rfl, fun h => ⟨fun _ _ => h, nofun⟩⟩

theorem get?_serviceTurn_blank {domains : ComposeDomains} {service : ParsedService}
    {rows rows' : Rows} (h : serviceTurn readUrl domains rows service = .ok rows') {name : String}
    (hnone : ∀ e ∈ domains.entries, filled e.2.domain = true → envName e.1 ≠ name)
    (hblank : ∃ e ∈ domains.entries, filled e.2.domain = false) (v : Variable) :
    rows'.get? (v.key name) = heldAfter name (v.key name) (rows.get? (v.key name)) service := by
  have hany : domains.entries.any (fun e => !filled e.2.domain) = true := by
    obtain ⟨e, he, hfilled⟩ := hblank
    exact List.any_eq_true.mpr ⟨e, he, by rw [hfilled]; rfl⟩
  rw [get?_foldlM_domainTurn_blank h hnone, hany, Bool.and_true, get?_askTurn, heldAfter]

theorem held_parseServices_blank {domains : ComposeDomains} {services : List ParsedService}
    {rows rows' : Rows} (h : parseServices readUrl domains services rows = .ok rows')
    {name : String}
    (hnone : ∀ e ∈ domains.entries, filled e.2.domain = true → envName e.1 ≠ name)
    (hblank : ∃ e ∈ domains.entries, filled e.2.domain = false) (v : Variable) :
    (rows'.get? (v.key name)).join = none ↔
      Cleared name (v.key name) (rows.get? (v.key name)) services := by
  induction services generalizing rows with
  | nil =>
      rw [cleared_nil, ← Except.ok.inj h]
  | cons s services ih =>
      rw [parseServices, List.foldlM_cons] at h
      obtain ⟨rows₁, hfirst, hrest⟩ := bind_eq_ok.mp h
      rw [ih hrest, cleared_cons, get?_serviceTurn_blank hfirst hnone hblank]

/-- Where an entry is written to a variable at all, the last service and the last entry to
write in its turn decide. -/
theorem held_parseServices_filled {domains : ComposeDomains} {services : List ParsedService}
    {s : ParsedService} {rows rows' : Rows}
    (h : parseServices readUrl domains (services ++ [s]) rows = .ok rows')
    {e : String × DomainEntry} (he : e ∈ domains.entries) (hfilled : filled e.2.domain = true)
    (v : Variable) :
    ∃ front last back, domains.entries = front ++ last :: back ∧
      writes readUrl v s (envName e.1) last = some (rows'.get? (v.key (envName e.1))).join ∧
      ∀ x ∈ back, writes readUrl v s (envName e.1) x = none := by
  rw [parseServices, List.foldlM_append] at h
  obtain ⟨rows₁, -, hlast⟩ := bind_eq_ok.mp h
  rw [List.foldlM_cons] at hlast
  obtain ⟨rows₂, hturn, hrest⟩ := bind_eq_ok.mp hlast
  obtain rfl : rows₂ = rows' := Except.ok.inj hrest
  rw [held_foldlM_domainTurn hturn]
  refine lastWrite_split ⟨e, he, ?_⟩
  rw [writes, if_pos hfilled, if_pos rfl]
  nofun

theorem exists_domainTurn_ok {serviceName : String} (rows : Rows) (e : String × DomainEntry) :
    (∃ rows', domainTurn readUrl serviceName rows e = .ok rows') ↔
      (filled e.2.domain = true → ∃ url, readUrl (firstDomain e.2.domain) = .ok url) := by
  rw [domainTurn]
  split
  · next hfilled =>
      cases readUrl (firstDomain e.2.domain) with
      | error err => exact iff_of_false nofun fun h => nomatch h hfilled
      | ok url => exact iff_of_true ⟨_, rfl⟩ fun _ => ⟨url, rfl⟩
  · next hblank => exact iff_of_true ⟨_, rfl⟩ fun hfilled => absurd hfilled hblank

theorem exists_parseServices_ok {domains : ComposeDomains} {services : List ParsedService}
    (rows : Rows) :
    (∃ rows', parseServices readUrl domains services rows = .ok rows') ↔
      ∀ s ∈ services, ∀ e ∈ domains.entries, filled e.2.domain = true →
        ∃ url, readUrl (firstDomain e.2.domain) = .ok url :=
  exists_foldlM_eq_ok (P := fun _ => _)
    (fun _ _ => exists_foldlM_eq_ok exists_domainTurn_ok domains.entries _) services rows

/-! ## Where the variables follow the map -/

/-- No blank entry gets at the variable of another service in the end. -/
structure Settled (readUrl : String → Except String (String × String))
    (domains : ComposeDomains) (services : List ParsedService) (rows : Rows) : Prop where
  readable : ∀ e ∈ domains.entries, filled e.2.domain = true →
    ∃ url, readUrl (firstDomain e.2.domain) = .ok url
  /-- Entries under one name of a variable stand for the same. -/
  agree : ∀ e ∈ domains.entries, ∀ e' ∈ domains.entries, envName e.1 = envName e'.1 →
    ∀ v, due readUrl v e = due readUrl v e'
  /-- In the turn of the last service, after a blank entry that clears a filled one. -/
  again : ∀ s, services.getLast? = some s → ∀ front blank back,
    domains.entries = front ++ blank :: back → filled blank.2.domain = false →
      ∀ e ∈ front, filled e.2.domain = true → clears s (envName e.1) = true →
        ∃ e' ∈ back, filled e'.2.domain = true ∧ envName e'.1 = envName e.1
  /-- No environment creates the variable of a blank service with a value, once the turns
  that clear it are over. -/
  unasked : ∀ e ∈ domains.entries, filled e.2.domain = false → ∀ v : Variable,
    rows.get? (v.key (envName e.1)) = none → ∀ before s after text,
      services = before ++ s :: after →
      (∀ s' ∈ before, s'.asked.lookup (v.key (envName e.1)) = none) →
      s.asked.lookup (v.key (envName e.1)) = some (some text) →
        ∃ s' ∈ s :: after, clears s' (envName e.1) = true

theorem due_filled_ne_none {v : Variable} {e : String × DomainEntry}
    (hread : filled e.2.domain = true → ∃ url, readUrl (firstDomain e.2.domain) = .ok url)
    (hfilled : filled e.2.domain = true) : due readUrl v e ≠ none := by
  obtain ⟨url, hurl⟩ := hread hfilled
  rw [due, if_pos hfilled, hurl]
  nofun

theorem due_blank {v : Variable} {e : String × DomainEntry} (hblank : filled e.2.domain = false) :
    due readUrl v e = none := by
  rw [due, hblank]
  rfl

theorem writes_filled {v : Variable} {s : ParsedService} {e : String × DomainEntry}
    (hfilled : filled e.2.domain = true) :
    writes readUrl v s (envName e.1) e = some (due readUrl v e) := by
  rw [writes, if_pos hfilled, if_pos rfl]

section

variable {domains : ComposeDomains} {services : List ParsedService} {rows rows' : Rows}

theorem follows_agree (h : Follows readUrl domains rows') {e e' : String × DomainEntry}
    (he : e ∈ domains.entries) (he' : e' ∈ domains.entries) (hname : envName e.1 = envName e'.1)
    (v : Variable) : due readUrl v e = due readUrl v e' := by
  rw [← h e he v, ← h e' he' v, hname]

/-- A blank entry has no filled one beside it. -/
theorem blank_alone
    (hread : ∀ e ∈ domains.entries, filled e.2.domain = true →
      ∃ url, readUrl (firstDomain e.2.domain) = .ok url)
    (hagree : ∀ e ∈ domains.entries, ∀ e' ∈ domains.entries, envName e.1 = envName e'.1 →
      ∀ v, due readUrl v e = due readUrl v e')
    {e : String × DomainEntry} (he : e ∈ domains.entries) (hblank : filled e.2.domain = false) :
    ∀ e' ∈ domains.entries, filled e'.2.domain = true → envName e'.1 ≠ envName e.1 := by
  intro e' he' hfilled hname
  refine due_filled_ne_none (v := .url) (hread e' he') hfilled ?_
  rw [hagree e' he' e he hname, due_blank hblank]

/-- The environments are all that a blank service's variable depends on: its own turn clears
what was there before. -/
theorem cleared_iff {name key : String} {held : Option (Option String)}
    (hown : ∃ s ∈ services, envName s.name = name) :
    Cleared name key held services ↔ (held = none → ∀ before s after text,
      services = before ++ s :: after → (∀ s' ∈ before, s'.asked.lookup key = none) →
        s.asked.lookup key = some (some text) → ∃ s' ∈ s :: after, clears s' name = true) := by
  obtain ⟨s, hs, hname⟩ := hown
  exact ⟨Cleared.asked, fun h => ⟨fun _ _ => ⟨s, hs, clears_own hname⟩, h⟩⟩

theorem held_filled {s : ParsedService}
    (hset : Settled readUrl domains (services ++ [s]) rows)
    (h : parseServices readUrl domains (services ++ [s]) rows = .ok rows')
    {e : String × DomainEntry} (he : e ∈ domains.entries) (hfilled : filled e.2.domain = true)
    (v : Variable) : (rows'.get? (v.key (envName e.1))).join = due readUrl v e := by
  obtain ⟨front, last, back, hsplit, hlast, hback⟩ := held_parseServices_filled h he hfilled v
  have hmem : last ∈ domains.entries := by
    rw [hsplit]
    exact List.mem_append_right _ (List.mem_cons_self ..)
  rw [writes] at hlast
  by_cases hlastFilled : filled last.2.domain = true
  · rw [if_pos hlastFilled] at hlast
    by_cases hname : envName last.1 = envName e.1
    · rw [if_pos hname] at hlast
      rw [← Option.some.inj hlast, hset.agree last hmem e he hname]
    · rw [if_neg hname] at hlast
      cases hlast
  · -- a blank entry has come after this one, and cleared its variable
    rw [if_neg hlastFilled] at hlast
    have hclears : clears s (envName e.1) = true := by
      by_contra hnot
      rw [if_neg hnot] at hlast
      cases hlast
    have hfront : e ∈ front := by
      rw [hsplit] at he
      rcases List.mem_append.mp he with he | he
      · exact he
      · rcases List.mem_cons.mp he with rfl | he
        · exact absurd hfilled hlastFilled
        · exact absurd (hback e he) (by rw [writes_filled hfilled]; nofun)
    rw [Bool.not_eq_true] at hlastFilled
    obtain ⟨e', he', hfilled', hname⟩ := hset.again s (List.getLast?_concat ..) front last back
      hsplit hlastFilled e hfront hfilled hclears
    have hwrites := hback e' he'
    rw [← hname, writes_filled hfilled'] at hwrites
    cases hwrites

theorem follows_again {s : ParsedService}
    (hread : ∀ e ∈ domains.entries, filled e.2.domain = true →
      ∃ url, readUrl (firstDomain e.2.domain) = .ok url)
    (h : parseServices readUrl domains (services ++ [s]) rows = .ok rows')
    (hfollows : Follows readUrl domains rows') {front back : List (String × DomainEntry)}
    {blank e : String × DomainEntry} (hsplit : domains.entries = front ++ blank :: back)
    (hblank : filled blank.2.domain = false) (he : e ∈ front) (hfilled : filled e.2.domain = true)
    (hclears : clears s (envName e.1) = true) :
    ∃ e' ∈ back, filled e'.2.domain = true ∧ envName e'.1 = envName e.1 := by
  have hmem : e ∈ domains.entries := by
    rw [hsplit]
    exact List.mem_append_left _ he
  obtain ⟨front', last, back', hsplit', hlast, hback⟩ :=
    held_parseServices_filled h hmem hfilled .url
  rw [hfollows e hmem .url] at hlast
  have hfilledLast : filled last.2.domain = true ∧ envName last.1 = envName e.1 := by
    rw [writes] at hlast
    split at hlast
    · next hfilledLast =>
        split at hlast
        · next hname => exact ⟨hfilledLast, hname⟩
        · cases hlast
    · exact absurd (Option.some.inj hlast).symm (due_filled_ne_none (hread e hmem) hfilled)
  have hwrites : writes readUrl .url s (envName e.1) blank = some none := by
    rw [writes, hblank, if_neg Bool.false_ne_true, if_pos hclears]
  refine ⟨last, ?_, hfilledLast⟩
  -- the blank entry writes, so it is not after the last that does
  rw [hsplit] at hsplit'
  rcases List.append_eq_append_iff.mp hsplit' with ⟨mid, rfl, hmid⟩ | ⟨mid, rfl, hmid⟩
  · cases mid with
    | nil =>
        obtain ⟨rfl, -⟩ := List.cons.inj hmid
        rw [hblank] at hfilledLast
        cases hfilledLast.1
    | cons x mid =>
        obtain ⟨-, rfl⟩ := List.cons.inj hmid
        exact List.mem_append_right _ (List.mem_cons_self ..)
  · cases mid with
    | nil =>
        obtain ⟨rfl, -⟩ := List.cons.inj hmid
        rw [hblank] at hfilledLast
        cases hfilledLast.1
    | cons x mid =>
        obtain ⟨-, rfl⟩ := List.cons.inj hmid
        have := hback blank (List.mem_append_right _ (List.mem_cons_self ..))
        rw [hwrites] at this
        cases this

end

end

/-- The variables follow the map exactly where no other service's turn undoes them. -/
theorem variables_follow_iff (readUrl : String → Except String (String × String))
    (domains : ComposeDomains) (services : List ParsedService) (rows : Rows)
    (hover : ∀ e ∈ domains.entries, ∃ s ∈ services, envName s.name = envName e.1) :
    (∃ rows', parseServices readUrl domains services rows = .ok rows' ∧
      Follows readUrl domains rows') ↔ Settled readUrl domains services rows := by
  constructor
  · rintro ⟨rows', h, hfollows⟩
    have hread : ∀ e ∈ domains.entries, filled e.2.domain = true →
        ∃ url, readUrl (firstDomain e.2.domain) = .ok url := by
      intro e he
      obtain ⟨s, hs, -⟩ := hover e he
      exact (exists_parseServices_ok rows).mp ⟨rows', h⟩ s hs e he
    have hagree : ∀ e ∈ domains.entries, ∀ e' ∈ domains.entries, envName e.1 = envName e'.1 →
        ∀ v, due readUrl v e = due readUrl v e' :=
      fun e he e' he' hname v => follows_agree hfollows he he' hname v
    refine ⟨hread, hagree, ?_, ?_⟩
    · intro s hs front blank back hsplit hblank e he hfilled hclears
      obtain ⟨init, rfl⟩ := List.getLast?_eq_some_iff.mp hs
      exact follows_again hread h hfollows hsplit hblank he hfilled hclears
    · intro e he hblank v
      refine (cleared_iff (hover e he)).mp ?_
      refine (held_parseServices_blank h (blank_alone hread hagree he hblank)
        ⟨e, he, hblank⟩ v).mp ?_
      rw [hfollows e he v, due_blank hblank]
  · intro hset
    obtain ⟨rows', h⟩ := (exists_parseServices_ok rows).mpr fun s _ => hset.readable
    refine ⟨rows', h, fun e he v => ?_⟩
    by_cases hfilled : filled e.2.domain = true
    · obtain ⟨init, s, rfl⟩ : ∃ init s, services = init ++ [s] := by
        obtain ⟨s, hs, -⟩ := hover e he
        exact ⟨_, _, (List.dropLast_append_getLast (List.ne_nil_of_mem hs)).symm⟩
      exact held_filled hset h he hfilled v
    · rw [Bool.not_eq_true] at hfilled
      rw [due_blank hfilled]
      refine (held_parseServices_blank h (blank_alone hset.readable hset.agree he hfilled)
        ⟨e, he, hfilled⟩ v).mpr ?_
      exact (cleared_iff (hover e he)).mpr (hset.unasked e he hfilled v)

/-! ## Two services -/

def sampleUrl (text : String) : Except String (String × String) :=
  .ok (text, String.ofList (text.toList.drop 8))

def sampleApp : ParsedService := ⟨"app", rfl, []⟩

def sampleWeb : ParsedService := ⟨"web", rfl, []⟩

/-- The blank entry comes first: its clearing is made good. -/
def webLast : ComposeDomains :=
  ⟨[("app", .bare none), ("web", .bare (some "https://a.example.com"))], by decide⟩

def webFirst : ComposeDomains :=
  ⟨[("web", .bare (some "https://a.example.com")), ("app", .bare none)], by decide⟩

theorem webLast_settled : Settled sampleUrl webLast [sampleApp, sampleWeb] .empty where
  readable _ _ _ := ⟨_, rfl⟩
  agree := by
    rintro e (_ | ⟨_, _ | ⟨_, ⟨⟩⟩⟩) e' (_ | ⟨_, _ | ⟨_, ⟨⟩⟩⟩) hname v
    · rfl
    · exact absurd hname (by decide)
    · exact absurd hname (by decide)
    · rfl
  again := by
    intro s _ front blank back hsplit hblank e he hfilled _
    rcases front with - | ⟨x, - | ⟨y, front⟩⟩
    · cases he
    · obtain ⟨rfl, -⟩ := List.cons.inj (List.cons.inj hsplit).2
      cases hblank
    · have hrest := (List.cons.inj (List.cons.inj hsplit).2).2
      cases front <;> cases hrest
  unasked := by
    intro e _ _ v _ before s after text hsplit _ hasked
    have hs : s ∈ [sampleApp, sampleWeb] := by
      rw [hsplit]
      exact List.mem_append_right _ (List.mem_cons_self ..)
    rcases hs with _ | ⟨_, _ | ⟨_, ⟨⟩⟩⟩ <;> cases hasked

theorem webLast_follows :
    ∃ rows', parseServices sampleUrl webLast [sampleApp, sampleWeb] .empty = .ok rows' ∧
      Follows sampleUrl webLast rows' :=
  (variables_follow_iff sampleUrl webLast [sampleApp, sampleWeb] .empty (by
    rintro e (_ | ⟨_, _ | ⟨_, ⟨⟩⟩⟩)
    · exact ⟨sampleApp, List.mem_cons_self .., rfl⟩
    · exact ⟨sampleWeb, List.mem_cons_of_mem _ (List.mem_cons_self ..), rfl⟩)).mpr webLast_settled

/-- In the turn of `web`, the blank entry of `app` clears the variables of `web`. -/
theorem webFirst_cleared :
    ¬ ∃ rows', parseServices sampleUrl webFirst [sampleApp, sampleWeb] .empty = .ok rows' ∧
      Follows sampleUrl webFirst rows' := by
  rintro ⟨rows', h, hfollows⟩
  have hheld := hfollows _ (List.mem_cons_self ..) .url
  rw [← Except.ok.inj h] at hheld
  revert hheld
  decide

end ServiceVariables

end OnePloy
