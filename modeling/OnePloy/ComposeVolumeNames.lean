import OnePloy.ComposeParser
import OnePloy.Lib.Words

/-!
# Names of the volumes of a compose deployment

A named volume of a compose file becomes a Docker volume with a name of its own:
the uuid of the application or service and a slug of the name, and in the preview
of a pull request a suffix with its number. The slug keeps the letters and digits
of a name, without case, and what separates them becomes one dash.

The parsers here are those of `ComposeParser`, for a preview as well.
-/

namespace OnePloy

open Conc Php

def addPreviewDeploymentSuffix (name : String) (pullRequestId : Nat) : String :=
  if pullRequestId = 0 then name else name ++ "-pr-" ++ toString pullRequestId

/-- What a compose file is parsed for: production, where the number is zero, or a
pull request. -/
structure VolumeDeployment where
  setup : ParserSetup
  pullRequestId : Nat
  /-- `is_preview_suffix_enabled` of the storage with this mount path. -/
  suffixEnabled : Option String → Bool

/-- The state of the loop, and the named volumes with the names given to them. -/
structure NamingScan where
  scan : VolumeScan
  named : List (String × String)

namespace VolumeDeployment

def volumeName (d : VolumeDeployment) (source : String) : String :=
  addPreviewDeploymentSuffix (d.setup.volumeName source) d.pullRequestId

def bindVolume (d : VolumeDeployment) (found : FoundVolume) : Except String Value :=
  if hostSources.contains found.source then OnePloy.bindVolume d.setup found
  else
    let source := replaceLocalSource found.source d.setup.mainDirectory
    let source :=
      if d.suffixEnabled found.target then addPreviewDeploymentSuffix source d.pullRequestId
      else source
    .ok (.string (mountText source (found.target.getD "") found.mode))

def parseVolume (d : VolumeDeployment) (s : NamingScan) (entry : String × Value) :
    Except String NamingScan := do
  let (index, volume) := entry
  let found ← findVolume s.scan.parsedMode volume
  let scan := { s.scan with parsedMode := found.mode }
  if found.kind = "bind" then
    let bind ← d.bindVolume found
    return { s with scan :=
      { scan with volumesParsed := scan.volumesParsed ++ [(index, bind)] } }
  else if found.kind = "volume" then
    if isRemote scan.topLevel found.source then return { s with scan := scan }
    else
      let name := d.volumeName found.source
      let named ← namedVolume name found volume
      return {
        scan := { scan with
          topLevel := putField scan.topLevel name (.map [("name", .string name)])
          volumesParsed := scan.volumesParsed ++ [(index, named)] }
        named := s.named ++ [(found.source, name)] }
  else
    return { s with scan :=
      { scan with volumesParsed := scan.volumesParsed ++ [(index, volume)] } }

def parseServiceVolumes (d : VolumeDeployment) (s : NamingScan) (volumes : Value) :
    Except String (NamingScan × Value) := do
  let s ← (entries volumes).foldlM d.parseVolume
    { s with scan := { s.scan with volumesParsed := [] } }
  return (s, payloadVolumes volumes s.scan.volumesParsed)

def parseServices (d : VolumeDeployment) :
    NamingScan → List Value → Except String (NamingScan × List Value)
  | s, [] => .ok (s, [])
  | s, volumes :: services => do
      let (s, payload) ← d.parseServiceVolumes s volumes
      let (s, payloads) ← d.parseServices s services
      return (s, payload :: payloads)

/-- The named volumes with their names, and the volumes of each service. -/
def parse (d : VolumeDeployment) (compose : Value) :
    Except String (List (String × String) × List Value) := do
  let (s, payloads) ← d.parseServices
    { scan := { parsedMode := none, topLevel := predefinedVolumes compose, volumesParsed := [] }
      named := [] } (volumesOfServices compose)
  return (s.named, payloads)

/-- The names given, none where the file is refused. -/
def named (d : VolumeDeployment) (compose : Value) : List (String × String) :=
  ((d.parse compose).toOption.map Prod.fst).getD []

/-! ## In production -/

theorem addPreviewDeploymentSuffix_zero (name : String) :
    addPreviewDeploymentSuffix name 0 = name := if_pos rfl

/-- Production is parsed as in `ComposeParser`. -/
theorem parseVolume_production {d : VolumeDeployment} (h : d.pullRequestId = 0) (s : NamingScan)
    (entry : String × Value) :
    (d.parseVolume s entry).map (·.scan) = OnePloy.parseVolume d.setup s.scan entry := by
  have hbind : ∀ found, d.bindVolume found = OnePloy.bindVolume d.setup found := by
    intro found
    rw [bindVolume, h]
    split
    · rfl
    · next hhost =>
        rw [OnePloy.bindVolume, if_neg hhost]
        simp only [addPreviewDeploymentSuffix_zero, ite_self]
  have hname : ∀ source, d.volumeName source = d.setup.volumeName source := fun source => by
    rw [volumeName, h, addPreviewDeploymentSuffix_zero]
  obtain ⟨index, volume⟩ := entry
  rw [parseVolume, OnePloy.parseVolume]
  simp only [hbind, hname]
  cases findVolume s.scan.parsedMode volume with
  | error e => rfl
  | ok found =>
      simp only [bind, Except.bind]
      split
      · cases OnePloy.bindVolume d.setup found <;> rfl
      · split
        · split
          · rfl
          · cases namedVolume (d.setup.volumeName found.source) found volume <;> rfl
        · rfl

theorem parseServices_production {d : VolumeDeployment} (h : d.pullRequestId = 0)
    (services : List Value) (s : NamingScan) :
    (d.parseServices s services).map Prod.snd = OnePloy.parseServices d.setup s.scan services := by
  induction services generalizing s with
  | nil => rfl
  | cons volumes services ih =>
      rw [parseServices, OnePloy.parseServices, parseServiceVolumes, OnePloy.parseServiceVolumes,
        ← foldlM_map (g := NamingScan.scan) (parseVolume_production h) (entries volumes)
          { s with scan := { s.scan with volumesParsed := [] } }]
      cases hloop : (entries volumes).foldlM d.parseVolume
          { s with scan := { s.scan with volumesParsed := [] } } with
      | error e => rfl
      | ok s' =>
          have hrest := ih s'
          simp only [bind, Except.bind, Except.map, pure, Except.pure] at hrest ⊢
          rw [← hrest]
          cases d.parseServices s' services <;> rfl

/-- What is deployed in production is what `composeParser` makes of the file. -/
theorem parse_production {d : VolumeDeployment} (h : d.pullRequestId = 0) (compose : Value) :
    (d.parse compose).map Prod.snd = composeParser d.setup compose := by
  rw [parse, composeParser, ← parseServices_production h (volumesOfServices compose)
    { scan := { parsedMode := none, topLevel := predefinedVolumes compose, volumesParsed := [] }
      named := [] }]
  simp only [bind, Except.bind]
  cases d.parseServices _ (volumesOfServices compose) <;> rfl

/-! ## The names given -/

/-- Every volume that is named has the name of its source. -/
def NamesKept (d : VolumeDeployment) (s : NamingScan) : Prop :=
  ∀ v ∈ s.named, v.2 = d.volumeName v.1

theorem parseVolume_keeps {d : VolumeDeployment} {s s' : NamingScan} {entry : String × Value}
    (hkept : NamesKept d s) (h : d.parseVolume s entry = .ok s') : NamesKept d s' := by
  obtain ⟨index, volume⟩ := entry
  rw [parseVolume] at h
  obtain ⟨found, -, h⟩ := bind_eq_ok.mp h
  split at h
  · obtain ⟨bind, -, h⟩ := bind_eq_ok.mp h
    exact Except.ok.inj h ▸ hkept
  · split at h
    · dsimp only at h
      split at h
      · exact Except.ok.inj h ▸ hkept
      · obtain ⟨named, -, h⟩ := bind_eq_ok.mp h
        rw [← Except.ok.inj h]
        intro v hv
        rcases List.mem_append.mp hv with hv | hv
        · exact hkept v hv
        · rw [List.mem_singleton.mp hv]
    · exact Except.ok.inj h ▸ hkept

theorem parseServices_keeps {d : VolumeDeployment} {services : List Value} {s s' : NamingScan}
    {payloads : List Value} (hkept : NamesKept d s)
    (h : d.parseServices s services = .ok (s', payloads)) : NamesKept d s' := by
  induction services generalizing s s' payloads with
  | nil => exact (Prod.mk.inj (Except.ok.inj h)).1 ▸ hkept
  | cons volumes services ih =>
      obtain ⟨⟨s₁, payload⟩, hservice, h⟩ := bind_eq_ok.mp h
      obtain ⟨⟨s₂, rest⟩, hrest, h⟩ := bind_eq_ok.mp h
      obtain ⟨s₀, hloop, hservice⟩ := bind_eq_ok.mp hservice
      have hkept₀ : NamesKept d s₀ := by
        refine foldlM_induct (P := NamesKept d) (fun _ _ _ hk hturn => parseVolume_keeps hk hturn)
          ?_ hloop
        exact hkept
      rw [← (Prod.mk.inj (Except.ok.inj h)).1]
      refine ih ?_ hrest
      exact (Prod.mk.inj (Except.ok.inj hservice)).1 ▸ hkept₀

theorem name_of_named {d : VolumeDeployment} {compose : Value} :
    ∀ v ∈ d.named compose, v.2 = d.volumeName v.1 := by
  rw [named]
  cases hparse : d.parse compose with
  | error e => exact fun _ hv => absurd hv List.not_mem_nil
  | ok result =>
      obtain ⟨⟨s, payloads⟩, hservices, h⟩ := bind_eq_ok.mp hparse
      rw [← Except.ok.inj h]
      exact parseServices_keeps (s := ⟨_, []⟩) (fun _ hv => absurd hv List.not_mem_nil) hservices

end VolumeDeployment

/-! ## When the names are different -/

/-- Letters, digits, underscores, dots and dashes. -/
def IsVolumeName (name : String) : Prop :=
  ∀ c ∈ name.toList, c.isAlphanum = true ∨ c = '_' ∨ c = '.' ∨ c = '-'

/-- Slugs of such names, as `Str::slug` makes them. -/
def ParserSetup.SlugsNames (setup : ParserSetup) : Prop :=
  ∀ name, IsVolumeName name → setup.slug name = String.ofList (slugChars name.toList)

/-- What dashes and underscores separate in a name, without case and dots. -/
def volumeWords (name : String) : List (List Char) := slugWords name.toList

/-- The words that the suffix of a preview adds. -/
def previewWords (pullRequestId : Nat) : List (List Char) :=
  [['p', 'r'], Nat.toDigits 10 pullRequestId]

/-- The named volumes of production and of every pull request, with their names:
no two are one, and none is one of another deployment. -/
structure VolumesApart (named : Nat → List (String × String)) : Prop where
  within : ∀ p, ∀ v ∈ named p, ∀ w ∈ named p, v.1 ≠ w.1 → v.2 ≠ w.2
  across : ∀ p q, p ≠ q → ∀ v ∈ named p, ∀ w ∈ named q, v.2 ≠ w.2

/-- What their names in the compose files must not be: the same words, or for a
volume of production those of a volume in a preview and its suffix. -/
structure WordsApart (used : Nat → List String) : Prop where
  within : ∀ p, ∀ n ∈ used p, ∀ m ∈ used p, n ≠ m → volumeWords n ≠ volumeWords m
  production : ∀ p, p ≠ 0 → ∀ n ∈ used p, ∀ m ∈ used 0, volumeWords n ≠ [] →
    volumeWords m ≠ volumeWords n ++ previewWords p

/-- The text of the suffix. -/
def suffixChars (pullRequestId : Nat) : List Char :=
  if pullRequestId = 0 then [] else "-pr-".toList ++ Nat.toDigits 10 pullRequestId

theorem dash_notMem_toDigits (n : Nat) : '-' ∉ Nat.toDigits 10 n :=
  fun h => absurd (isDigit_of_mem_toDigits h) (by decide)

theorem addPreviewDeploymentSuffix_toList (name : String) (p : Nat) :
    (addPreviewDeploymentSuffix name p).toList = name.toList ++ suffixChars p := by
  rw [addPreviewDeploymentSuffix, suffixChars]
  split
  · rw [List.append_nil]
  · rw [String.toList_append, String.toList_append, List.append_assoc]
    exact congrArg _ (congrArg _ Nat.toList_repr)

section Names

variable {setup : ParserSetup} {n m : String} {p q : Nat}

theorem volumeName_eq_iff (hslug : setup.SlugsNames) (hn : IsVolumeName n) (hm : IsVolumeName m)
    {e e' : Option String → Bool} :
    (VolumeDeployment.mk setup p e).volumeName n = (VolumeDeployment.mk setup q e').volumeName m ↔
      slugChars n.toList ++ suffixChars p = slugChars m.toList ++ suffixChars q := by
  have htext : ∀ (e : Option String → Bool) {name : String} (id : Nat), IsVolumeName name →
      ((VolumeDeployment.mk setup id e).volumeName name).toList =
        (setup.uuid ++ "_").toList ++ (slugChars name.toList ++ suffixChars id) := by
    intro e name id hname
    rw [VolumeDeployment.volumeName, addPreviewDeploymentSuffix_toList, ParserSetup.volumeName,
      hslug name hname, String.toList_append, String.toList_ofList, List.append_assoc]
  rw [← String.toList_inj, htext e p hn, htext e' q hm, List.append_right_inj]

/-- Two previews never share a name. -/
theorem suffix_ne (hp : p ≠ 0) (hq : q ≠ 0) (hne : p ≠ q) (a b : List Char) :
    a ++ suffixChars p ≠ b ++ suffixChars q := by
  intro h
  have hsplit : ∀ (a : List Char) {id : Nat}, id ≠ 0 →
      a ++ suffixChars id = (a ++ "-pr".toList) ++ '-' :: Nat.toDigits 10 id := by
    intro a id hid
    rw [suffixChars, if_neg hid, List.append_assoc]
    rfl
  rw [hsplit a hp, hsplit b hq] at h
  have hpieces := congrArg (pieces '-') h
  rw [pieces_append_sep, pieces_append_sep, pieces_of_notMem (dash_notMem_toDigits p),
    pieces_of_notMem (dash_notMem_toDigits q)] at hpieces
  have hdigits := (List.append_inj' hpieces rfl).2
  exact hne (toDigits_injective (List.cons.inj hdigits).1)

/-- When a volume of production has the name of one in a preview. -/
theorem slug_suffix_eq_iff (hp : p ≠ 0) (a b : List Char) :
    slugChars a ++ suffixChars p = slugChars b ↔
      slugWords a ≠ [] ∧ slugWords b = slugWords a ++ previewWords p := by
  have hsuffix : suffixChars p = '-' :: (['p', 'r'] ++ '-' :: Nat.toDigits 10 p) := by
    rw [suffixChars, if_neg hp]
    rfl
  constructor
  · intro h
    refine ⟨fun hnil => ?_, ?_⟩
    · rw [slugChars_eq, hnil, hsuffix] at h
      exact (isJoined_slugChars b).head (h ▸ rfl)
    · rw [← words_slugChars b, ← h, hsuffix, words_append_sep, words_slugChars, words_append_sep,
        words_of_word (w := ['p', 'r']) (by decide) (by decide),
        words_of_word (dash_notMem_toDigits p) Nat.toDigits_ne_nil]
      rfl
  · rintro ⟨hne, hwords⟩
    have happ : slugWords a ++ previewWords p =
        (slugWords a ++ [['p', 'r']]) ++ [Nat.toDigits 10 p] := by
      rw [List.append_assoc]
      rfl
    rw [slugChars_eq b, hwords, happ, intercalate_concat _ (by simp), intercalate_concat _ hne,
      ← slugChars_eq, hsuffix, List.append_assoc]
    rfl

end Names

/-- What is deployed of one application or service: the compose file of production,
and of every pull request. -/
structure ComposeDeployments where
  setup : ParserSetup
  slugsNames : setup.SlugsNames
  suffixEnabled : Nat → Option String → Bool
  compose : Nat → Value

namespace ComposeDeployments

def deployment (c : ComposeDeployments) (p : Nat) : VolumeDeployment :=
  ⟨c.setup, p, c.suffixEnabled p⟩

/-- The named volumes of each deployment, with their names. -/
def named (c : ComposeDeployments) (p : Nat) : List (String × String) :=
  (c.deployment p).named (c.compose p)

/-- Different volumes get different names, also in different deployments, if and only
if no two of one file have the same words, and none of production those of a
volume in a preview and its suffix. -/
theorem volumes_apart_iff (c : ComposeDeployments)
    (hnames : ∀ p, ∀ v ∈ c.named p, IsVolumeName v.1) :
    VolumesApart c.named ↔ WordsApart fun p => (c.named p).map Prod.fst := by
  have hname : ∀ {p v}, v ∈ c.named p → v.2 = (c.deployment p).volumeName v.1 :=
    fun hv => VolumeDeployment.name_of_named _ hv
  have heq : ∀ {p q v w}, v ∈ c.named p → w ∈ c.named q →
      (v.2 = w.2 ↔ slugChars v.1.toList ++ suffixChars p = slugChars w.1.toList ++ suffixChars q) :=
    fun {p q v w} hv hw => by
      rw [hname hv, hname hw]
      exact volumeName_eq_iff c.slugsNames (hnames p v hv) (hnames q w hw)
  constructor
  · rintro ⟨hwithin, hacross⟩
    constructor
    · intro p n hn m hm hne hwords
      obtain ⟨v, hv, rfl⟩ := List.mem_map.mp hn
      obtain ⟨w, hw, rfl⟩ := List.mem_map.mp hm
      exact hwithin p v hv w hw hne ((heq hv hw).mpr (by rw [slugChars_inj.mpr hwords]))
    · intro p hp n hn m hm hne hwords
      obtain ⟨v, hv, rfl⟩ := List.mem_map.mp hn
      obtain ⟨w, hw, rfl⟩ := List.mem_map.mp hm
      refine hacross p 0 hp v hv w hw ((heq hv hw).mpr ?_)
      rw [(slug_suffix_eq_iff hp _ _).mpr ⟨hne, hwords⟩]
      exact (List.append_nil _).symm
  · rintro ⟨hwithin, hproduction⟩
    have hpreview : ∀ {p v w}, p ≠ 0 → v ∈ c.named p → w ∈ c.named 0 → v.2 ≠ w.2 := by
      intro p v w hp hv hw hsame
      have hslug := (heq hv hw).mp hsame
      rw [show suffixChars 0 = [] from rfl, List.append_nil] at hslug
      obtain ⟨hne, hwords⟩ := (slug_suffix_eq_iff hp _ _).mp hslug
      exact hproduction p hp v.1 (List.mem_map_of_mem hv) w.1 (List.mem_map_of_mem hw) hne hwords
    constructor
    · intro p v hv w hw hne hsame
      have hslug := List.append_cancel_right ((heq hv hw).mp hsame)
      exact hwithin p v.1 (List.mem_map_of_mem hv) w.1 (List.mem_map_of_mem hw) hne
        (slugChars_inj.mp hslug)
    · intro p q hpq v hv w hw hsame
      by_cases hp : p = 0
      · subst hp
        exact hpreview hpq.symm hw hv hsame.symm
      · by_cases hq : q = 0
        · subst hq
          exact hpreview hp hv hw hsame
        · exact suffix_ne hp hq hpq _ _ ((heq hv hw).mp hsame)

end ComposeDeployments

/-! ### Two volumes of one service -/

def slugSetup : ParserSetup where
  resource := .application
  uuid := "k3f9x2"
  slug := fun source => String.ofList (slugChars source.toList)
  uuid_plain := by decide +kernel
  slug_plain := by
    intro source hmem
    rw [String.toList_ofList] at hmem
    exact absurd (isSlugChar_of_mem hmem) (by decide)

theorem slugsNames_slugSetup : slugSetup.SlugsNames := fun _ _ => rfl

/-- A service with these volumes, in production alone. -/
def deployedOnce (volumes : List String) : ComposeDeployments where
  setup := slugSetup
  slugsNames := slugsNames_slugSetup
  suffixEnabled := fun _ _ => true
  compose := fun p =>
    if p = 0 then
      .map [("services", .map [("db", .map [("volumes", .list (volumes.map .string))])])]
    else .map []

theorem named_deployedOnce {volumes : List String} {p : Nat} (hp : p ≠ 0) :
    (deployedOnce volumes).named p = [] := by
  have hcompose : (deployedOnce volumes).compose p = .map [] := if_neg hp
  rw [ComposeDeployments.named, hcompose]
  rfl

theorem isVolumeName_of_all {name : String}
    (h : (name.toList.all fun c => c.isAlphanum || c == '_' || c == '.' || c == '-') = true) :
    IsVolumeName name := fun c hc => by
  simpa [or_assoc] using List.all_eq_true.mp h c hc

def apartVolumes : ComposeDeployments := deployedOnce ["pg-data:/pg", "redis-data:/data"]

def foldedVolumes : ComposeDeployments := deployedOnce ["my_data:/pg", "my-data:/data"]

theorem named_apartVolumes : apartVolumes.named 0 =
    [("pg-data", "k3f9x2_pg-data"), ("redis-data", "k3f9x2_redis-data")] := by
  decide +kernel

theorem named_foldedVolumes : foldedVolumes.named 0 =
    [("my_data", "k3f9x2_my-data"), ("my-data", "k3f9x2_my-data")] := by
  decide +kernel

theorem apart_volumes_names :
    VolumesApart apartVolumes.named ↔ WordsApart fun p => (apartVolumes.named p).map Prod.fst := by
  refine ComposeDeployments.volumes_apart_iff apartVolumes fun p v hv => ?_
  by_cases hp : p = 0
  · rw [hp, named_apartVolumes, List.mem_cons, List.mem_singleton] at hv
    rcases hv with rfl | rfl <;> exact isVolumeName_of_all (by decide +kernel)
  · rw [apartVolumes, named_deployedOnce hp] at hv
    cases hv

/-- An underscore and a dash are one to the slug. -/
theorem folded_volumes_shared :
    ¬ ∀ c : ComposeDeployments, (∀ p, ∀ v ∈ c.named p, IsVolumeName v.1) →
      VolumesApart c.named := by
  intro h
  have hnames : ∀ p, ∀ v ∈ foldedVolumes.named p, IsVolumeName v.1 := by
    intro p v hv
    by_cases hp : p = 0
    · rw [hp, named_foldedVolumes, List.mem_cons, List.mem_singleton] at hv
      rcases hv with rfl | rfl <;> exact isVolumeName_of_all (by decide +kernel)
    · rw [foldedVolumes, named_deployedOnce hp] at hv
      cases hv
  have hwithin := (h foldedVolumes hnames).within 0
  rw [named_foldedVolumes] at hwithin
  exact hwithin _ (List.mem_cons_self ..) _ (List.mem_cons_of_mem _ (List.mem_singleton_self _))
    (by decide +kernel) rfl

end OnePloy
