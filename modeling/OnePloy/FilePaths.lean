import OnePloy.ComposeVolumes
import OnePloy.Lib.PathWalk
import OnePloy.Lib.Words

/-!
# Paths under a base directory

`normalizeUnixPath` resolves a path without looking at a file system, and
`confinePathToBase` and `confineFileMountPath` let only those through that stay
in a directory. They refuse what a shell would read as more than a path, trim
the path first, and `confineFileMountPath` has no relative segments at all.

`confinePathToBase` drops the dot of a path that begins with one, which leaves
paths that begin with `./` what they are, and no others.
-/

namespace OnePloy

open Conc Php PathWalk

/-! ## normalizeUnixPath -/

/-- What becomes of `$segments` in the loop. -/
def normalizeSegments (isAbsolute : Bool) :
    List String → List String → Except String (List String)
  | segments, [] => .ok segments
  | segments, segment :: rest =>
      if segment = "" ∨ segment = "." then normalizeSegments isAbsolute segments rest
      else if segment = ".." then
        if segments = [] ∨ segments.getLast? = some ".." then
          if isAbsolute then .error "Invalid path: resolved path escapes the base directory."
          else normalizeSegments isAbsolute (segments ++ [segment]) rest
        else normalizeSegments isAbsolute segments.dropLast rest
      else normalizeSegments isAbsolute (segments ++ [segment]) rest

def normalizeUnixPath (path : String) : Except String String := do
  validateShellSafePath path "path"
  if strContains path "\x00" then .error "Invalid path: contains null byte."
  else if strContains path "\\" then
    .error "Invalid path: backslash directory separators are not allowed."
  else do
    let isAbsolute := strStartsWith path "/"
    let segments ← normalizeSegments isAbsolute [] (explode '/' path)
    let normalized := implode '/' segments
    if isAbsolute then .ok (if normalized = "" then "/" else "/" ++ normalized)
    else .ok (if normalized = "" then "." else normalized)

/-! ## confinePathToBase -/

/-- `Str::after`, where what is searched is not empty. -/
def strAfter (subject search : String) : String :=
  match cut search.toList subject.toList with
  | some (_, after) => String.ofList after
  | none => subject

/-- The path that `confinePathToBase` resolves. -/
def pathFromBase (baseDirectory path : String) : String :=
  if strStartsWith path "." then baseDirectory ++ "/" ++ strAfter path "."
  else if !strStartsWith path "/" then baseDirectory ++ "/" ++ path
  else path

/-- The last check of either function. -/
def staysInside (baseDirectory resolvedPath context : String) : Except String String :=
  if resolvedPath ≠ baseDirectory && !strStartsWith resolvedPath (baseDirectory ++ "/") then
    .error ("Invalid " ++ context ++
      ": resolved path must stay inside the resource configuration directory.")
  else .ok resolvedPath

def confinePathToBase (baseDirectory path context : String) : Except String String := do
  let baseDirectory ← normalizeUnixPath baseDirectory
  let resolvedPath ← normalizeUnixPath (pathFromBase baseDirectory (trim path))
  staysInside baseDirectory resolvedPath context

/-! ## confineFileMountPath -/

/-- The segments at which the loop of `validateFileMountPath` does not continue. -/
def isRelativeSegment (segment : String) : Bool :=
  !(segment = "" || (segment ≠ "." && segment ≠ ".."))

section Mount

/- The characters that the framework's `Str::trim` takes off. -/
variable (strTrimmed : Char → Bool)

/-- `str($input)->trim()`. -/
def strTrim (input : String) : String := String.ofList (trimWith strTrimmed input.toList)

/-- `str($input)->trim()->start('/')->replaceMatches('#/+#', '/')`. -/
def mountPathOf (input : String) : String :=
  String.ofList (squeeze '/' ('/' :: (strTrim strTrimmed input).toList.dropWhile (· == '/')))

def validateFileMountPath (input context : String) : Except String String := do
  validateShellSafePath input context
  if strContains input "\x00" then
    .error ("Invalid " ++ context ++ ": contains null byte. " ++
      "Null bytes are not allowed in file mount paths for security reasons.")
  else if strContains input "\\" then
    .error ("Invalid " ++ context ++ ": backslash directory separators are not allowed.")
  else
    let path := mountPathOf strTrimmed input
    let segments := explode '/' (String.ofList (trimWith (· == '/') path.toList))
    if segments.any isRelativeSegment then
      .error ("Invalid " ++ context ++
        ": relative path segments ('.' or '..') are not allowed.")
    else .ok path

def confineFileMountPath (baseDirectory path context : String) : Except String String := do
  let baseDirectory ← normalizeUnixPath baseDirectory
  let mountPath ← validateFileMountPath strTrimmed path context
  let resolvedPath ← normalizeUnixPath (baseDirectory ++ "/" ++ mountPath)
  staysInside baseDirectory resolvedPath context

end Mount

/-! ## What a path says -/

/-- What a segment says to someone who follows the path. -/
def turn (segment : String) : PathWalk.Turn String :=
  if segment = "" ∨ segment = "." then .stay
  else if segment = ".." then .up
  else .down segment

def turns (path : String) : List (PathWalk.Turn String) := (explode '/' path).map turn

/-- What the checks refuse in a path. -/
def refused : List String := dangerousChars.map Prod.fst ++ ["\x00", "\\"]

def isPlain (text : String) : Bool := refused.all fun seq => !strContains text seq

/-- The text of the place that is reached from the root by these names. -/
def absolute (place : List String) : String := "/" ++ implode '/' place

def IsName (segment : String) : Prop := turn segment = .down segment ∧ '/' ∉ segment.toList

/-- A normalised absolute directory other than the root. -/
structure BaseDirectory where
  segments : List String
  segments_ne_nil : segments ≠ []
  isName : ∀ segment ∈ segments, IsName segment

def BaseDirectory.text (base : BaseDirectory) : String := absolute base.segments

/-! ## Segments -/

theorem explode_append (a b : String) :
    explode '/' (a ++ "/" ++ b) = explode '/' a ++ explode '/' b := by
  simp only [explode, String.toList_append, List.append_assoc]
  exact (congrArg _ (pieces_append_sep '/' a.toList b.toList)).trans List.map_append

theorem turns_append (a b : String) : turns (a ++ "/" ++ b) = turns a ++ turns b := by
  simp only [turns, explode_append, List.map_append]

theorem notMem_of_mem_explode {s segment : String} (h : segment ∈ explode '/' s) :
    '/' ∉ segment.toList := by
  obtain ⟨p, hp, rfl⟩ := List.mem_map.mp h
  rw [String.toList_ofList]
  exact notMem_of_mem_pieces hp

theorem turn_of_down {segment name : String} (h : turn segment = .down name) : segment = name := by
  unfold turn at h
  split_ifs at h
  exact PathWalk.Turn.down.inj h

/-- The segments of a place that is not the root. -/
theorem explode_absolute {place : List String} (hne : place ≠ [])
    (hplace : ∀ name ∈ place, '/' ∉ name.toList) :
    explode '/' (absolute place) = "" :: place := by
  have hpieces : pieces '/' (['/'].intercalate (place.map String.toList)) =
      place.map String.toList := by
    refine pieces_intercalate_of_notMem (by simpa using hne) fun l hl => ?_
    obtain ⟨name, hname, rfl⟩ := List.mem_map.mp hl
    exact hplace name hname
  have htext : (absolute place).toList =
      '/' :: ['/'].intercalate (place.map String.toList) := by
    simp [absolute, implode]
  rw [explode, htext, pieces, if_pos rfl, hpieces]
  simp [Function.comp_def]

/-- Following the text of a place leads there. -/
theorem walk_absolute {place : List String} (hplace : ∀ name ∈ place, IsName name)
    (path : List (PathWalk.Turn String)) :
    walk [] (turns (absolute place) ++ path) = walk place path := by
  by_cases hne : place = []
  · subst hne
    rfl
  · have hdown : place.map turn = place.map .down :=
      List.map_congr_left fun name hname => (hplace name hname).1
    rw [turns, explode_absolute hne fun name hname => (hplace name hname).2, List.map_cons, hdown]
    exact walk_down_append [] place path

theorem absolute_injective {place place' : List String} (hplace : ∀ name ∈ place, IsName name)
    (hplace' : ∀ name ∈ place', IsName name) (h : absolute place = absolute place') :
    place = place' := by
  have hwalk := walk_absolute hplace []
  rw [h, walk_absolute hplace' []] at hwalk
  exact (Option.some.inj hwalk).symm

theorem absolute_append {place rest : List String} (hplace : place ≠ []) (hrest : rest ≠ []) :
    absolute (place ++ rest) = absolute place ++ "/" ++ implode '/' rest := by
  have hjoin : ∀ {ls ms : List (List Char)}, ls ≠ [] → ms ≠ [] →
      ['/'].intercalate (ls ++ ms) = ['/'].intercalate ls ++ '/' :: ['/'].intercalate ms := by
    intro ls ms hls hms
    induction ls with
    | nil => exact absurd rfl hls
    | cons l ls ih =>
        obtain ⟨m, ms, rfl⟩ := List.exists_cons_of_ne_nil hms
        cases ls with
        | nil => simp
        | cons k ls =>
            rw [List.cons_append, List.cons_append, intercalate_cons_cons,
              ← List.cons_append, ih (by simp), intercalate_cons_cons]
            simp
  apply String.toList_injective
  have hplaces : place.map String.toList ≠ [] := by simpa using hplace
  have hrests : rest.map String.toList ≠ [] := by simpa using hrest
  simp only [absolute, implode, String.toList_append, String.toList_ofList, List.map_append,
    hjoin hplaces hrests]
  simp

theorem BaseDirectory.startsWith_iff (base : BaseDirectory) {place : List String}
    (hplace : ∀ name ∈ place, IsName name) :
    strStartsWith (absolute place) (base.text ++ "/") = true ↔
      ∃ rest, rest ≠ [] ∧ place = base.segments ++ rest := by
  rw [strStartsWith, List.isPrefixOf_iff_prefix]
  constructor
  · rintro ⟨rest, hrest⟩
    have htext : absolute place = base.text ++ "/" ++ String.ofList rest := by
      apply String.toList_injective
      rw [String.toList_append, String.toList_ofList, hrest]
    have hne : place ≠ [] := by
      rintro rfl
      have hlen := congrArg (·.toList.length) htext
      simp [absolute, implode, BaseDirectory.text] at hlen
    have hexplode := congrArg (explode '/') htext
    rw [explode_absolute hne fun name hname => (hplace name hname).2, explode_append,
      BaseDirectory.text, explode_absolute base.segments_ne_nil
        fun name hname => (base.isName name hname).2, List.cons_append] at hexplode
    refine ⟨explode '/' (String.ofList rest), ?_, (List.cons.inj hexplode).2⟩
    simpa [explode] using pieces_ne_nil '/' rest
  · rintro ⟨rest, hrest, rfl⟩
    rw [absolute_append base.segments_ne_nil hrest, ← BaseDirectory.text,
      String.toList_append (s := base.text ++ "/")]
    exact List.prefix_append ..

/-- The last check asks whether the place is the base directory or below it. -/
theorem BaseDirectory.staysInside_iff (base : BaseDirectory) {place : List String}
    (hplace : ∀ name ∈ place, IsName name) (context r : String) :
    staysInside base.text (absolute place) context = .ok r ↔
      base.segments <+: place ∧ r = absolute place := by
  have hinside : (absolute place ≠ base.text &&
      !strStartsWith (absolute place) (base.text ++ "/")) = false ↔ base.segments <+: place := by
    rw [Bool.and_eq_false_iff, Bool.not_eq_false', base.startsWith_iff hplace]
    constructor
    · rintro (h | ⟨rest, -, rfl⟩)
      · have heq : absolute place = base.text := by simpa using h
        rw [absolute_injective hplace base.isName heq]
      · exact List.prefix_append ..
    · rintro ⟨rest, rfl⟩
      by_cases hrest : rest = []
      · exact .inl (by simp [hrest, BaseDirectory.text])
      · exact .inr ⟨rest, hrest, rfl⟩
  rw [staysInside]
  split
  · next h => exact iff_of_false nofun fun hr => by rw [hinside.mpr hr.1] at h; cases h
  · next h =>
      rw [Bool.not_eq_true] at h
      rw [Except.ok.injEq, and_iff_right (hinside.mp h)]
      exact eq_comm

/-! ## Resolution -/

/-- A walk passes through names only. -/
theorem isName_of_walk {segments : List String} (hsep : ∀ s ∈ segments, '/' ∉ s.toList) :
    ∀ {place reached : List String}, (∀ name ∈ place, IsName name) →
      walk place (segments.map turn) = some reached → ∀ name ∈ reached, IsName name := by
  induction segments with
  | nil =>
      intro place reached hplace h
      obtain rfl : place = reached := Option.some.inj h
      exact hplace
  | cons segment segments ih =>
      intro place reached hplace h
      have hsep' := fun s hs => hsep s (List.mem_cons_of_mem _ hs)
      rw [List.map_cons] at h
      cases hturn : turn segment with
      | stay =>
          rw [hturn] at h
          exact ih hsep' hplace h
      | up =>
          rw [hturn, walk] at h
          split at h
          · cases h
          · exact ih hsep' (fun name hname => hplace name (List.mem_of_mem_dropLast hname)) h
      | down name =>
          rw [hturn] at h
          obtain rfl := turn_of_down hturn
          refine ih hsep' (fun name hname => ?_) h
          rcases List.mem_append.mp hname with hname | hname
          · exact hplace name hname
          · rw [List.mem_singleton.mp hname]
            exact ⟨hturn, hsep segment (List.mem_cons_self ..)⟩

/-- From the root the loop does what the turns say. -/
theorem normalizeSegments_absolute (rest : List String) {segments : List String}
    (hsegments : ∀ name ∈ segments, IsName name) (hsep : ∀ s ∈ rest, '/' ∉ s.toList)
    (r : List String) :
    normalizeSegments true segments rest = .ok r ↔ walk segments (rest.map turn) = some r := by
  induction rest generalizing segments with
  | nil => simp [normalizeSegments, walk]
  | cons segment rest ih =>
      have hsep' := fun s hs => hsep s (List.mem_cons_of_mem _ hs)
      rw [normalizeSegments, List.map_cons, turn]
      split
      · exact ih hsegments hsep'
      · next hstay =>
          split
          · rw [walk]
            have hlast : segments.getLast? ≠ some ".." := by
              intro h
              have hname := (hsegments ".." (List.mem_of_getLast? h)).1
              exact absurd hname (by decide)
            by_cases hnil : segments = []
            · simp [hnil]
            · simp only [hnil, hlast, or_self, if_false]
              exact ih (fun name hname => hsegments name (List.mem_of_mem_dropLast hname)) hsep'
          · next hup =>
              have hname : IsName segment :=
                ⟨by simp [turn, hstay, hup], hsep segment (List.mem_cons_self ..)⟩
              refine ih (fun name hmem => ?_) hsep'
              rcases List.mem_append.mp hmem with hmem | hmem
              · exact hsegments name hmem
              · rwa [List.mem_singleton.mp hmem]

theorem validateShellSafePath_eq_ok (input context : String) :
    validateShellSafePath input context = .ok () ↔
      dangerousChars.all (fun c => !strContains input c.1) = true := by
  have hnone : dangerousChars.find? (fun c => strContains input c.1) = none ↔
      dangerousChars.all (fun c => !strContains input c.1) = true := by
    simp only [List.find?_eq_none, List.all_eq_true, Bool.not_eq_true, Bool.not_eq_true']
  rw [validateShellSafePath, ← hnone]
  split
  · next h => simp [h]
  · next h => simp [h]

/-- The three checks together. -/
theorem isPlain_iff (text context : String) :
    isPlain text = true ↔ validateShellSafePath text context = .ok () ∧
      strContains text "\x00" = false ∧ strContains text "\\" = false := by
  rw [validateShellSafePath_eq_ok, isPlain, refused, List.all_append, List.all_map,
    Bool.and_eq_true]
  simp [Function.comp_def]

theorem normalizeUnixPath_absolute {path : String} (habs : strStartsWith path "/" = true)
    (r : String) :
    normalizeUnixPath path = .ok r ↔
      isPlain path = true ∧ ∃ place, walk [] (turns path) = some place ∧ r = absolute place := by
  have hnil : ∀ name ∈ ([] : List String), IsName name := fun _ h => absurd h List.not_mem_nil
  have hloop := normalizeSegments_absolute (explode '/' path) hnil fun s hs =>
    notMem_of_mem_explode hs
  have htext : ∀ place, (if implode '/' place = "" then "/" else "/" ++ implode '/' place) =
      absolute place := by
    intro place
    split
    · next h => rw [absolute, h]; rfl
    · rfl
  simp only [normalizeUnixPath, isPlain_iff path "path", bind_eq_ok, ite_error_eq_ok, habs, turns,
    htext, if_true, Except.ok.injEq, hloop, Bool.not_eq_true, and_assoc, eq_comm (b := r)]
  constructor
  · rintro ⟨_, h⟩
    exact h
  · intro h
    exact ⟨(), h⟩

/-! ## confinePathToBase -/

theorem BaseDirectory.startsWith_slash (base : BaseDirectory) (rest : String) :
    strStartsWith (base.text ++ rest) "/" = true := by
  rw [strStartsWith, List.isPrefixOf_iff_prefix, BaseDirectory.text, absolute, String.append_assoc,
    String.toList_append]
  exact List.prefix_append ..

/-- The base directory is normalised. -/
theorem BaseDirectory.normalizeUnixPath_eq_ok (base : BaseDirectory) (r : String) :
    normalizeUnixPath base.text = .ok r ↔ isPlain base.text = true ∧ r = base.text := by
  have habs : strStartsWith base.text "/" = true := by simpa using base.startsWith_slash ""
  have hwalk : walk [] (turns base.text) = some base.segments := by
    simpa [walk, BaseDirectory.text] using walk_absolute base.isName []
  rw [normalizeUnixPath_absolute habs, hwalk]
  simp [BaseDirectory.text]

/-- What either function does with the path that it resolves. -/
theorem BaseDirectory.resolve_eq_ok (base : BaseDirectory) {path : String}
    (habs : strStartsWith path "/" = true) (context r : String) :
    (do let resolvedPath ← normalizeUnixPath path
        staysInside base.text resolvedPath context) = .ok r ↔
      isPlain path = true ∧
        ∃ place, Resolves (turns path) place ∧ base.segments <+: place ∧ r = absolute place := by
  rw [bind_eq_ok]
  constructor
  · rintro ⟨resolved, hresolved, hr⟩
    obtain ⟨hplain, place, hwalk, rfl⟩ := normalizeUnixPath_absolute habs resolved |>.mp hresolved
    have hplace := isName_of_walk (fun s hs => notMem_of_mem_explode hs) (by simp) hwalk
    exact ⟨hplain, place, resolves_iff_walk.mpr hwalk, base.staysInside_iff hplace .. |>.mp hr⟩
  · rintro ⟨hplain, place, hresolves, hr⟩
    have hwalk := walk_of_resolves hresolves
    have hplace := isName_of_walk (fun s hs => notMem_of_mem_explode hs) (by simp) hwalk
    exact ⟨absolute place, normalizeUnixPath_absolute habs _ |>.mpr ⟨hplain, place, hwalk, rfl⟩,
      base.staysInside_iff hplace .. |>.mpr hr⟩

theorem BaseDirectory.pathFromBase_absolute (base : BaseDirectory) (path : String) :
    strStartsWith (pathFromBase base.text path) "/" = true := by
  unfold pathFromBase
  split_ifs with _ habs
  · rw [String.append_assoc]
    exact base.startsWith_slash _
  · rw [String.append_assoc]
    exact base.startsWith_slash _
  · simpa using habs

theorem confinePathToBase_eq_ok (base : BaseDirectory) (path context r : String) :
    confinePathToBase base.text path context = .ok r ↔
      isPlain base.text = true ∧ isPlain (pathFromBase base.text (trim path)) = true ∧
        ∃ place, Resolves (turns (pathFromBase base.text (trim path))) place ∧
          base.segments <+: place ∧ r = absolute place := by
  rw [confinePathToBase, bind_eq_ok, ← base.resolve_eq_ok (base.pathFromBase_absolute _) context r]
  constructor
  · rintro ⟨a, ha, h⟩
    obtain ⟨hplain, rfl⟩ := base.normalizeUnixPath_eq_ok a |>.mp ha
    exact ⟨hplain, h⟩
  · rintro ⟨hplain, h⟩
    exact ⟨base.text, base.normalizeUnixPath_eq_ok _ |>.mpr ⟨hplain, rfl⟩, h⟩

/-- A slash is no part of what is refused. -/
theorem isPlain_append (a b : String) :
    isPlain (a ++ "/" ++ b) = true ↔ isPlain a = true ∧ isPlain b = true := by
  have hslash : ∀ seq ∈ refused, '/' ∉ seq.toList := by
    have hall : refused.all (fun seq => !seq.toList.contains '/') = true := by decide
    intro seq hseq
    simpa using List.all_eq_true.mp hall seq hseq
  have hcontains : ∀ seq ∈ refused, strContains (a ++ "/" ++ b) seq = false ↔
      strContains a seq = false ∧ strContains b seq = false := by
    intro seq hseq
    have htext : (a ++ "/" ++ b).toList = a.toList ++ '/' :: b.toList := by simp
    rw [← Bool.not_eq_true, ← Bool.not_eq_true, ← Bool.not_eq_true, strContains_iff,
      strContains_iff, strContains_iff, htext, infix_append_sep (hslash seq hseq), not_or]
  simp only [isPlain, List.all_eq_true, Bool.not_eq_true']
  constructor
  · intro h
    exact ⟨fun seq hseq => (hcontains seq hseq |>.mp (h seq hseq)).1,
      fun seq hseq => (hcontains seq hseq |>.mp (h seq hseq)).2⟩
  · rintro ⟨ha, hb⟩ seq hseq
    exact (hcontains seq hseq).mpr ⟨ha seq hseq, hb seq hseq⟩

theorem isPlain_nil : isPlain "" = true := by decide

theorem isPlain_dot : isPlain "." = true := by decide

theorem turns_nil : turns "" = [.stay] := rfl

theorem turns_dot : turns "." = [.stay] := by decide

/-! ## Paths that begin with a dot -/

/-- The path does not begin with a dot, or the dot is a segment of its own. -/
def dotIsSegment (path : String) : Bool :=
  !strStartsWith path "." || path = "." || strStartsWith path "./"

/-- The path that is meant: an absolute one, or one from the base directory. -/
def meant (base path : String) : String :=
  if strStartsWith path "/" then path else base ++ "/" ++ path

theorem strAfter_dot (rest : List Char) :
    strAfter (String.ofList ('.' :: rest)) "." = String.ofList rest := by
  simp only [strAfter, String.toList_ofList]
  rfl

theorem pathFromBase_dot (base : String) (rest : List Char) :
    pathFromBase base (String.ofList ('.' :: rest)) = base ++ "/" ++ String.ofList rest := by
  have hdot : strStartsWith (String.ofList ('.' :: rest)) "." = true := by
    simp [strStartsWith, String.toList_ofList]
  rw [pathFromBase, if_pos hdot, strAfter_dot]

theorem slash_append (rest : List Char) :
    String.ofList ('/' :: rest) = "" ++ "/" ++ String.ofList rest := by
  apply String.toList_injective
  simp

theorem dot_slash_append (rest : List Char) :
    String.ofList ('.' :: '/' :: rest) = "." ++ "/" ++ String.ofList rest := by
  apply String.toList_injective
  simp

/-- Where the dot is a segment, it may as well be dropped. -/
theorem pathFromBase_meant (base : String) {path : String} (h : dotIsSegment path = true) :
    turns (pathFromBase base path) = turns (meant base path) ∧
      (isPlain (pathFromBase base path) = true ↔ isPlain (meant base path) = true) := by
  by_cases hdot : strStartsWith path "." = true
  · obtain ⟨rest, rfl⟩ : ∃ rest, path = String.ofList ('.' :: rest) := by
      rw [strStartsWith, List.isPrefixOf_iff_prefix] at hdot
      obtain ⟨rest, hrest⟩ := hdot
      refine ⟨rest, String.toList_injective ?_⟩
      rw [← hrest]
      simp
    have hmeant : meant base (String.ofList ('.' :: rest)) =
        base ++ "/" ++ String.ofList ('.' :: rest) := by
      rw [meant, if_neg (by simp [strStartsWith])]
    rw [pathFromBase_dot, hmeant, turns_append, turns_append, isPlain_append, isPlain_append]
    cases rest with
    | nil => exact ⟨by rw [turns_nil]; rfl, by rw [isPlain_nil]; rfl⟩
    | cons c rest =>
        obtain rfl : '/' = c := by
          simpa [dotIsSegment, strStartsWith, ← String.toList_inj] using h
        rw [dot_slash_append, slash_append, turns_append, turns_append, isPlain_append,
          isPlain_append, turns_nil, turns_dot, isPlain_nil, isPlain_dot]
        exact ⟨rfl, Iff.rfl⟩
  · rw [pathFromBase, meant, if_neg hdot]
    cases habs : strStartsWith path "/" with
    | true => exact ⟨rfl, Iff.rfl⟩
    | false => exact ⟨rfl, Iff.rfl⟩

/-! ## confineFileMountPath -/

/-- The segments that are not empty. -/
def solid (cs : List Char) : List (List Char) := (pieces '/' cs).filter (· ≠ [])

theorem solid_cons_slash (cs : List Char) : solid ('/' :: cs) = solid cs := words_cons_self '/' cs

theorem solid_dropWhile (cs : List Char) : solid (cs.dropWhile (· == '/')) = solid cs :=
  words_dropWhile '/' cs

theorem solid_trimWith (cs : List Char) : solid (trimWith (· == '/') cs) = solid cs :=
  words_trimWith '/' cs

theorem solid_squeeze (cs : List Char) : solid (squeeze '/' cs) = solid cs := words_squeeze '/' cs

section Mount

variable (strTrimmed : Char → Bool)

/-- Slashes are all that changes. -/
theorem solid_mountPathOf (input : String) :
    solid (mountPathOf strTrimmed input).toList = solid (strTrim strTrimmed input).toList := by
  rw [mountPathOf, String.toList_ofList, solid_squeeze, solid_cons_slash, solid_dropWhile]

/-- Empty segments lead nowhere. -/
theorem walk_solid (place : List String) (path : String) :
    walk place ((solid path.toList).map fun p => turn (String.ofList p)) =
      walk place (turns path) := by
  have hstay : ∀ p : List Char, decide (p ≠ []) = false → turn (String.ofList p) = .stay := by
    intro p hp
    obtain rfl : p = [] := by simpa using hp
    rfl
  rw [turns, explode, List.map_map]
  exact walk_map_filter (fun p => turn (String.ofList p)) (· ≠ []) hstay place _

theorem any_isRelativeSegment (path : String) :
    (explode '/' path).any isRelativeSegment =
      (solid path.toList).any fun p => isRelativeSegment (String.ofList p) := by
  rw [explode, List.any_map, solid, List.any_filter]
  refine congrArg _ (funext fun p => ?_)
  cases p with
  | nil => rfl
  | cons c cs => simp

/-- The checks of a file mount path, and the path that it becomes. -/
theorem validateFileMountPath_eq_ok (input context r : String) :
    validateFileMountPath strTrimmed input context = .ok r ↔
      isPlain input = true ∧
        (explode '/' (strTrim strTrimmed input)).any isRelativeSegment = false ∧
        r = mountPathOf strTrimmed input := by
  have hany : (explode '/' (String.ofList (trimWith (· == '/')
      (mountPathOf strTrimmed input).toList))).any isRelativeSegment =
      (explode '/' (strTrim strTrimmed input)).any isRelativeSegment := by
    rw [any_isRelativeSegment, any_isRelativeSegment, String.toList_ofList, solid_trimWith,
      solid_mountPathOf]
  simp only [validateFileMountPath, bind_eq_ok, ite_error_eq_ok, isPlain_iff input context, hany,
    Except.ok.injEq, Bool.not_eq_true, and_assoc, eq_comm (b := r)]
  constructor
  · rintro ⟨_, h⟩
    exact h
  · intro h
    exact ⟨(), h⟩

/-- What is refused is refused in a segment. -/
theorem isPlain_iff_solid (cs : List Char) :
    isPlain (String.ofList cs) = true ↔ ∀ p ∈ solid cs, isPlain (String.ofList p) = true := by
  have hrefused : ∀ seq ∈ refused, '/' ∉ seq.toList ∧ seq.toList ≠ [] := by
    have hall : refused.all (fun seq => !seq.toList.contains '/' && !seq.toList.isEmpty) = true := by
      decide
    intro seq hseq
    simpa using List.all_eq_true.mp hall seq hseq
  have hpart : ∀ seq ∈ refused, ∀ ds : List Char,
      strContains (String.ofList ds) seq = true ↔ seq.toList <:+: ds := by
    intro seq _ ds
    rw [strContains_iff, String.toList_ofList]
  simp only [isPlain, List.all_eq_true, Bool.not_eq_true']
  constructor
  · intro h p hp seq hseq
    rw [← Bool.not_eq_true, hpart seq hseq]
    intro hin
    have hcs : seq.toList <:+: cs := by
      rw [← intercalate_pieces '/' cs, infix_intercalate (hrefused seq hseq).1 (hrefused seq hseq).2]
      exact ⟨p, (List.mem_filter.mp hp).1, hin⟩
    rw [← hpart seq hseq, h seq hseq] at hcs
    cases hcs
  · intro h seq hseq
    rw [← Bool.not_eq_true, hpart seq hseq]
    intro hin
    rw [← intercalate_pieces '/' cs, infix_intercalate (hrefused seq hseq).1
      (hrefused seq hseq).2] at hin
    obtain ⟨p, hp, hin⟩ := hin
    have hne : p ≠ [] := by
      rintro rfl
      exact (hrefused seq hseq).2 (List.infix_nil.mp hin)
    have hsolid := h p (List.mem_filter.mpr ⟨hp, by simpa using hne⟩) seq hseq
    rw [← Bool.not_eq_true, hpart seq hseq] at hsolid
    exact hsolid hin

theorem isPlain_mountPathOf {input : String} (h : isPlain input = true) :
    isPlain (mountPathOf strTrimmed input) = true := by
  have htrim : isPlain (strTrim strTrimmed input) = true := by
    rw [isPlain, List.all_eq_true] at h ⊢
    intro seq hseq
    have hseq' := h seq hseq
    rw [Bool.not_eq_true', ← Bool.not_eq_true, strContains_iff] at hseq' ⊢
    rw [strTrim, String.toList_ofList]
    exact fun hin => hseq' (hin.trans (infix_trimWith strTrimmed input.toList))
  rw [← String.ofList_toList (s := mountPathOf strTrimmed input), isPlain_iff_solid,
    solid_mountPathOf, ← isPlain_iff_solid, String.ofList_toList]
  exact htrim

theorem confineFileMountPath_eq_ok (base : BaseDirectory) (path context r : String) :
    confineFileMountPath strTrimmed base.text path context = .ok r ↔
      isPlain base.text = true ∧ isPlain path = true ∧
        (explode '/' (strTrim strTrimmed path)).any isRelativeSegment = false ∧
        ∃ place, Resolves (turns (base.text ++ "/" ++ strTrim strTrimmed path)) place ∧
          base.segments <+: place ∧ r = absolute place := by
  have hturns : ∀ place, Resolves (turns (base.text ++ "/" ++ mountPathOf strTrimmed path)) place ↔
      Resolves (turns (base.text ++ "/" ++ strTrim strTrimmed path)) place := by
    intro place
    rw [resolves_iff_walk, resolves_iff_walk, turns_append, turns_append, BaseDirectory.text,
      walk_absolute base.isName, walk_absolute base.isName, ← walk_solid, solid_mountPathOf,
      walk_solid]
  have habs : strStartsWith (base.text ++ "/" ++ mountPathOf strTrimmed path) "/" = true := by
    rw [String.append_assoc]
    exact base.startsWith_slash _
  rw [confineFileMountPath, bind_eq_ok]
  constructor
  · rintro ⟨a, ha, h⟩
    obtain ⟨hbase, rfl⟩ := base.normalizeUnixPath_eq_ok a |>.mp ha
    obtain ⟨mountPath, hmount, h⟩ := bind_eq_ok.mp h
    obtain ⟨hplain, hsegments, rfl⟩ := validateFileMountPath_eq_ok .. |>.mp hmount
    obtain ⟨-, place, hresolves, hinside, hr⟩ := base.resolve_eq_ok habs context r |>.mp h
    exact ⟨hbase, hplain, hsegments, place, (hturns place).mp hresolves, hinside, hr⟩
  · rintro ⟨hbase, hplain, hsegments, place, hresolves, hinside, hr⟩
    have hjoined := (isPlain_append ..).mpr ⟨hbase, isPlain_mountPathOf strTrimmed hplain⟩
    exact ⟨base.text, base.normalizeUnixPath_eq_ok _ |>.mpr ⟨hbase, rfl⟩,
      bind_eq_ok.mpr ⟨mountPathOf strTrimmed path,
        validateFileMountPath_eq_ok .. |>.mpr ⟨hplain, hsegments, rfl⟩,
        base.resolve_eq_ok habs context r |>.mpr
          ⟨hjoined, place, (hturns place).mpr hresolves, hinside, hr⟩⟩⟩

end Mount

/-! ## Inside the base directory -/

/-- Only a place in the base directory is returned, and one with a name for
every segment. -/
theorem confinePathToBase_inside (base : BaseDirectory) {path context r : String}
    (h : confinePathToBase base.text path context = .ok r) :
    ∃ place, (∀ name ∈ place, IsName name) ∧ base.segments <+: place ∧ r = absolute place := by
  obtain ⟨-, -, place, hresolves, hinside, hr⟩ := confinePathToBase_eq_ok .. |>.mp h
  exact ⟨place, isName_of_walk (fun s hs => notMem_of_mem_explode hs) (by simp)
    (walk_of_resolves hresolves), hinside, hr⟩

theorem confinePathToBase_meant (base : BaseDirectory) {path : String} (context r : String)
    (hdot : dotIsSegment (trim path) = true) :
    confinePathToBase base.text path context = .ok r ↔
      isPlain base.text = true ∧ isPlain (trim path) = true ∧
        ∃ place, Resolves (turns (meant base.text (trim path))) place ∧
          base.segments <+: place ∧ r = absolute place := by
  obtain ⟨hturns, hplain⟩ := pathFromBase_meant base.text hdot
  have hmeant : isPlain base.text = true →
      (isPlain (meant base.text (trim path)) = true ↔ isPlain (trim path) = true) := by
    intro hbase
    rw [meant]
    split
    · exact Iff.rfl
    · rw [isPlain_append, and_iff_right hbase]
  rw [confinePathToBase_eq_ok, hturns, hplain]
  exact and_congr_right fun hbase => and_congr_left' (hmeant hbase)

/-- Either function returns a place in the base directory or fails. For a path
that does not begin with a dot, or whose first segment is a dot, it is where the
trimmed path leads from the base directory, as long as nothing in it is refused;
a file mount path has no relative segments besides. -/
theorem paths_stay_inside (strTrimmed : Char → Bool) (base : BaseDirectory)
    (path context r : String) :
    (confinePathToBase base.text path context = .ok r →
      ∃ place, (∀ name ∈ place, IsName name) ∧ base.segments <+: place ∧ r = absolute place) ∧
    (dotIsSegment (trim path) = true →
      (confinePathToBase base.text path context = .ok r ↔
        isPlain base.text = true ∧ isPlain (trim path) = true ∧
          ∃ place, Resolves (turns (meant base.text (trim path))) place ∧
            base.segments <+: place ∧ r = absolute place)) ∧
    (confineFileMountPath strTrimmed base.text path context = .ok r ↔
      isPlain base.text = true ∧ isPlain path = true ∧
        (explode '/' (strTrim strTrimmed path)).any isRelativeSegment = false ∧
        ∃ place, Resolves (turns (base.text ++ "/" ++ strTrim strTrimmed path)) place ∧
          base.segments <+: place ∧ r = absolute place) :=
  ⟨confinePathToBase_inside base, confinePathToBase_meant base context r,
    confineFileMountPath_eq_ok strTrimmed base path context r⟩

/-- `./conf/../nginx.conf` below `/data`. -/
theorem paths_stay_inside_nginx :
    confinePathToBase "/data" "./conf/../nginx.conf" "path" = .ok "/data/nginx.conf" ∧
    ∃ place, (∀ name ∈ place, IsName name) ∧ ["data"] <+: place ∧
      "/data/nginx.conf" = absolute place := by
  let base : BaseDirectory := ⟨["data"], by simp, by simp [IsName]; decide⟩
  have hstay := paths_stay_inside (· == ' ') base "./conf/../nginx.conf" "path" "/data/nginx.conf"
  have hok := (hstay.2.1 (by decide +kernel)).mpr ⟨by decide +kernel, by decide +kernel, ["data", "nginx.conf"],
    resolves_iff_walk.mpr (by decide +kernel), ⟨["nginx.conf"], rfl⟩, by decide +kernel⟩
  exact ⟨hok, hstay.1 hok⟩

/-- A path that stays inside is refused for what a shell would make of it, and a
space at its beginning is no part of a name. -/
theorem confinePathToBase_refuses :
    (confinePathToBase "/data" "a&b" "path").toOption = none ∧
    Resolves (turns "/data/a&b") ["data", "a&b"] ∧
    confinePathToBase "/data" " a" "path" = .ok "/data/a" ∧
    Resolves (turns "/data/ a") ["data", " a"] :=
  ⟨by decide +kernel, resolves_iff_walk.mpr (by decide +kernel), by decide +kernel, resolves_iff_walk.mpr (by decide +kernel)⟩

end OnePloy
