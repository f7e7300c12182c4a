import OnePloy.Lib.PhpText

/-!
# Redirects to and from `www.`

A domain is served by Caddy or by Traefik, from labels that either reads in its own way.
For a domain to be redirected Traefik is given a regular expression over the address
of a request, and Caddy the host itself, with `www.` put in front of it or replaced by
nothing. To replace it is to replace it everywhere: the two part company at a host that
has it twice (`redirects_alike_iff`).
-/

namespace OnePloy

open Php

inductive Scheme
  | http
  | https
  deriving DecidableEq, Repr

def Scheme.text : Scheme → String
  | .http => "http"
  | .https => "https"

inductive RedirectDirection
  | both
  | www
  | nonWww
  deriving DecidableEq, Repr

/-- A domain as `Url::fromString` reads it. -/
structure WebDomain where
  scheme : Scheme
  host : String
  path : String
  host_plain : '/' ∉ host.toList
  path_absolute : path.toList.head? = some '/'

/-- What the labels of a domain depend on besides. -/
structure ProxyOptions where
  redirectDirection : RedirectDirection
  isForceHttpsEnabled : Bool
  isGzipEnabled : Bool
  isStripprefixEnabled : Bool
  /-- The name of the image contains `ghost`. -/
  isGhost : Bool
  isHttpBasicAuthEnabled : Bool
  isNoindex : Bool
  middlewaresFromLabels : List String

structure ProxyRequest where
  scheme : Scheme
  host : String
  /-- Path and query. -/
  uri : String
  uri_absolute : uri.toList.head? = some '/'

def address (scheme : Scheme) (host uri : List Char) : List Char :=
  scheme.text.toList ++ ("://".toList ++ (host ++ uri))

/-- The host of an address. -/
def addressHost (url : List Char) : List Char :=
  ((url.dropWhile (· ≠ '/')).drop 2).takeWhile (· ≠ '/')

def wwwText : List Char := "www.".toList

def startsWithWww (host : String) : Bool := strStartsWith host "www."

/-! ## Traefik -/

inductive TraefikMiddleware
  | gzip
  | stripprefixMiddleware (path : String)
  /-- Its pattern begins with a slash, as no address does. -/
  | redirGhost
  | toNonWww
  | toWww
  | httpBasicAuth
  | noindex
  | fromLabels (name : String)
  | redirectToHttps
  deriving DecidableEq

/-- Host and path are the rule of the router. -/
structure TraefikRouter where
  entryPoint : Scheme
  host : String
  path : String
  middlewares : List TraefikMiddleware

namespace ProxyOptions

variable (o : ProxyOptions)

/-- The middlewares of a domain. The source builds them in four places, for either
scheme with and without a path; those with one strip it first. -/
def middlewares (d : WebDomain) : List TraefikMiddleware :=
  (if d.path ≠ "/" then
    if o.isStripprefixEnabled && !o.isGhost then [.stripprefixMiddleware d.path] else []
  else []) ++
  (if o.isGzipEnabled then [.gzip] else []) ++
  (if o.isGhost then [.redirGhost] else []) ++
  (if o.redirectDirection = .nonWww ∧ startsWithWww d.host = true then [.toNonWww] else []) ++
  (if o.redirectDirection = .www ∧ startsWithWww d.host = false then [.toWww] else []) ++
  (if o.isHttpBasicAuthEnabled then [.httpBasicAuth] else []) ++
  (if o.isNoindex then [.noindex] else []) ++
  o.middlewaresFromLabels.map .fromLabels

/-- `fqdnLabelsForTraefik`: the routers of one domain. -/
def fqdnLabelsForTraefik (d : WebDomain) : List TraefikRouter :=
  match d.scheme with
  | .https =>
      let httpMiddlewares :=
        if o.isForceHttpsEnabled then
          (if o.isNoindex then [.noindex] else []) ++ [.redirectToHttps]
        else o.middlewares d
      [⟨.https, d.host, d.path, o.middlewares d⟩, ⟨.http, d.host, d.path, httpMiddlewares⟩]
  | .http => [⟨.http, d.host, d.path, o.middlewares d⟩]

end ProxyOptions

/-- `^(http|https)://(.+)` with what follows the scheme. -/
def splitScheme (url : List Char) : Option (Scheme × List Char) :=
  if "http://".toList.isPrefixOf url then some (.http, url.drop 7)
  else if "https://".toList.isPrefixOf url then some (.https, url.drop 8)
  else none

/-- `www\.(.+)`. -/
def dropWww (cs : List Char) : Option (List Char) :=
  if wwwText.isPrefixOf cs && !(cs.drop 4).isEmpty then some (cs.drop 4) else none

/-- `^(http|https)://www\.(.+)` replaced by `${1}://${2}`. -/
def toNonWww (url : List Char) : Option (List Char) :=
  (splitScheme url).bind fun (scheme, rest) =>
    (dropWww rest).map fun rest => address scheme [] rest

/-- `^(http|https)://(?:www\.)?(.+)` replaced by `${1}://www.${2}`. -/
def toWww (url : List Char) : Option (List Char) :=
  (splitScheme url).bind fun (scheme, rest) =>
    let rest := (dropWww rest).getD rest
    if rest.isEmpty then none else some (address scheme wwwText rest)

namespace ProxyRequest

def url (r : ProxyRequest) : List Char := address r.scheme r.host.toList r.uri.toList

/-- `stripPrefix` of Traefik: what is left begins with a slash again. -/
def strip (r : ProxyRequest) (path : String) : ProxyRequest :=
  if path.toList.isPrefixOf r.uri.toList then
    let rest := r.uri.toList.drop path.toList.length
    if h : rest.head? = some '/' then
      { r with uri := String.ofList rest, uri_absolute := by rwa [String.toList_ofList] }
    else
      { r with
        uri := String.ofList ('/' :: rest)
        uri_absolute := by rw [String.toList_ofList, List.head?_cons] }
  else r

end ProxyRequest

/-- A redirect to the address itself is none. -/
def elsewhere (url : List Char) (target : Option (List Char)) : Option (List Char) :=
  target.filter (· ≠ url)

/-- Where the middlewares redirect a request to. -/
def runMiddlewares : List TraefikMiddleware → ProxyRequest → Option (List Char)
  | [], _ => none
  | .stripprefixMiddleware path :: ms, r => runMiddlewares ms (r.strip path)
  | .toNonWww :: ms, r => (elsewhere r.url (toNonWww r.url)).orElse fun _ => runMiddlewares ms r
  | .toWww :: ms, r => (elsewhere r.url (toWww r.url)).orElse fun _ => runMiddlewares ms r
  | .redirectToHttps :: ms, r =>
      (elsewhere r.url (some (address .https r.host.toList r.uri.toList))).orElse fun _ =>
        runMiddlewares ms r
  | .gzip :: ms, r | .redirGhost :: ms, r | .httpBasicAuth :: ms, r | .noindex :: ms, r
  | .fromLabels _ :: ms, r => runMiddlewares ms r

def TraefikRouter.takes (t : TraefikRouter) (r : ProxyRequest) : Bool :=
  t.entryPoint = r.scheme && t.host == r.host && strStartsWith r.uri t.path

/-- Where Traefik redirects a request to. -/
def traefikRedirect (routers : List TraefikRouter) (r : ProxyRequest) : Option (List Char) :=
  (routers.find? (·.takes r)).bind fun t => runMiddlewares t.middlewares r

/-! ## Caddy -/

/-- What a redirect goes to, with `{uri}` behind it; `none` is the placeholder
`{scheme}`. -/
structure CaddyRedir where
  scheme : Option Scheme
  host : String

structure CaddySite where
  addresses : List Scheme
  host : String
  redir : List CaddyRedir

/-- `fqdnLabelsForCaddy`: the site of one domain, as far as it redirects. -/
def ProxyOptions.fqdnLabelsForCaddy (o : ProxyOptions) (d : WebDomain) : CaddySite :=
  let hostWithoutWww := strReplace "www." "" d.host
  let redirectSchema := if o.isForceHttpsEnabled then some d.scheme else none
  { addresses :=
      if d.scheme = .https ∧ o.isForceHttpsEnabled = false then [.http, .https] else [d.scheme]
    host := d.host
    redir :=
      (if o.redirectDirection = .www ∧ startsWithWww d.host = false then
        [⟨redirectSchema, "www." ++ d.host⟩] else []) ++
      if o.redirectDirection = .nonWww ∧ startsWithWww d.host = true then
        [⟨redirectSchema, hostWithoutWww⟩] else [] }

/-- Where Caddy redirects a request to; `redir` comes before all that answers. -/
def caddyRedirect (s : CaddySite) (r : ProxyRequest) : Option (List Char) :=
  if s.addresses.contains r.scheme && s.host == r.host then
    s.redir.head?.map fun t => address (t.scheme.getD r.scheme) t.host.toList r.uri.toList
  else none

/-! ## What is expected -/

/-- A request for the domain, over a scheme that it is served on. -/
structure IsFor (o : ProxyOptions) (d : WebDomain) (r : ProxyRequest) : Prop where
  scheme : r.scheme = d.scheme ∨
    (d.scheme = .https ∧ o.isForceHttpsEnabled = false ∧ r.scheme = .http)
  host : r.host = d.host
  path : strStartsWith r.uri d.path = true

/-- The domain is to be redirected. -/
def ShouldRedirect (o : ProxyOptions) (d : WebDomain) : Prop :=
  (o.redirectDirection = .www ∧ startsWithWww d.host = false) ∨
    (o.redirectDirection = .nonWww ∧ startsWithWww d.host = true)

/-- With the prefix added, or with it removed. -/
def redirectTarget (d : WebDomain) : List Char :=
  if startsWithWww d.host then d.host.toList.drop 4 else wwwText ++ d.host.toList

/-- The labels redirect the requests that are to be redirected, to one host, and the
labels of this host leave them there. -/
structure RedirectsAlike (o : ProxyOptions) (d : WebDomain) : Prop where
  traefik : ∀ r, IsFor o d r →
    ((traefikRedirect (o.fqdnLabelsForTraefik d) r).isSome ↔ ShouldRedirect o d)
  caddy : ∀ r, IsFor o d r →
    ((caddyRedirect (o.fqdnLabelsForCaddy d) r).isSome ↔ ShouldRedirect o d)
  traefikTarget : ∀ r url, IsFor o d r →
    traefikRedirect (o.fqdnLabelsForTraefik d) r = some url → addressHost url = redirectTarget d
  caddyTarget : ∀ r url, IsFor o d r →
    caddyRedirect (o.fqdnLabelsForCaddy d) r = some url → addressHost url = redirectTarget d
  settled : ShouldRedirect o d → ∀ d' r, d'.scheme = d.scheme → d'.path = d.path →
    d'.host.toList = redirectTarget d → IsFor o d' r →
      traefikRedirect (o.fqdnLabelsForTraefik d') r = none ∧
        caddyRedirect (o.fqdnLabelsForCaddy d') r = none

/-! ## Addresses -/

theorem length_replaceChars_le (search : List Char) (n : Nat) (cs : List Char) :
    (replaceChars search [] n cs).length ≤ cs.length := by
  induction cs generalizing n with
  | nil => cases n <;> exact Nat.le_refl 0
  | cons c cs ih =>
      cases n with
      | succ n => exact (ih n).trans (Nat.le_succ _)
      | zero =>
          rw [replaceChars]
          split
          · rw [List.nil_append]
            exact (ih _).trans (Nat.le_succ _)
          · exact Nat.succ_le_succ (ih 0)

theorem mem_of_mem_replaceChars {search cs : List Char} {n : Nat} {c : Char}
    (h : c ∈ replaceChars search [] n cs) : c ∈ cs := by
  induction cs generalizing n with
  | nil =>
      cases n <;> cases h
  | cons x cs ih =>
      cases n with
      | succ n => exact List.mem_cons_of_mem _ (ih h)
      | zero =>
          rw [replaceChars] at h
          split at h
          · rw [List.nil_append] at h
            exact List.mem_cons_of_mem _ (ih h)
          · rcases List.mem_cons.mp h with rfl | h
            exacts [List.mem_cons_self .., List.mem_cons_of_mem _ (ih h)]

/-- Nothing is removed exactly where there is nothing to remove. -/
theorem replaceChars_nil_eq_self_iff {search cs : List Char} (hne : search ≠ []) :
    replaceChars search [] 0 cs = cs ↔ ¬ search <:+: cs := by
  refine ⟨fun h => ?_, replaceChars_of_not_infix []⟩
  rintro ⟨front, back, rfl⟩
  induction front with
  | nil =>
      rw [List.nil_append, replaceChars_hit hne, List.nil_append] at h
      have hlen := congrArg List.length h
      have hle := length_replaceChars_le search 0 back
      have hpos := List.length_pos_iff.mpr hne
      rw [List.length_append] at hlen
      omega
  | cons c front ih =>
      by_cases hfront : search <+: c :: (front ++ search ++ back)
      · obtain ⟨rest, hrest⟩ := hfront
        rw [List.cons_append, List.cons_append, ← hrest, replaceChars_hit hne,
          List.nil_append] at h
        have hlen := congrArg List.length h
        have hle := length_replaceChars_le search 0 rest
        have hpos := List.length_pos_iff.mpr hne
        rw [List.length_append] at hlen
        omega
      · rw [List.cons_append, List.cons_append, replaceChars_miss _ hfront] at h
        exact ih (List.cons.inj h).2

theorem startsWithWww_iff {host : String} :
    startsWithWww host = true ↔ ∃ rest, host.toList = wwwText ++ rest := by
  rw [startsWithWww, strStartsWith_iff]
  exact ⟨fun ⟨rest, h⟩ => ⟨rest, h.symm⟩, fun ⟨rest, h⟩ => ⟨rest, h.symm⟩⟩

theorem dropWhile_address (scheme : Scheme) (cs : List Char) :
    (scheme.text.toList ++ ("://".toList ++ cs)).dropWhile (· ≠ '/') = '/' :: '/' :: cs := by
  cases scheme <;> rfl

theorem addressHost_address (scheme : Scheme) {host uri : List Char} (hhost : '/' ∉ host)
    (huri : uri.head? = some '/') : addressHost (address scheme host uri) = host := by
  rw [addressHost, address, dropWhile_address]
  obtain ⟨rest, rfl⟩ := List.head?_eq_some_iff.mp huri
  have hall : ∀ c ∈ host, decide (c ≠ '/') = true := fun c hc =>
    decide_eq_true fun h => hhost (h ▸ hc)
  rw [List.drop_succ_cons, List.drop_succ_cons, List.drop_zero,
    List.takeWhile_append_of_pos hall]
  simp

theorem splitScheme_address (scheme : Scheme) (host uri : List Char) :
    splitScheme (address scheme host uri) = some (scheme, host ++ uri) := by
  cases scheme <;> simp [splitScheme, address, Scheme.text, List.isPrefixOf]

/-- The prefix of an address is that of its host. -/
theorem dropWww_append {host uri : List Char} (huri : uri.head? = some '/') :
    dropWww (host ++ uri) =
      if wwwText.isPrefixOf host then some (host.drop 4 ++ uri) else none := by
  obtain ⟨rest, rfl⟩ := List.head?_eq_some_iff.mp huri
  have hprefix : wwwText.isPrefixOf (host ++ '/' :: rest) = wwwText.isPrefixOf host := by
    rw [Bool.eq_iff_iff, List.isPrefixOf_iff_prefix, List.isPrefixOf_iff_prefix]
    exact ⟨prefix_append_sep (c := '/') (by decide), fun h => h.trans (List.prefix_append ..)⟩
  rw [dropWww, hprefix]
  by_cases h : wwwText.isPrefixOf host = true
  · obtain ⟨tail, rfl⟩ := List.isPrefixOf_iff_prefix.mp h
    rw [h, if_pos rfl]
    simp [wwwText]
  · rw [Bool.not_eq_true] at h
    rw [h, Bool.false_and, if_neg Bool.false_ne_true, if_neg Bool.false_ne_true]

theorem toNonWww_address (scheme : Scheme) {rest uri : List Char} (huri : uri.head? = some '/') :
    toNonWww (address scheme (wwwText ++ rest) uri) = some (address scheme rest uri) := by
  have hfront : wwwText.isPrefixOf (wwwText ++ rest) = true :=
    List.isPrefixOf_iff_prefix.mpr (List.prefix_append ..)
  rw [toNonWww, splitScheme_address, Option.bind_some]
  dsimp only
  rw [dropWww_append huri, if_pos hfront, Option.map_some]
  simp [address, wwwText]

theorem toWww_address (scheme : Scheme) {host uri : List Char} (huri : uri.head? = some '/')
    (hhost : wwwText.isPrefixOf host = false) :
    toWww (address scheme host uri) = some (address scheme (wwwText ++ host) uri) := by
  obtain ⟨rest, rfl⟩ := List.head?_eq_some_iff.mp huri
  rw [toWww, splitScheme_address, Option.bind_some]
  dsimp only
  rw [dropWww_append huri, hhost]
  simp [address]

/-- Two addresses differ if their hosts do. -/
theorem elsewhere_address {scheme : Scheme} {host target uri uri' : List Char}
    (hhost : '/' ∉ host) (htarget : '/' ∉ target) (huri : uri.head? = some '/')
    (huri' : uri'.head? = some '/') (hne : target ≠ host) :
    elsewhere (address scheme host uri) (some (address scheme target uri')) =
      some (address scheme target uri') := by
  refine Option.filter_some_pos (decide_eq_true fun h => hne ?_)
  rw [← addressHost_address scheme htarget huri', h, addressHost_address scheme hhost huri]

/-! ## Traefik redirects -/

/-- Nothing but a header or a body is changed. -/
def TraefikMiddleware.passes : TraefikMiddleware → Bool
  | .gzip | .redirGhost | .httpBasicAuth | .noindex | .fromLabels _ => true
  | _ => false

theorem runMiddlewares_passes {ms : List TraefikMiddleware} (h : ∀ m ∈ ms, m.passes = true)
    (rest : List TraefikMiddleware) (r : ProxyRequest) :
    runMiddlewares (ms ++ rest) r = runMiddlewares rest r := by
  induction ms with
  | nil => rfl
  | cons m ms ih =>
      have hm := h m (List.mem_cons_self ..)
      have ih := ih fun m' hm' => h m' (List.mem_cons_of_mem _ hm')
      cases m with
      | gzip | redirGhost | httpBasicAuth | noindex | fromLabels => exact ih
      | stripprefixMiddleware | toNonWww | toWww | redirectToHttps => cases hm

theorem mem_ite_singleton {c : Prop} [Decidable c] {m m' : TraefikMiddleware}
    (h : m ∈ if c then [m'] else []) : m = m' := by
  split at h
  exacts [List.mem_singleton.mp h, absurd h List.not_mem_nil]

theorem strip_scheme (r : ProxyRequest) (path : String) : (r.strip path).scheme = r.scheme := by
  unfold ProxyRequest.strip
  dsimp only
  split_ifs <;> rfl

theorem strip_host (r : ProxyRequest) (path : String) : (r.strip path).host = r.host := by
  unfold ProxyRequest.strip
  dsimp only
  split_ifs <;> rfl

instance (o : ProxyOptions) (d : WebDomain) : Decidable (ShouldRedirect o d) :=
  inferInstanceAs (Decidable (_ ∨ _))

section Domain

variable (o : ProxyOptions) (d : WebDomain)

theorem host_split (h : startsWithWww d.host = true) :
    d.host.toList = wwwText ++ d.host.toList.drop 4 := by
  obtain ⟨rest, hrest⟩ := startsWithWww_iff.mp h
  rw [hrest]
  rfl

theorem redirectTarget_plain : '/' ∉ redirectTarget d := by
  intro h
  rw [redirectTarget] at h
  split at h
  · exact d.host_plain (List.mem_of_mem_drop h)
  · exact (List.mem_append.mp h).elim (by decide) d.host_plain

theorem redirectTarget_ne : redirectTarget d ≠ d.host.toList := by
  intro h
  have hlen := congrArg List.length h
  rw [redirectTarget] at hlen
  split at hlen
  · next hwww =>
    rw [host_split d hwww, List.length_append] at hlen
    simp [wwwText] at hlen
  · rw [List.length_append] at hlen
    simp [wwwText] at hlen

/-- The two middlewares that redirect, and what comes behind them. -/
theorem run_redirect {r : ProxyRequest} (hhost : r.host = d.host) {ms : List TraefikMiddleware}
    (hms : ∀ m ∈ ms, m.passes = true) :
    runMiddlewares
        ((if o.redirectDirection = .nonWww ∧ startsWithWww d.host = true then [.toNonWww]
          else []) ++
          ((if o.redirectDirection = .www ∧ startsWithWww d.host = false then [.toWww] else []) ++
            ms)) r =
      if ShouldRedirect o d then some (address r.scheme (redirectTarget d) r.uri.toList)
      else none := by
  have hend : ∀ r', runMiddlewares ms r' = none := fun r' => by
    have := runMiddlewares_passes hms [] r'
    rwa [List.append_nil] at this
  have helse : elsewhere r.url (some (address r.scheme (redirectTarget d) r.uri.toList)) =
      some (address r.scheme (redirectTarget d) r.uri.toList) := by
    rw [ProxyRequest.url, hhost]
    exact elsewhere_address d.host_plain (redirectTarget_plain d) r.uri_absolute r.uri_absolute
      (redirectTarget_ne d)
  cases hwww : startsWithWww d.host with
  | true =>
      have htarget : redirectTarget d = d.host.toList.drop 4 := if_pos hwww
      have hto : toNonWww r.url = some (address r.scheme (redirectTarget d) r.uri.toList) := by
        rw [ProxyRequest.url, hhost, host_split d hwww, toNonWww_address r.scheme r.uri_absolute,
          htarget]
      by_cases hdir : o.redirectDirection = .nonWww
      · have hshould : ShouldRedirect o d := .inr ⟨hdir, hwww⟩
        rw [if_pos ⟨hdir, rfl⟩, if_pos (c := ShouldRedirect o d) hshould, List.singleton_append,
          runMiddlewares, hto, helse]
        rfl
      · rw [if_neg fun h => hdir h.1, if_neg fun h => Bool.noConfusion h.2, List.nil_append,
          List.nil_append, hend, if_neg]
        rintro (⟨-, h⟩ | ⟨h, -⟩)
        exacts [Bool.noConfusion (hwww.symm.trans h), hdir h]
  | false =>
      have htarget : redirectTarget d = wwwText ++ d.host.toList :=
        if_neg (by rw [hwww]; exact Bool.false_ne_true)
      have hto : toWww r.url = some (address r.scheme (redirectTarget d) r.uri.toList) := by
        rw [ProxyRequest.url, hhost, toWww_address r.scheme r.uri_absolute hwww, htarget]
      rw [if_neg fun h => Bool.noConfusion h.2, List.nil_append]
      by_cases hdir : o.redirectDirection = .www
      · have hshould : ShouldRedirect o d := .inl ⟨hdir, hwww⟩
        rw [if_pos ⟨hdir, rfl⟩, if_pos (c := ShouldRedirect o d) hshould, List.singleton_append,
          runMiddlewares, hto, helse]
        rfl
      · rw [if_neg fun h => hdir h.1, List.nil_append, hend, if_neg]
        rintro (⟨h, -⟩ | ⟨-, h⟩)
        exacts [hdir h, Bool.noConfusion (hwww.symm.trans h)]

/-- The middlewares of a domain: the path may be stripped before the redirect. -/
theorem run_middlewares {r : ProxyRequest} (hhost : r.host = d.host) :
    ∃ uri : List Char, uri.head? = some '/' ∧
      runMiddlewares (o.middlewares d) r =
        if ShouldRedirect o d then some (address r.scheme (redirectTarget d) uri) else none := by
  have hbefore : ∀ m ∈ (if o.isGzipEnabled then [TraefikMiddleware.gzip] else []) ++
      (if o.isGhost then [.redirGhost] else []), m.passes = true := by
    intro m hm
    rcases List.mem_append.mp hm with hm | hm <;> exact mem_ite_singleton hm ▸ rfl
  have hbehind : ∀ m ∈
      (if o.isHttpBasicAuthEnabled then [TraefikMiddleware.httpBasicAuth] else []) ++
      ((if o.isNoindex then [.noindex] else []) ++ o.middlewaresFromLabels.map .fromLabels),
      m.passes = true := by
    intro m hm
    rcases List.mem_append.mp hm with hm | hm
    · exact mem_ite_singleton hm ▸ rfl
    · rcases List.mem_append.mp hm with hm | hm
      · exact mem_ite_singleton hm ▸ rfl
      · obtain ⟨name, -, rfl⟩ := List.mem_map.mp hm
        rfl
  have hrun : ∀ r' : ProxyRequest, r'.host = d.host →
      runMiddlewares ((if o.isGzipEnabled then [TraefikMiddleware.gzip] else []) ++
        ((if o.isGhost then [.redirGhost] else []) ++
        ((if o.redirectDirection = .nonWww ∧ startsWithWww d.host = true then [.toNonWww]
          else []) ++
        ((if o.redirectDirection = .www ∧ startsWithWww d.host = false then [.toWww] else []) ++
        ((if o.isHttpBasicAuthEnabled then [.httpBasicAuth] else []) ++
        ((if o.isNoindex then [.noindex] else []) ++
          o.middlewaresFromLabels.map .fromLabels)))))) r' =
      if ShouldRedirect o d then some (address r'.scheme (redirectTarget d) r'.uri.toList)
      else none := by
    intro r' hr'
    rw [← List.append_assoc, runMiddlewares_passes hbefore, run_redirect o d hr' hbehind]
  rw [ProxyOptions.middlewares]
  simp only [List.append_assoc]
  generalize (if o.isGzipEnabled then [TraefikMiddleware.gzip] else []) ++ _ = rest at hrun ⊢
  by_cases hstrip : d.path ≠ "/" ∧ (o.isStripprefixEnabled && !o.isGhost) = true
  · have hstripped := hrun (r.strip d.path) ((strip_host r d.path).trans hhost)
    rw [strip_scheme] at hstripped
    refine ⟨_, (r.strip d.path).uri_absolute, ?_⟩
    rw [if_pos hstrip.1, if_pos hstrip.2, ← hstripped]
    rfl
  · refine ⟨_, r.uri_absolute, ?_⟩
    have hnone : (if d.path ≠ "/" then
        if o.isStripprefixEnabled && !o.isGhost then
          [TraefikMiddleware.stripprefixMiddleware d.path] else []
      else []) = [] := by
      split_ifs with h h'
      exacts [absurd ⟨h, h'⟩ hstrip, rfl, rfl]
    rw [hnone, List.nil_append, hrun r hhost]

/-- The router of a request for the domain has the middlewares of the domain. -/
theorem traefikRedirect_eq {r : ProxyRequest} (h : IsFor o d r) :
    traefikRedirect (o.fqdnLabelsForTraefik d) r = runMiddlewares (o.middlewares d) r := by
  have htakes : ∀ ms, (⟨r.scheme, d.host, d.path, ms⟩ : TraefikRouter).takes r = true := by
    simp [TraefikRouter.takes, h.host, h.path]
  rw [traefikRedirect, ProxyOptions.fqdnLabelsForTraefik]
  cases hd : d.scheme with
  | http =>
      have hscheme : r.scheme = .http := by
        rcases h.scheme with hr | ⟨hs, -, -⟩
        exacts [hr.trans hd, absurd (hd.symm.trans hs) (by decide)]
      have := htakes (o.middlewares d)
      rw [hscheme] at this
      dsimp only
      rw [List.find?_cons_of_pos (p := fun t : TraefikRouter => t.takes r) this, Option.bind_some]
  | https =>
      dsimp only
      rcases h.scheme with hr | ⟨-, hforce, hr⟩
      · have := htakes (o.middlewares d)
        rw [hr, hd] at this
        rw [List.find?_cons_of_pos (p := fun t : TraefikRouter => t.takes r) this, Option.bind_some]
      · have := htakes (o.middlewares d)
        rw [hr] at this
        have hfirst :
            (⟨.https, d.host, d.path, o.middlewares d⟩ : TraefikRouter).takes r ≠ true := by
          simp [TraefikRouter.takes, hr]
        rw [List.find?_cons_of_neg (p := fun t : TraefikRouter => t.takes r) hfirst, hforce,
          if_neg Bool.false_ne_true,
          List.find?_cons_of_pos (p := fun t : TraefikRouter => t.takes r) this, Option.bind_some]

/-! ## Caddy redirects -/

/-- The host Caddy redirects to. -/
def caddyTargetHost : List Char :=
  if startsWithWww d.host then (strReplace "www." "" d.host).toList else wwwText ++ d.host.toList

theorem caddyRedirect_eq {r : ProxyRequest} (h : IsFor o d r) :
    ∃ scheme : Scheme, caddyRedirect (o.fqdnLabelsForCaddy d) r =
      if ShouldRedirect o d then some (address scheme (caddyTargetHost d) r.uri.toList)
      else none := by
  have hserved : ((o.fqdnLabelsForCaddy d).addresses.contains r.scheme &&
      (o.fqdnLabelsForCaddy d).host == r.host) = true := by
    have hhost : (o.fqdnLabelsForCaddy d).host = r.host := h.host.symm
    have haddress : r.scheme ∈ (o.fqdnLabelsForCaddy d).addresses := by
      dsimp only [ProxyOptions.fqdnLabelsForCaddy]
      rcases h.scheme with hr | ⟨hs, hforce, hr⟩
      · rw [hr]
        split_ifs with hboth
        · rw [hboth.1]
          exact List.mem_cons_of_mem _ (List.mem_singleton_self _)
        · exact List.mem_singleton_self _
      · rw [if_pos ⟨hs, hforce⟩, hr]
        exact List.mem_cons_self ..
    rw [hhost, beq_self_eq_true, Bool.and_true]
    exact List.contains_iff_mem.mpr haddress
  rw [caddyRedirect, if_pos hserved]
  refine ⟨(if o.isForceHttpsEnabled then some d.scheme else none).getD r.scheme, ?_⟩
  dsimp only [ProxyOptions.fqdnLabelsForCaddy]
  cases hwww : startsWithWww d.host with
  | true =>
      have htarget : caddyTargetHost d = (strReplace "www." "" d.host).toList := if_pos hwww
      rw [if_neg fun hno => Bool.noConfusion hno.2, List.nil_append]
      by_cases hdir : o.redirectDirection = .nonWww
      · have hshould : ShouldRedirect o d := .inr ⟨hdir, hwww⟩
        rw [if_pos ⟨hdir, rfl⟩, if_pos (c := ShouldRedirect o d) hshould, htarget]
        rfl
      · have hnot : ¬ ShouldRedirect o d := by
          rintro (⟨-, hno⟩ | ⟨hno, -⟩)
          exacts [Bool.noConfusion (hwww.symm.trans hno), hdir hno]
        rw [if_neg fun hno => hdir hno.1, if_neg hnot]
        rfl
  | false =>
      have htarget : caddyTargetHost d = wwwText ++ d.host.toList :=
        if_neg (by rw [hwww]; exact Bool.false_ne_true)
      rw [if_neg (c := _ ∧ false = true) fun hno => Bool.noConfusion hno.2, List.append_nil]
      by_cases hdir : o.redirectDirection = .www
      · have hshould : ShouldRedirect o d := .inl ⟨hdir, hwww⟩
        rw [if_pos ⟨hdir, rfl⟩, if_pos (c := ShouldRedirect o d) hshould, htarget]
        simp [wwwText]
      · have hnot : ¬ ShouldRedirect o d := by
          rintro (⟨hno, -⟩ | ⟨-, hno⟩)
          exacts [hdir hno, Bool.noConfusion (hwww.symm.trans hno)]
        rw [if_neg fun hno => hdir hno.1, if_neg hnot]
        rfl

/-- Caddy takes away every `www.`, Traefik the first. -/
theorem caddyTargetHost_eq_iff :
    caddyTargetHost d = redirectTarget d ↔
      ¬ (startsWithWww d.host = true ∧ wwwText <:+: d.host.toList.drop 4) := by
  rw [caddyTargetHost, redirectTarget]
  cases hwww : startsWithWww d.host with
  | false =>
      rw [if_neg Bool.false_ne_true, if_neg Bool.false_ne_true]
      exact iff_of_true rfl fun h => Bool.noConfusion h.1
  | true =>
      have hreplace : (strReplace "www." "" d.host).toList =
          replaceChars wwwText [] 0 (d.host.toList.drop 4) := by
        rw [strReplace, String.toList_ofList, host_split d hwww]
        exact replaceChars_hit (List.cons_ne_nil _ _) [] _
      have hne : wwwText ≠ [] := by simp [wwwText]
      rw [if_pos rfl, if_pos rfl, hreplace, replaceChars_nil_eq_self_iff hne, and_iff_right rfl]

theorem caddyTargetHost_plain : '/' ∉ caddyTargetHost d := by
  intro h
  rw [caddyTargetHost] at h
  split at h
  · rw [strReplace, String.toList_ofList] at h
    exact d.host_plain (mem_of_mem_replaceChars h)
  · exact (List.mem_append.mp h).elim (by decide) d.host_plain

/-! ## Both -/

variable {d} in
theorem shouldRedirect_target {d' : WebDomain} (h : d'.host.toList = redirectTarget d)
    (hshould : ShouldRedirect o d) :
    ShouldRedirect o d' ↔
      o.redirectDirection = .nonWww ∧ wwwText <+: d.host.toList.drop 4 := by
  have hstarts : startsWithWww d'.host = true ↔ wwwText <+: redirectTarget d := by
    rw [← h]
    exact strStartsWith_iff
  rcases hshould with ⟨hdir, hwww⟩ | ⟨hdir, hwww⟩
  · refine iff_of_false ?_ fun hno => by rw [hdir] at hno; cases hno.1
    have htarget : startsWithWww d'.host = true := by
      rw [hstarts, redirectTarget, if_neg (by rw [hwww]; exact Bool.false_ne_true)]
      exact List.prefix_append ..
    rintro (⟨-, hno⟩ | ⟨hno, -⟩)
    · exact Bool.noConfusion (htarget.symm.trans hno)
    · rw [hdir] at hno
      cases hno
  · rw [redirectTarget, if_pos hwww] at hstarts
    rw [and_iff_right hdir, ← hstarts]
    constructor
    · rintro (⟨hno, -⟩ | ⟨-, hstart⟩)
      · rw [hdir] at hno
        cases hno
      · exact hstart
    · exact fun hstart => .inr ⟨hdir, hstart⟩

/-- Both proxies redirect a domain alike, exactly if it has no second `www.` that is to
be removed with the first. -/
theorem redirects_alike_iff :
    RedirectsAlike o d ↔
      ¬ (o.redirectDirection = .nonWww ∧ startsWithWww d.host = true ∧
        wwwText <:+: d.host.toList.drop 4) := by
  constructor
  · rintro h ⟨hdir, hwww, hinfix⟩
    have hshould : ShouldRedirect o d := .inr ⟨hdir, hwww⟩
    -- the request for the path itself
    have hfor : IsFor o d ⟨d.scheme, d.host, d.path, d.path_absolute⟩ :=
      ⟨.inl rfl, rfl, strStartsWith_iff.mpr (List.prefix_refl _)⟩
    obtain ⟨scheme, hcaddy⟩ := caddyRedirect_eq o d hfor
    rw [if_pos hshould] at hcaddy
    have htarget := h.caddyTarget _ _ hfor hcaddy
    rw [addressHost_address scheme (caddyTargetHost_plain d) d.path_absolute,
      caddyTargetHost_eq_iff] at htarget
    exact htarget ⟨hwww, hinfix⟩
  · intro h
    have htarget : ShouldRedirect o d → caddyTargetHost d = redirectTarget d := by
      rintro (⟨-, hwww⟩ | ⟨hdir, hwww⟩)
      · exact (caddyTargetHost_eq_iff d).mpr fun hno => Bool.noConfusion (hwww.symm.trans hno.1)
      · exact (caddyTargetHost_eq_iff d).mpr fun hno => h ⟨hdir, hno⟩
    refine ⟨fun r hr => ?_, fun r hr => ?_, fun r url hr hurl => ?_, fun r url hr hurl => ?_,
      fun hshould d' r hscheme hpath hhost hr => ?_⟩
    · obtain ⟨uri, -, hrun⟩ := run_middlewares o d hr.host
      rw [traefikRedirect_eq o d hr, hrun]
      split <;> simp [*]
    · obtain ⟨scheme, hcaddy⟩ := caddyRedirect_eq o d hr
      rw [hcaddy]
      split <;> simp [*]
    · obtain ⟨uri, huri, hrun⟩ := run_middlewares o d hr.host
      rw [traefikRedirect_eq o d hr, hrun] at hurl
      split at hurl
      · obtain rfl := Option.some.inj hurl
        exact addressHost_address r.scheme (redirectTarget_plain d) huri
      · cases hurl
    · obtain ⟨scheme, hcaddy⟩ := caddyRedirect_eq o d hr
      rw [hcaddy] at hurl
      split at hurl
      · next hshould =>
        obtain rfl := Option.some.inj hurl
        rw [addressHost_address scheme (caddyTargetHost_plain d) r.uri_absolute, htarget hshould]
      · cases hurl
    · have hnot : ¬ ShouldRedirect o d' := by
        rw [shouldRedirect_target o hhost hshould]
        rintro ⟨hdir, hprefix⟩
        rcases hshould with ⟨hdir', -⟩ | ⟨-, hwww⟩
        · rw [hdir] at hdir'
          cases hdir'
        · exact h ⟨hdir, hwww, hprefix.isInfix⟩
      obtain ⟨uri, -, hrun⟩ := run_middlewares o d' hr.host
      obtain ⟨scheme, hcaddy⟩ := caddyRedirect_eq o d' hr
      exact ⟨by rw [traefikRedirect_eq o d' hr, hrun, if_neg hnot], by rw [hcaddy, if_neg hnot]⟩

end Domain

/-- `www.` twice, as a name of its own and at the end of another. -/
def twiceWww : WebDomain where
  scheme := .https
  host := "www.mywww.com"
  path := "/"
  host_plain := by decide
  path_absolute := rfl

def nonWwwOptions : ProxyOptions where
  redirectDirection := .nonWww
  isForceHttpsEnabled := true
  isGzipEnabled := true
  isStripprefixEnabled := true
  isGhost := false
  isHttpBasicAuthEnabled := false
  isNoindex := false
  middlewaresFromLabels := []

/-- Traefik redirects to `mywww.com`, Caddy to `mycom`. -/
theorem second_www_removed : ¬ ∀ (o : ProxyOptions) (d : WebDomain), RedirectsAlike o d := by
  intro h
  have hcaddy := (h nonWwwOptions twiceWww).caddyTarget ⟨.https, "www.mywww.com", "/", rfl⟩
    "https://mycom/".toList ⟨.inl rfl, rfl, rfl⟩ (by decide +kernel)
  exact absurd hcaddy (by decide +kernel)

end OnePloy
