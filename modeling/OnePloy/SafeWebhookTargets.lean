import OnePloy.Lib.Attempt
import OnePloy.SafeWebhookUrl

/-!
# Webhook addresses do not reach internal hosts

`ipv4InCidr` compares under a mask and `binaryInCidr` byte by byte; both are
membership in a network (`ipInCidr_iff`). So what `isAllowedIp` lets through is
safe in terms of networks (`safe_of_isAllowedIp`), and both `validate` and
`resolveUrlForRequest` come down to it: `validate` makes its checks of the URL and
then the same ones as the request (`validate_eq_none_iff`,
`resolveUrlForRequest_eq_ok_iff`).
-/

namespace OnePloy

open Php Net

/-! ## Networks -/

/-- The network that a text of the form `address/length` stands for. -/
def cidr? (text : String) : Option IpNetwork :=
  let parts := explodeOnce '/' text
  (parts.2.bind numericInt?).bind fun length =>
    match inetPton parts.1 with
    | some (.v4 base) =>
        if length < 0 ∨ 32 < length then none else some (.v4 ⟨base, length.toNat⟩)
    | some (.v6 base) =>
        if length < 0 ∨ 128 < length then none else some (.v6 ⟨base, length.toNat⟩)
    | none => none

/-- One of the ranges contains the address. -/
def InRange (ranges : List String) (ip : IpAddr) : Prop :=
  ∃ text ∈ ranges, ∃ n, cidr? text = some n ∧ n.Contains ip

theorem ipv4InCidr_iff {ip : BitVec 32} {text : String} :
    ipv4InCidr ip text = true ↔ ∃ n, cidr? text = some n ∧ n.Contains (.v4 ip) := by
  simp only [ipv4InCidr, cidr?]
  cases (explodeOnce '/' text).2.bind numericInt? with
  | none => simp
  | some length =>
      simp only [Option.bind_some]
      cases inetPton (explodeOnce '/' text).1 with
      | none => simp
      | some network =>
          cases network with
          | v6 base =>
              simp only [ite_self]
              refine iff_of_false Bool.false_ne_true ?_
              rintro ⟨n, hn, hin⟩
              split at hn
              · cases hn
              · cases hn
                exact hin
          | v4 base =>
              simp only
              by_cases hout : length < 0 ∨ 32 < length
              · simp [hout]
              · rw [if_neg hout, if_neg hout]
                simp only [Option.some.injEq, exists_eq_left', beq_iff_eq]
                show _ ↔ ∀ i < length.toNat, ip.getMsbD i = base.getMsbD i
                by_cases hzero : length = 0
                · simp [hzero]
                · rw [if_neg hzero]
                  exact masked_eq_iff (by omega)

theorem binaryInCidr_iff {x y : BitVec 128} {n : Nat} (hn : n ≤ 128) :
    binaryInCidr (packed x) (packed y) n = true ↔ ∀ i < n, x.getMsbD i = y.getMsbD i := by
  have hbytes := take_packed_eq_iff (x := x) (y := y) (n := n / 8) (by omega)
  simp only [binaryInCidr]
  by_cases hhead : (packed x).take (n / 8) = (packed y).take (n / 8)
  · rw [if_neg (by simp [hhead])]
    have hwhole := hbytes.mp hhead
    by_cases hbits : n % 8 = 0
    · rw [if_pos hbits]
      refine iff_of_true rfl fun i hi => hwhole i (by omega)
    · rw [if_neg hbits, beq_iff_eq, getElem?_packed (by omega), getElem?_packed (by omega)]
      have hmask := and_mask_eq_iff (x := x.extractLsb' (8 * (15 - n / 8)) 8)
        (y := y.extractLsb' (8 * (15 - n / 8)) 8) (n := n % 8) (by omega)
      rw [show BitVec.allOnes 8 = 0xFF#8 by decide] at hmask
      simp only [Option.getD_some]
      rw [hmask]
      constructor
      · intro h i hi
        by_cases hlow : i < 8 * (n / 8)
        · exact hwhole i hlow
        · have hbit := h (i - 8 * (n / 8)) (by omega)
          rw [getMsbD_byte (by omega) (by omega), getMsbD_byte (by omega) (by omega)] at hbit
          rwa [show 8 * (n / 8) + (i - 8 * (n / 8)) = i by omega] at hbit
      · intro h j hj
        rw [getMsbD_byte (by omega) (by omega), getMsbD_byte (by omega) (by omega)]
        exact h _ (by omega)
  · rw [if_pos]
    · refine iff_of_false Bool.false_ne_true fun h => hhead (hbytes.mpr fun i hi => h i (by omega))
    · refine ⟨?_, hhead⟩
      by_contra hzero
      exact hhead (by rw [show n / 8 = 0 by omega, List.take_zero, List.take_zero])

theorem ipInCidr_iff {ip : IpAddr} {text : String} :
    ipInCidr ip text = true ↔ ∃ n, cidr? text = some n ∧ n.Contains ip := by
  cases ip with
  | v4 ip =>
      rw [← ipv4InCidr_iff]
      simp only [ipInCidr, ipv4InCidr]
      cases (explodeOnce '/' text).2.bind numericInt? with
      | none => rfl
      | some length =>
          cases inetPton (explodeOnce '/' text).1 with
          | none => simp
          | some network => cases network <;> simp
  | v6 ip =>
      simp only [ipInCidr, cidr?]
      cases (explodeOnce '/' text).2.bind numericInt? with
      | none => simp
      | some length =>
          simp only [Option.bind_some]
          cases inetPton (explodeOnce '/' text).1 with
          | none => simp
          | some network =>
              cases network with
              | v4 base =>
                  refine iff_of_false nofun ?_
                  rintro ⟨n, hn, hin⟩
                  simp only at hn
                  split at hn
                  · cases hn
                  · cases hn
                    exact hin
              | v6 base =>
                  simp only
                  by_cases hout : length < 0 ∨ 128 < length
                  · simp [hout]
                  · rw [if_neg hout, if_neg hout]
                    simp only [Option.some.injEq, exists_eq_left']
                    exact binaryInCidr_iff (by omega)

/-! ## What an address is -/

/-- An IPv4-mapped address is the IPv4 address in it. -/
def unwrapped : IpAddr → IpAddr
  | .v4 ip => .v4 ip
  | .v6 ip =>
      if (⟨0xFFFF00000000#128, 96⟩ : Network 128).Contains ip then .v4 (ip.extractLsb' 0 32)
      else .v6 ip

def LinkLocal (ip : IpAddr) : Prop :=
  (IpNetwork.v4 ⟨0xA9FE0000#32, 16⟩).Contains ip ∨
    (IpNetwork.v6 ⟨0xFE80#128 <<< 112, 10⟩).Contains ip

def Loopback (ip : IpAddr) : Prop :=
  (IpNetwork.v4 ⟨0x7F000000#32, 8⟩).Contains ip ∨ ip = .v6 1#128

/-- Neither private nor reserved. -/
def GloballyRoutable (ip : IpAddr) : Prop := ¬ InRange (privateRanges ++ reservedRanges) ip

def SpecialUse (ip : IpAddr) : Prop := InRange specialUseIpv4 ip ∨ InRange specialUseIpv6 ip

theorem unwrapped_eq (ip : IpAddr) : (extractIpv4FromMappedIpv6 ip).getD ip = unwrapped ip := by
  cases ip with
  | v4 ip => rfl
  | v6 ip =>
      have hmapped : (packed ip).take 12 = List.replicate 10 0 ++ [0xFF, 0xFF] ↔
          (⟨0xFFFF00000000#128, 96⟩ : Network 128).Contains ip := by
        rw [show List.replicate 10 0 ++ [0xFF, 0xFF] = (packed 0xFFFF00000000#128).take 12 by
          decide]
        exact take_packed_eq_iff (by omega)
      simp only [extractIpv4FromMappedIpv6, unwrapped, hmapped]
      split <;> rfl

theorem unwrapped_unwrapped (ip : IpAddr) : unwrapped (unwrapped ip) = unwrapped ip := by
  cases ip with
  | v4 ip => rfl
  | v6 ip =>
      by_cases h : (⟨0xFFFF00000000#128, 96⟩ : Network 128).Contains ip
      · rw [unwrapped, if_pos h, unwrapped]
      · rw [unwrapped, if_neg h, unwrapped, if_neg h]

theorem isLinkLocalIp_iff {ip : IpAddr} : isLinkLocalIp ip = true ↔ LinkLocal ip := by
  have hv4 : cidr? "169.254.0.0/16" = some (.v4 ⟨0xA9FE0000#32, 16⟩) := rfl
  have hv6 : cidr? "fe80::/10" = some (.v6 ⟨0xFE80#128 <<< 112, 10⟩) := rfl
  cases ip with
  | v4 ip =>
      rw [isLinkLocalIp, ipv4InCidr_iff, hv4]
      simp [LinkLocal, IpNetwork.Contains]
  | v6 ip =>
      rw [isLinkLocalIp, ipInCidr_iff, hv6]
      simp [LinkLocal, IpNetwork.Contains]

theorem any_ipInCidr {ranges : List String} {ip : IpAddr} :
    ranges.any (ipInCidr ip) = true ↔ InRange ranges ip := by
  rw [List.any_eq_true]
  exact exists_congr fun text => and_congr_right fun _ => ipInCidr_iff

/-- An address is in no range of the other family. -/
theorem not_inRange {ranges : List String} {ip : IpAddr}
    (h : ∀ text ∈ ranges, (cidr? text).map IpNetwork.isV6 = some (!ip.isV6)) :
    ¬ InRange ranges ip := by
  rintro ⟨text, htext, n, hn, hin⟩
  have hfamily := h text htext
  rw [hn, Option.map_some, IpNetwork.isV6_of_contains hin] at hfamily
  simp at hfamily

theorem specialUseIpv4_isV6 :
    ∀ text ∈ specialUseIpv4, (cidr? text).map IpNetwork.isV6 = some false := by
  decide +kernel

theorem specialUseIpv6_isV6 :
    ∀ text ∈ specialUseIpv6, (cidr? text).map IpNetwork.isV6 = some true := by
  decide +kernel

theorem isSpecialUseIpv6_iff {ip : BitVec 128} :
    isSpecialUseIpv6 ip = true ↔ InRange specialUseIpv6 (.v6 ip) := by
  rw [isSpecialUseIpv6, List.any_eq_true]
  refine exists_congr fun text => and_congr_right fun htext => ?_
  obtain ⟨n, hn, hfamily⟩ := Option.map_eq_some_iff.mp (specialUseIpv6_isV6 text htext)
  obtain ⟨length, hlength, hn⟩ := Option.bind_eq_some_iff.mp hn
  rw [← ipInCidr_iff]
  split at hn
  · split at hn <;> cases hn
    cases hfamily
  · next base hbase =>
      split at hn
      · cases hn
      · next hin => simp only [ipInCidr, hlength, hbase, if_neg hin, Option.getD_some]
  · cases hn

theorem isSpecialUseIp_iff {ip : IpAddr} : isSpecialUseIp ip = true ↔ SpecialUse ip := by
  cases ip with
  | v4 ip =>
      have hother : ¬ InRange specialUseIpv6 (.v4 ip) := not_inRange specialUseIpv6_isV6
      rw [isSpecialUseIp, List.any_eq_true, SpecialUse, or_iff_left hother]
      exact exists_congr fun text => and_congr_right fun _ => ipv4InCidr_iff
  | v6 ip =>
      have hother : ¬ InRange specialUseIpv4 (.v6 ip) := not_inRange specialUseIpv4_isV6
      rw [isSpecialUseIp, SpecialUse, or_iff_right hother]
      exact isSpecialUseIpv6_iff

theorem isPublicIp_iff {ip : IpAddr} (h : unwrapped ip = ip) :
    isPublicIp ip = true ↔ GloballyRoutable ip ∧ ¬ SpecialUse ip := by
  rw [isPublicIp, unwrapped_eq, h, Bool.and_eq_true, Bool.not_eq_true', Bool.not_eq_true',
    ← Bool.not_eq_true, ← Bool.not_eq_true, any_ipInCidr, isSpecialUseIp_iff, GloballyRoutable]

theorem isLocalhostIp_iff {ip : IpAddr} (h : unwrapped ip = ip) :
    isLocalhostIp ip = true ↔ Loopback ip := by
  have hv4 : cidr? "127.0.0.0/8" = some (.v4 ⟨0x7F000000#32, 8⟩) := rfl
  have hv6 : inetPton "::1" = some (.v6 1#128) := rfl
  rw [isLocalhostIp, unwrapped_eq, h]
  cases ip with
  | v4 ip =>
      simp only [ipv4InCidr_iff, hv4]
      simp [Loopback]
  | v6 ip =>
      simp only [hv6, beq_iff_eq, Option.some.injEq]
      simp [Loopback, IpNetwork.Contains]

theorem reserved_of_loopback {ip : IpAddr} (h : Loopback ip) : ¬ GloballyRoutable ip := by
  refine not_not_intro ?_
  rcases h with h | rfl
  · exact ⟨"127.0.0.0/8", by decide, _, rfl, h⟩
  · exact ⟨"::1/128", by decide, .v6 ⟨1#128, 128⟩, rfl, fun i _ => rfl⟩

/-! ## What is let through -/

/-- The network that an entry of the allow-list stands for, if it is not a name. -/
def entryNetwork? (entry : String) : Option IpNetwork :=
  if strContains entry "/" then cidr? entry else (inetPton entry).map IpAddr.network

/-- The host as the rule looks it up. -/
def PhpUrl.hostForDns (url : PhpUrl) : String :=
  rtrimChar '.' (normalizeHostForIpCheck (strtolower (url.host.getD "")))

/-- The port that a client connects to. -/
def PhpUrl.connectPort (url : PhpUrl) : Nat :=
  url.port.getD (if strtolower (url.scheme.getD "") = "https" then 443 else 80)

namespace SafeWebhookUrl

/-- Trusted, or on the allow-list by its name, its address or a network. -/
def Covered (rule : SafeWebhookUrl) (host : String) (ip : IpAddr) : Prop :=
  rule.isAllowedHostname host = true ∨
    ∃ entry ∈ rule.allowlistEntries, ∃ n, entryNetwork? entry = some n ∧ n.Contains ip

structure Safe (rule : SafeWebhookUrl) (host : String) (ip : IpAddr) : Prop where
  notLinkLocal : ¬ LinkLocal ip
  loopback : Loopback ip → rule.allowLocalhost = true
  reach : (GloballyRoutable ip ∧ ¬ SpecialUse ip) ∨ rule.Covered host ip

/-- What the host of a URL resolves to; an address resolves to itself. -/
def addresses (rule : SafeWebhookUrl) (url : PhpUrl) : List IpAddr :=
  (inetPton url.hostForDns).elim ((rule.resolveHost url.hostForDns).map (·.addr)) fun ip => [ip]

/-- The checks that only `validate` makes: a valid URL, its scheme, and its host. -/
def passesUrlChecks (rule : SafeWebhookUrl) (url : PhpUrl) : Bool :=
  url.isValid && ["https", "http"].contains (strtolower (url.scheme.getD "")) &&
    url.host.getD "" != "0" &&
      (!isBlockedHostname url.hostForDns || rule.isAllowedHostname url.hostForDns)

/-- The checks that `resolveUrlForRequest` makes, too. -/
def Reachable (rule : SafeWebhookUrl) (url : PhpUrl) : Prop :=
  url.host.getD "" ≠ "" ∧ strEndsWith (url.host.getD "") "." = false ∧
    rule.addresses url ≠ [] ∧
      ∀ ip ∈ rule.addresses url, rule.isAllowedIp ip url.hostForDns = true

variable {rule : SafeWebhookUrl} {url : PhpUrl} {host : String} {ip : IpAddr}

theorem isAllowlistedIp_iff : rule.isAllowlistedIp ip = true ↔
    ∃ entry ∈ rule.allowlistEntries, ∃ n, entryNetwork? entry = some n ∧ n.Contains ip := by
  rw [isAllowlistedIp, List.any_eq_true]
  refine exists_congr fun entry => and_congr_right fun _ => ?_
  rw [entryNetwork?]
  split
  · exact ipInCidr_iff
  · cases inetPton entry with
    | none => simp
    | some addr =>
        simp only [Option.map_some, Option.some.injEq, exists_eq_left', IpAddr.network_contains,
          beq_iff_eq]
        exact eq_comm

theorem safe_of_isAllowedIp (h : rule.isAllowedIp ip host = true) :
    rule.Safe host (unwrapped ip) := by
  have hself := unwrapped_unwrapped ip
  simp only [isAllowedIp, unwrapped_eq] at h
  by_cases hlink : isLinkLocalIp (unwrapped ip) = true
  · simp [hlink] at h
  rw [if_neg hlink] at h
  rw [isLinkLocalIp_iff] at hlink
  by_cases hpublic : isPublicIp (unwrapped ip) = true
  · obtain ⟨hroutable, hspecial⟩ := (isPublicIp_iff hself).mp hpublic
    exact ⟨hlink, fun hloop => absurd hroutable (reserved_of_loopback hloop),
      .inl ⟨hroutable, hspecial⟩⟩
  rw [if_neg hpublic] at h
  by_cases hloop : isLocalhostIp (unwrapped ip) = true
  · rw [if_pos hloop, Bool.and_eq_true, Bool.or_eq_true, isAllowlistedIp_iff] at h
    exact ⟨hlink, fun _ => h.1, .inr h.2⟩
  rw [if_neg hloop] at h
  rw [isLocalhostIp_iff hself] at hloop
  refine ⟨hlink, fun h => absurd h hloop, .inr ?_⟩
  split at h
  · rwa [Bool.or_eq_true, isAllowlistedIp_iff] at h
  · exact .inr (isAllowlistedIp_iff.mp h)

theorem Reachable.safe (h : rule.Reachable url) :
    ∀ ip ∈ rule.addresses url, rule.Safe url.hostForDns (unwrapped ip) :=
  fun ip hip => safe_of_isAllowedIp (h.2.2.2 ip hip)

theorem firstBlocked_eq_none {ips : List IpText} : rule.firstBlocked ips host = none ↔
    ∀ ip ∈ ips.map (·.addr), rule.isAllowedIp ip host = true := by
  simp [firstBlocked]

/-! ## No trailing dot -/

theorem rtrimChar_of_last {c : Char} {s : String} (h : ∀ cs, s.toList ≠ cs ++ [c]) :
    rtrimChar c s = s := by
  rw [rtrimChar]
  cases hs : s.toList.reverse with
  | nil => 
      have : s.toList = [] := List.reverse_eq_nil_iff.mp hs
      rw [← String.ofList_toList (s := s), this]
      rfl
  | cons x xs =>
      have hx : x ≠ c := by
        rintro rfl
        exact h xs.reverse (by rw [← List.reverse_reverse s.toList, hs, List.reverse_cons])
      rw [List.dropWhile_cons_of_neg (by simpa using hx), ← hs, List.reverse_reverse,
        String.ofList_toList]

theorem strEndsWith_dot {s : String} {cs : List Char} (h : s.toList = cs ++ ['.']) :
    strEndsWith s "." = true := by
  rw [strEndsWith, List.isSuffixOf_iff_suffix, h]
  exact List.suffix_append cs ['.']

theorem toLower_eq_dot {c : Char} (h : c.toLower = '.') : c = '.' := by
  unfold Char.toLower at h
  split at h
  · next hupper =>
      have hval := congrArg (fun x : Char => x.val.toNat) h
      obtain ⟨hlow, hhigh⟩ := hupper
      rw [ge_iff_le, UInt32.le_iff_toNat_le] at hlow
      rw [UInt32.le_iff_toNat_le] at hhigh
      simp at hval hlow hhigh
      omega
  · exact h

/-- The host of a URL that passes is looked up as it is checked. -/
theorem hostForDns_eq {h : String} (hvalid : url.isValid = true)
    (hscheme : ["https", "http"].contains (strtolower (url.scheme.getD "")) = true)
    (hhost : url.host.getD "" = h) (hne : h ≠ "") (hdot : strEndsWith h "." = false) :
    url.hostForDns = normalizeHostForIpCheck (strtolower h) := by
  have hsome : url.host = some h := by
    cases hu : url.host with
    | none => exact absurd (by rw [← hhost, hu]; rfl) hne
    | some h' => rw [← hhost, hu]; rfl
  rw [PhpUrl.hostForDns, hhost]
  refine rtrimChar_of_last fun cs hcs => ?_
  by_cases hbrackets : normalizeHostForIpCheck (strtolower h) = strtolower h
  · rw [hbrackets, strtolower, String.toList_ofList] at hcs
    obtain ⟨front, last, hsplit, -, hlast⟩ := List.map_eq_append_iff.mp hcs
    obtain ⟨c, rest, rfl, hc, hnil⟩ := List.map_eq_cons_iff.mp hlast
    rw [List.map_eq_nil_iff.mp hnil, toLower_eq_dot hc] at hsplit
    rw [strEndsWith_dot hsplit] at hdot
    cases hdot
  · obtain ⟨bits, hbits⟩ := url.brackets hvalid hscheme h hsome hbrackets
    rw [inetPton, hcs, ipv4?_concat_point, ipv6?_concat_point] at hbits
    cases hbits
/-! ## Both paths -/

theorem nameAllowed_iff :
    ¬ (isBlockedHostname host = true ∧ (!rule.isAllowedHostname host) = true) ↔
      (!isBlockedHostname host || rule.isAllowedHostname host) = true := by
  cases isBlockedHostname host with
  | false => simp
  | true => simp

/-- `validate` makes its checks of the URL and then those of the addresses. -/
theorem validate_eq_none_iff {attr : String} : rule.validate attr url = none ↔
    rule.passesUrlChecks url = true ∧ rule.Reachable url := by
  simp only [validate, passesUrlChecks, Reachable, Bool.and_eq_true, bne_iff_ne]
  by_cases hvalid : url.isValid = true
  swap
  · simp [hvalid]
  rw [if_neg (by simp [hvalid])]
  by_cases hscheme : ["https", "http"].contains (strtolower (url.scheme.getD "")) = true
  swap
  · rw [if_pos (by simpa using hscheme)]
    exact iff_of_false (Option.some_ne_none _) fun h => hscheme h.1.1.1.2
  rw [if_neg (by rw [hscheme]; decide)]
  by_cases hhost : url.host.getD "" = "" ∨ url.host.getD "" = "0"
  · rw [if_pos hhost]
    exact iff_of_false (Option.some_ne_none _) fun h => hhost.elim h.2.1 h.1.1.2
  rw [if_neg hhost]
  obtain ⟨hne, hzero⟩ := not_or.mp hhost
  cases hdot : strEndsWith (url.host.getD "") "." with
  | true => simp
  | false =>
      have hdns := hostForDns_eq hvalid hscheme rfl hne hdot
      have hlookup : rtrimChar '.' (normalizeHostForIpCheck (strtolower (url.host.getD ""))) =
          url.hostForDns := rfl
      rw [if_neg (by simp), hlookup, ← hdns, addresses]
      by_cases hblocked : isBlockedHostname url.hostForDns = true ∧
          (!rule.isAllowedHostname url.hostForDns) = true
      · rw [if_pos hblocked]
        exact iff_of_false (Option.some_ne_none _) fun h => nameAllowed_iff.mpr h.1.2 hblocked
      · rw [if_neg hblocked]
        have hname := nameAllowed_iff.mp hblocked
        simp only [hvalid, hscheme, hname, hne, hzero, true_and, ne_eq, not_false_eq_true]
        cases inetPton url.hostForDns with
        | some ip => simp
        | none =>
            simp only
            cases hips : rule.resolveHost url.hostForDns with
            | nil => simp
            | cons ip ips =>
                simp [firstBlocked_eq_none]

/-- `resolveUrlForRequest` makes those of the addresses alone. -/
theorem resolveUrlForRequest_eq_ok_iff {target : RequestTarget} :
    rule.resolveUrlForRequest url = .ok target ↔ rule.forRequest.Reachable url ∧
      target = ⟨url.hostForDns,
        (url.port.filter (· ≠ 0)).getD
          (if strtolower (url.scheme.getD "") = "https" then 443 else 80),
        if (inetPton url.hostForDns).isSome then []
        else rule.forRequest.resolveHost url.hostForDns⟩ := by
  have hlookup : rtrimChar '.' (normalizeHostForIpCheck (strtolower (url.host.getD ""))) =
      url.hostForDns := rfl
  simp only [resolveUrlForRequest, Reachable, addresses, hlookup]
  by_cases hne : url.host.getD "" = ""
  · simp [hne]
  rw [if_neg hne]
  cases hdot : strEndsWith (url.host.getD "") "." with
  | true => simp
  | false =>
      rw [if_neg (by simp)]
      cases inetPton url.hostForDns with
      | some ip =>
          by_cases hip : rule.forRequest.isAllowedIp ip url.hostForDns = true
          · simp only [if_pos hip]
            rw [Except.ok.injEq]
            exact ⟨fun h => ⟨⟨hne, trivial, by simp, by simpa using hip⟩, h.symm⟩,
              fun h => h.2.symm⟩
          · simp [hip]
      | none =>
          simp only
          cases hips : rule.forRequest.resolveHost url.hostForDns with
          | nil => simp
          | cons ip ips =>
              cases hblocked : rule.forRequest.firstBlocked (ip :: ips) url.hostForDns with
              | some blocked =>
                  refine iff_of_false (by simp) fun h => ?_
                  rw [firstBlocked_eq_none.mpr h.1.2.2.2] at hblocked
                  cases hblocked
              | none =>
                  have hall := firstBlocked_eq_none.mp hblocked
                  rw [if_neg (by simp), if_neg (by simp), Except.ok.injEq]
                  exact ⟨fun h => ⟨⟨hne, trivial, by simp, hall⟩, h.symm⟩, fun h => h.2.symm⟩

/-- The connection is made to the addresses that were checked: the host is one of
them, or is pinned to them. -/
structure Pins (rule : SafeWebhookUrl) (url : PhpUrl) (target : RequestTarget) : Prop where
  host : target.host = url.hostForDns
  port : url.port ≠ some 0 → target.port = url.connectPort
  literal : (inetPton url.hostForDns).isSome = true →
    rule.httpClientOptions true url = .ok ⟨false, none⟩
  name : inetPton url.hostForDns = none →
    target.ips.map (·.addr) = rule.forRequest.addresses url ∧
      rule.httpClientOptions true url = .ok ⟨false, some [target.host ++ ":" ++
        toString target.port ++ ":" ++ ",".intercalate (target.ips.map pinnedAddress)]⟩

theorem httpClientOptions_eq {target : RequestTarget}
    (h : rule.resolveUrlForRequest url = .ok target) : rule.httpClientOptions true url =
      if target.ips.isEmpty || (inetPton target.host).isSome then .ok ⟨false, none⟩
      else .ok ⟨false, some [target.host ++ ":" ++ toString target.port ++ ":" ++
        ",".intercalate (target.ips.map pinnedAddress)]⟩ := by
  rw [httpClientOptions, h]
  rfl

theorem httpClientOptions_error {message : String}
    (h : rule.resolveUrlForRequest url = .error message) :
    rule.httpClientOptions true url = .error message := by
  rw [httpClientOptions, h]
  rfl

theorem pins {target : RequestTarget} (h : rule.resolveUrlForRequest url = .ok target) :
    rule.Pins url target := by
  have hoptions := httpClientOptions_eq h
  obtain ⟨hreach, rfl⟩ := resolveUrlForRequest_eq_ok_iff.mp h
  refine ⟨rfl, fun hport => ?_, fun hliteral => ?_, fun hname => ?_⟩
  · show (url.port.filter (· ≠ 0)).getD _ = _
    rw [PhpUrl.connectPort]
    cases hp : url.port with
    | none => rfl
    | some p =>
        have hne : p ≠ 0 := fun hzero => hport (by rw [hp, hzero])
        rw [Option.filter_some, if_pos (by simpa using hne)]
  · rw [hoptions, if_pos (by simp [hliteral])]
  · have hfound := hreach.2.2.1
    simp only [addresses, hname, Option.elim_none, Option.isSome_none, Bool.false_eq_true,
      if_false] at hfound hoptions ⊢
    refine ⟨trivial, ?_⟩
    rw [hoptions, if_neg]
    simpa using hfound
end SafeWebhookUrl

open SafeWebhookUrl

theorem webhook_targets_safe (rule : SafeWebhookUrl) (attr : String) (url : PhpUrl) :
    (rule.validate attr url = none →
      ∀ ip ∈ rule.addresses url, rule.Safe url.hostForDns (unwrapped ip)) ∧
    (rule.forRequest.addresses url = rule.addresses url →
      (rule.validate attr url = none ↔ rule.passesUrlChecks url = true ∧
        ∃ options, rule.httpClientOptions true url = .ok options)) ∧
    ((∃ options, rule.httpClientOptions true url = .ok options) ↔
      ∃ target, rule.resolveUrlForRequest url = .ok target) ∧
    ∀ target, rule.resolveUrlForRequest url = .ok target →
      (∀ ip ∈ rule.forRequest.addresses url, rule.Safe url.hostForDns (unwrapped ip)) ∧
        rule.Pins url target := by
  have haccept : (∃ options, rule.httpClientOptions true url = .ok options) ↔
      ∃ target, rule.resolveUrlForRequest url = .ok target := by
    cases h : rule.resolveUrlForRequest url with
    | error message =>
        rw [httpClientOptions_error h]
        exact iff_of_false (fun ⟨_, ho⟩ => nomatch ho) fun ⟨_, ht⟩ => nomatch ht
    | ok target =>
        rw [httpClientOptions_eq h]
        refine iff_of_true ?_ ⟨target, rfl⟩
        split
        · exact ⟨_, rfl⟩
        · exact ⟨_, rfl⟩
  refine ⟨fun h => (validate_eq_none_iff.mp h).2.safe, fun hanswer => ?_, haccept,
    fun target h => ⟨fun ip hip => ?_, pins h⟩⟩
  · have hreach : rule.forRequest.Reachable url ↔ rule.Reachable url := by
      simp only [Reachable, hanswer]
      exact Iff.rfl
    rw [validate_eq_none_iff, haccept]
    refine and_congr_right fun _ => ?_
    simp only [resolveUrlForRequest_eq_ok_iff, hreach]
    exact ⟨fun h => ⟨_, h, rfl⟩, fun ⟨_, h, _⟩ => h⟩
  · have hsafe := (resolveUrlForRequest_eq_ok_iff.mp h).1.safe ip hip
    exact ⟨hsafe.notLinkLocal, hsafe.loopback, hsafe.reach⟩

/-- A host whose name DNS answers with an IPv4-mapped address of an allowed network. -/
theorem webhook_targets_mapped :
    let settings : WebhookSettings := ⟨.text "10.0.0.0/8, minio", false, ""⟩
    let rule : SafeWebhookUrl :=
      ⟨none, [], some settings, fun _ => ["::ffff:10.0.0.5"], fun _ _ => [], ""⟩
    let url : PhpUrl := ⟨true, some "https", some "Hooks.example.com", none,
      fun _ _ h hh hne => absurd (by rw [← Option.some.inj hh]; decide +kernel) hne⟩
    rule.addresses url = [.v6 0xFFFF0A000005#128] ∧
      rule.Safe "hooks.example.com" (.v4 0x0A000005#32) ∧
      ∃ target, rule.resolveUrlForRequest url = .ok target ∧ rule.Pins url target := by
  intro settings rule url
  have haddr : rule.addresses url = [.v6 0xFFFF0A000005#128] := by decide +kernel
  obtain ⟨hsafe, hagree, hrequest, hpins⟩ := webhook_targets_safe rule "webhook" url
  have hvalid : rule.validate "webhook" url = none := by decide +kernel
  obtain ⟨target, htarget⟩ := hrequest.mp ((hagree rfl).mp hvalid).2
  have hsafe := hsafe hvalid (.v6 0xFFFF0A000005#128) (by
    rw [haddr]
    exact List.mem_singleton_self _)
  rw [show unwrapped (.v6 0xFFFF0A000005#128) = .v4 0x0A000005#32 by decide +kernel,
    show url.hostForDns = "hooks.example.com" by decide +kernel] at hsafe
  exact ⟨haddr, hsafe, target, htarget, (hpins target htarget).2⟩

/-- A blocked name that DNS answers with a public address: `validate` refuses it,
the request is made. -/
theorem internal_name_requested :
    ¬ ∀ (rule : SafeWebhookUrl) (attr : String) (url : PhpUrl),
      rule.forRequest.addresses url = rule.addresses url →
        (rule.validate attr url = none ↔
          ∃ options, rule.httpClientOptions true url = .ok options) := by
  intro h
  let rule : SafeWebhookUrl := ⟨none, [], none, fun _ => ["93.184.216.34"], fun _ _ => [], ""⟩
  let url : PhpUrl := ⟨true, some "http", some "printer.internal", none,
    fun _ _ h hh hne => absurd (by rw [← Option.some.inj hh]; decide +kernel) hne⟩
  have hrefused : rule.validate "webhook" url ≠ none := by decide +kernel
  have hrequest : ((rule.httpClientOptions true url).toOption).isSome = true := by decide +kernel
  obtain ⟨options, hoptions⟩ := Option.isSome_iff_exists.mp hrequest
  exact hrefused ((h rule "webhook" url rfl).mpr ⟨options, Conc.eq_ok_of_toOption hoptions⟩)

end OnePloy
