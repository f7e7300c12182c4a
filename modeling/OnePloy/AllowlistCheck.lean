import OnePloy.ApiAllowlist

/-!
# The allow-list decides by address, except for bare IPv6 entries

What an entry allows in terms of addresses is its `allowRange?`: everyone, or a
network of one family. The mask on 64-bit integers and the byte-wise one of unequal
lengths are both membership in that network (`blockMatches_iff`), so the check
decides by address (`entryMatches_iff`), but for a bare entry it compares texts: a
list goes wrong exactly where a bare IPv6 entry in another spelling is the only one
that stands for the client.
-/

namespace OnePloy

open Php Net

/-! ## What entries stand for -/

inductive AllowRange
  | everyone
  | network (n : IpNetwork)
deriving DecidableEq

def AllowRange.Contains : AllowRange → IpAddr → Prop
  | .everyone, _ => True
  | .network n, a => n.Contains a

/-- The addresses whose first `len` bits are those of the address. -/
def block : IpAddr → Nat → IpNetwork
  | .v4 bits, len => .v4 ⟨bits, len⟩
  | .v6 bits, len => .v6 ⟨bits, len⟩

def IsZeroForm (entry : String) : Prop :=
  trim entry = "0.0.0.0" ∨ (strContains (trim entry) "/" ∧
    (subnetAndMask (trim entry)).1 = "0.0.0.0")

instance (entry : String) : Decidable (IsZeroForm entry) :=
  inferInstanceAs (Decidable (_ ∨ _))

/-- What an entry stands for: a form of `0.0.0.0`, a block with a mask that fits the
family, or one address. -/
def allowRange? (entry : String) : Option AllowRange :=
  if IsZeroForm entry then some .everyone
  else if strContains (trim entry) "/" then
    let parts := subnetAndMask (trim entry)
    (inetPton parts.1).bind fun a =>
      if isNumeric parts.2 ∧ 0 ≤ intCast parts.2 ∧ intCast parts.2 ≤ maxMask parts.1 then
        some (.network (block a (intCast parts.2).toNat))
      else none
  else (inetPton (trim entry)).map fun a => .network a.network

/-- The entry stands for the address, among others. -/
def Admits (entry : String) (a : IpAddr) : Prop :=
  ∃ r, allowRange? entry = some r ∧ r.Contains a

/-- The entry is the bare address, in another spelling than the client's. -/
def Respells (entry ip : String) (a : IpAddr) : Prop :=
  ¬ IsZeroForm entry ∧ ¬ strContains (trim entry) "/" ∧ inetPton (trim entry) = some a ∧
    trim entry ≠ ip

def Accepted (entry : String) : Prop := ValidIpOrCidr.isInvalid (trim entry) = false

instance (entry : String) : Decidable (Accepted entry) := inferInstanceAs (Decidable (_ = _))

/-! ## Blocks -/

theorem maskLong_eq {k : Nat} (hk : k ≤ 32) :
    ~~~((1#64 <<< k) - 1#64) = (-1 : BitVec 64) <<< k := by
  have hall : ∀ k : Fin 33, ~~~((1#64 <<< k.val) - 1#64) = (-1 : BitVec 64) <<< k.val := by decide
  exact hall ⟨k, by omega⟩

/-- Every byte of the mask has as many leading ones as are left of the mask there. -/
theorem maskBytes_eq {n : Nat} (hn : n ≤ 128) :
    maskBytes n = (List.range 16).map fun k => BitVec.allOnes 8 <<< (8 - (n - 8 * k)) := by
  have hall : ∀ n : Fin 129, maskBytes n.val =
      (List.range 16).map fun k => BitVec.allOnes 8 <<< (8 - (n.val - 8 * k)) := by decide +kernel
  exact hall ⟨n, by omega⟩

theorem andBytes_packed_eq_iff {x y : BitVec 128} {n : Nat} (hn : n ≤ 128) :
    andBytes (packed x) (maskBytes n) = andBytes (packed y) (maskBytes n) ↔
      ∀ i < n, x.getMsbD i = y.getMsbD i := by
  rw [maskBytes_eq hn, andBytes, andBytes, packed, packed, List.zipWith_map, List.zipWith_map,
    List.zipWith_self, List.zipWith_self, List.map_inj_left]
  have hbyte : ∀ k < 16, x.extractLsb' (8 * (15 - k)) 8 &&& BitVec.allOnes 8 <<< (8 - (n - 8 * k)) =
      y.extractLsb' (8 * (15 - k)) 8 &&& BitVec.allOnes 8 <<< (8 - (n - 8 * k)) ↔
        ∀ j < min 8 (n - 8 * k), x.getMsbD (8 * k + j) = y.getMsbD (8 * k + j) := by
    intro k hk
    have hmask := and_mask_eq_iff (x := x.extractLsb' (8 * (15 - k)) 8)
      (y := y.extractLsb' (8 * (15 - k)) 8) (n := min 8 (n - 8 * k)) (by omega)
    rw [show 8 - min 8 (n - 8 * k) = 8 - (n - 8 * k) by omega] at hmask
    rw [hmask]
    refine forall₂_congr fun j hj => ?_
    rw [getMsbD_byte hk (by omega), getMsbD_byte hk (by omega)]
  constructor
  · intro h i hi
    have hbits := (hbyte (i / 8) (by omega)).mp (h (i / 8) (List.mem_range.mpr (by omega)))
    have hbit := hbits (i % 8) (by omega)
    rwa [show 8 * (i / 8) + i % 8 = i by omega] at hbit
  · intro h k hk
    exact (hbyte k (List.mem_range.mp hk)).mpr fun j hj => h _ (by omega)

theorem ip2long_v4 {ip : String} {bits : BitVec 32} (h : inetPton ip = some (.v4 bits)) :
    ip2long ip = some (bits.setWidth 64) := by
  rw [ip2long, inetPton_v4.mp h, Option.map_some]

theorem ip2long_v6 {ip : String} {bits : BitVec 128} (h : inetPton ip = some (.v6 bits)) :
    ip2long ip = none := by
  cases hv4 : ipv4? ip.toList with
  | none => rw [ip2long, hv4, Option.map_none]
  | some bits' => cases h.symm.trans (inetPton_v4.mpr hv4)

theorem ip2long_none {ip : String} (h : inetPton ip = none) : ip2long ip = none := by
  cases hv4 : ipv4? ip.toList with
  | none => rw [ip2long, hv4, Option.map_none]
  | some bits => cases h.symm.trans (inetPton_v4.mpr hv4)

theorem isIpv6_eq {ip : String} {a : IpAddr} (h : inetPton ip = some a) : isIpv6 ip = a.isV6 := by
  rw [isIpv6, h, Option.any_some]

/-- Four bytes under a mask are not sixteen. -/
theorem andBytes_ne {xs ys : List (BitVec 8)} {n : Nat} (hn : n ≤ 128) (hx : xs.length = 4)
    (hy : ys.length = 16) : andBytes xs (maskBytes n) ≠ andBytes ys (maskBytes n) := by
  intro h
  have hlen := congrArg List.length h
  simp [andBytes, maskBytes_eq hn, hx, hy] at hlen

theorem blockMatches_iff {ip subnet : String} {mask : Int} {a b : IpAddr}
    (hip : inetPton ip = some a) (hsubnet : inetPton subnet = some b) (hlow : 0 ≤ mask)
    (hhigh : mask ≤ maxMask subnet) :
    blockMatches ip subnet mask = true ↔ (block b mask.toNat).Contains a := by
  have hrange : ¬ (mask < 0 ∨ (maxMask subnet : Int) < mask) := by omega
  rw [blockMatches, if_neg hrange, isIpv6_eq hsubnet]
  rw [maxMask, isIpv6_eq hsubnet] at hhigh
  cases b with
  | v6 network =>
      have hle : mask.toNat ≤ 128 := by simp [IpAddr.isV6] at hhigh; omega
      cases a with
      | v6 client =>
          simp only [IpAddr.isV6, if_true, packedIp, hip, hsubnet, Option.map_some, beq_iff_eq]
          exact andBytes_packed_eq_iff hle
      | v4 client =>
          simp only [IpAddr.isV6, if_true, packedIp, hip, hsubnet, Option.map_some, beq_iff_eq]
          exact iff_of_false (andBytes_ne hle (by simp) (by simp [packed])) id
  | v4 network =>
      have hle : mask.toNat ≤ 32 := by simp [IpAddr.isV6] at hhigh; omega
      cases a with
      | v4 client =>
          simp only [IpAddr.isV6, Bool.false_eq_true, if_false, ip2long_v4 hip,
            ip2long_v4 hsubnet, beq_iff_eq]
          rw [maskLong_eq (show 32 - mask.toNat ≤ 32 by omega)]
          exact masked_eq_iff hle
      | v6 client =>
          simp only [IpAddr.isV6, Bool.false_eq_true, if_false, ip2long_v6 hip]
          exact iff_of_false nofun id

theorem blockMatches_of_none {ip subnet : String} {mask : Int} (h : inetPton subnet = none) :
    blockMatches ip subnet mask = false := by
  have hv6 : isIpv6 subnet = false := by rw [isIpv6, h, Option.any_none]
  unfold blockMatches
  rw [hv6, ip2long_none h]
  cases ip2long ip <;> simp

theorem blockMatches_of_client_none {ip subnet : String} {mask : Int} (h : inetPton ip = none) :
    blockMatches ip subnet mask = false := by
  unfold blockMatches
  rw [ip2long_none h, packedIp, h]
  simp

/-! ## Accepted entries -/

theorem subnetAndMask_of_explode {text subnet mask : String} {rest : List String}
    (h : explode '/' text = subnet :: mask :: rest) : subnetAndMask text = (subnet, mask) := by
  rw [subnetAndMask, h]

/-- What begins with `0.0.0.0` begins so before its slash. -/
theorem strStartsWith_subnet {text : String} (h : strStartsWith text "0.0.0.0") :
    strStartsWith (subnetAndMask text).1 "0.0.0.0" := by
  obtain ⟨cs, hcs⟩ := List.isPrefixOf_iff_prefix.mp h
  have htext : text.toList = zeros ++ cs := hcs.symm
  cases hp : pieces '/' cs with
  | nil => exact absurd hp (pieces_ne_nil '/' cs)
  | cons p ps =>
      have hexplode : explode '/' text =
          String.ofList (zeros ++ p) :: ps.map String.ofList := by
        rw [explode, htext, pieces_append (by decide) hp, List.map_cons]
      cases ps with
      | nil =>
          rw [subnetAndMask, hexplode]
          exact h
      | cons q qs =>
          rw [subnetAndMask_of_explode hexplode]
          exact List.isPrefixOf_iff_prefix.mpr ⟨p, by simp [zeros]⟩

theorem emptyText_iff {s : String} : emptyText s = true ↔ s = "" ∨ s = "0" := by
  simp [emptyText, Value.truthy]

theorem not_emptyText_of_slash {s : String} (h : strContains s "/") : ¬ emptyText s := by
  rw [emptyText_iff]
  rintro (rfl | rfl) <;> revert h <;> decide +kernel

/-- Before the slash of an accepted entry stands an address with a mask that fits it,
or none. -/
theorem Accepted.block {entry : String} {b : IpAddr} (h : Accepted entry)
    (hzero : ¬ IsZeroForm entry) (hslash : strContains (trim entry) "/")
    (hb : inetPton (subnetAndMask (trim entry)).1 = some b) :
    isNumeric (subnetAndMask (trim entry)).2 ∧ 0 ≤ intCast (subnetAndMask (trim entry)).2 ∧
      intCast (subnetAndMask (trim entry)).2 ≤ maxMask (subnetAndMask (trim entry)).1 := by
  unfold Accepted ValidIpOrCidr.isInvalid at h
  rw [if_neg (not_emptyText_of_slash hslash)] at h
  by_cases hstarts : strStartsWith (trim entry) "0.0.0.0"
  · exact absurd (.inr ⟨hslash, eq_of_zeros (strStartsWith_subnet hstarts) hb⟩) hzero
  · rw [if_neg hstarts, if_pos hslash] at h
    split at h
    case h_2 => cases h
    case h_1 ip mask hexplode =>
      rw [subnetAndMask_of_explode hexplode] at hb ⊢
      simp only [Bool.or_eq_false_iff, Bool.not_eq_false', decide_eq_false_iff_not, not_lt] at h
      obtain ⟨⟨⟨-, hnumeric⟩, hlow⟩, hhigh⟩ := h
      have hmax : (maxMask ip : Int) ≤ intMax := by
        unfold maxMask
        split <;> decide
      exact ⟨hnumeric, intCast_mem hmax hlow (by exact_mod_cast hhigh)⟩

theorem allowRange?_zeroForm {entry : String} (h : IsZeroForm entry) :
    allowRange? entry = some .everyone :=
  if_pos h

theorem allowRange?_none {entry : String} (hzero : ¬ IsZeroForm entry)
    (hslash : strContains (trim entry) "/")
    (hb : inetPton (subnetAndMask (trim entry)).1 = none) : allowRange? entry = none := by
  unfold allowRange?
  rw [if_neg hzero, if_pos hslash]
  simp only [hb, Option.bind_none]

theorem Accepted.allowRange?_block {entry : String} {b : IpAddr} (h : Accepted entry)
    (hzero : ¬ IsZeroForm entry) (hslash : strContains (trim entry) "/")
    (hb : inetPton (subnetAndMask (trim entry)).1 = some b) :
    allowRange? entry =
      some (.network (OnePloy.block b (intCast (subnetAndMask (trim entry)).2).toNat)) := by
  unfold allowRange?
  rw [if_neg hzero, if_pos hslash]
  simp only [hb, Option.bind_some]
  exact if_pos (h.block hzero hslash hb)

theorem allowRange?_bare {entry : String} (hzero : ¬ IsZeroForm entry)
    (hslash : ¬ strContains (trim entry) "/") :
    allowRange? entry = (inetPton (trim entry)).map fun a => .network a.network := by
  unfold allowRange?
  rw [if_neg hzero, if_neg hslash]

theorem entryMatches_zeroForm {entry ip : String} (h : IsZeroForm entry) :
    entryMatches ip entry = true := by
  unfold entryMatches
  rcases h with htext | ⟨hslash, hsubnet⟩
  · rw [htext, if_neg (by decide +kernel), if_neg (by decide +kernel), if_pos rfl]
  · rw [if_neg (not_emptyText_of_slash hslash), if_pos hslash, if_pos hsubnet]

/-- An accepted entry lets in whom it stands for, unless it spells the client otherwise. -/
theorem entryMatches_iff {entry ip : String} {a : IpAddr} (h : Accepted entry)
    (hip : inetPton ip = some a) :
    entryMatches ip entry = true ↔ Admits entry a ∧ ¬ Respells entry ip a := by
  by_cases hzero : IsZeroForm entry
  · have hadmits : Admits entry a := ⟨.everyone, if_pos hzero, trivial⟩
    exact iff_of_true (entryMatches_zeroForm hzero) ⟨hadmits, fun hr => hr.1 hzero⟩
  · by_cases hslash : strContains (trim entry) "/"
    · have hsubnet : (subnetAndMask (trim entry)).1 ≠ "0.0.0.0" :=
        fun hs => hzero (.inr ⟨hslash, hs⟩)
      have hrespells : ¬ Respells entry ip a := fun hr => hr.2.1 hslash
      rw [entryMatches, if_neg (not_emptyText_of_slash hslash), if_pos hslash, if_neg hsubnet,
        and_iff_left hrespells, Admits]
      cases hb : inetPton (subnetAndMask (trim entry)).1 with
      | none => simp [blockMatches_of_none hb, allowRange?_none hzero hslash hb]
      | some b =>
          obtain ⟨-, hlow, hhigh⟩ := h.block hzero hslash hb
          rw [blockMatches_iff hip hb hlow hhigh, h.allowRange?_block hzero hslash hb]
          simp [AllowRange.Contains]
    · have hbare : trim entry ≠ "0.0.0.0" := fun ht => hzero (.inl ht)
      have hadmits : Admits entry a ↔ inetPton (trim entry) = some a := by
        rw [Admits, allowRange?_bare hzero hslash]
        cases inetPton (trim entry) with
        | none => simp
        | some b => simp [AllowRange.Contains, IpAddr.network_contains, eq_comm]
      rw [hadmits, Respells, entryMatches, if_neg hslash, if_neg hbare]
      by_cases hempty : emptyText (trim entry)
      · have hnone : inetPton (trim entry) = none := by
          rcases emptyText_iff.mp hempty with ht | ht <;> rw [ht] <;> decide +kernel
        simp [hempty, hnone]
      · rw [if_neg hempty, beq_iff_eq]
        constructor
        · rintro rfl
          exact ⟨hip, fun hr => hr.2.2.2 rfl⟩
        · rintro ⟨ht, hr⟩
          by_contra hne
          exact hr ⟨hzero, hslash, ht, fun heq => hne heq.symm⟩

/-! ## The list -/

/-- An accepted list lets in whom one of its entries stands for in the client's own
spelling. -/
theorem checkIPAgainstAllowlist_iff {entries : List String} {ip : String} {a : IpAddr}
    (h : ∀ e ∈ entries, Accepted e) (hip : inetPton ip = some a) :
    checkIPAgainstAllowlist ip entries = true ↔
      ∃ e ∈ entries, Admits e a ∧ ¬ Respells e ip a := by
  rw [checkIPAgainstAllowlist, List.any_eq_true]
  exact exists_congr fun e => and_congr_right fun he => entryMatches_iff (h e he) hip

theorem Respells.isV6 {entry ip : String} {a : IpAddr} (h : Respells entry ip a)
    (hip : inetPton ip = some a) : a.isV6 = true :=
  isV6_of_two_spellings h.2.2.1 hip h.2.2.2

/-- The check is by address if and only if, where a bare entry spells the client's IPv6
address otherwise, some entry stands for the client without doing so: the same
spelling, a block around it or a form of `0.0.0.0`. -/
theorem decidesByAddress_iff {entries : List String} {ip : String} {a : IpAddr}
    (h : ∀ e ∈ entries, Accepted e) (hip : inetPton ip = some a) :
    (checkIPAgainstAllowlist ip entries = true ↔ ∃ e ∈ entries, Admits e a) ↔
      ((∃ e ∈ entries, a.isV6 = true ∧ Respells e ip a) →
        ∃ e ∈ entries, Admits e a ∧ ¬ Respells e ip a) := by
  rw [checkIPAgainstAllowlist_iff h hip]
  have hadmits : ∀ {e}, Respells e ip a → Admits e a := fun {e} hr => by
    refine ⟨.network a.network, ?_, IpAddr.network_contains.mpr rfl⟩
    rw [allowRange?_bare hr.1 hr.2.1, hr.2.2.1, Option.map_some]
  constructor
  · rintro hiff ⟨e, he, -, hr⟩
    exact hiff.mpr ⟨e, he, hadmits hr⟩
  · intro hother
    refine ⟨fun ⟨e, he, had, _⟩ => ⟨e, he, had⟩, fun ⟨e, he, had⟩ => ?_⟩
    by_cases hr : Respells e ip a
    · exact hother ⟨e, he, hr.isV6 hip, hr⟩
    · exact ⟨e, he, had, hr⟩

theorem decidesByAddress_iff_block :
    (checkIPAgainstAllowlist "2001:db8::1" ["2001:DB8::1", " 2001:db8::/32"] = true ↔
      ∃ e ∈ ["2001:DB8::1", " 2001:db8::/32"], Admits e (.v6 0x20010db8000000000000000000000001)) ↔
    ((∃ e ∈ ["2001:DB8::1", " 2001:db8::/32"],
        (IpAddr.v6 0x20010db8000000000000000000000001).isV6 = true ∧
          Respells e "2001:db8::1" (.v6 0x20010db8000000000000000000000001)) →
      ∃ e ∈ ["2001:DB8::1", " 2001:db8::/32"],
        Admits e (.v6 0x20010db8000000000000000000000001) ∧
          ¬ Respells e "2001:db8::1" (.v6 0x20010db8000000000000000000000001)) :=
  decidesByAddress_iff (by decide +kernel) (by decide +kernel)

/-- A client is turned away although the list has its address, in capitals. -/
theorem capitals_turned_away :
    ValidIpOrCidr.validate "2001:DB8::1" = none ∧
    inetPton "2001:db8::1" = inetPton "2001:DB8::1" ∧
    checkIPAgainstAllowlist "2001:db8::1" ["2001:DB8::1"] = false ∧
    ∃ a, inetPton "2001:db8::1" = some a ∧ ∃ e ∈ ["2001:DB8::1"], Admits e a := by
  refine ⟨by decide +kernel, by decide +kernel, by decide +kernel,
    .v6 0x20010db8000000000000000000000001, by decide +kernel, _, List.mem_singleton_self _,
    .network (.v6 ⟨0x20010db8000000000000000000000001, 128⟩), by decide +kernel, ?_⟩
  exact fun _ _ => rfl

/-! ## The middleware -/

theorem ValidIpOrCidr.accepted {value : String} (h : ValidIpOrCidr.validate value = none) :
    ∀ e ∈ explode ',' value, Accepted e := by
  unfold ValidIpOrCidr.validate at h
  by_cases hempty : emptyText value
  · rcases emptyText_iff.mp hempty with rfl | rfl <;> decide +kernel
  · rw [if_neg hempty] at h
    by_cases hzero : value = "0.0.0.0"
    · rw [hzero]
      decide +kernel
    · rw [if_neg hzero] at h
      intro e he
      rw [Accepted]
      by_contra hinvalid
      have hmem : trim e ∈ ((explode ',' value).map trim).filter ValidIpOrCidr.isInvalid :=
        List.mem_filter.mpr ⟨List.mem_map_of_mem he, by simpa using hinvalid⟩
      simp [List.ne_nil_of_mem hmem] at h

theorem entryMatches_trim {entry ip : String} :
    entryMatches ip (trim entry) = entryMatches ip entry := by
  unfold entryMatches
  rw [trim_trim]

theorem checkIPAgainstAllowlist_trimmed {entries : List String} {ip : String} :
    checkIPAgainstAllowlist ip ((entries.map trim).filter fun e => !emptyText e) =
      checkIPAgainstAllowlist ip entries := by
  rw [checkIPAgainstAllowlist, checkIPAgainstAllowlist, List.any_filter, List.any_map]
  refine congrArg entries.any (funext fun e => ?_)
  rw [Function.comp_apply, entryMatches_trim]
  cases hempty : emptyText (trim e) with
  | false => rfl
  | true =>
      unfold entryMatches
      rw [if_pos hempty]
      rfl

/-- With an accepted list a request goes on if the list is empty or one of its entries
stands for the client in the client's own spelling. -/
theorem ApiAllowed.handle_eq_none_iff {text ip : String} {a : IpAddr}
    (h : ValidIpOrCidr.validate text = none) (hip : inetPton ip = some a) :
    ApiAllowed.handle false ⟨true, some text⟩ ip = none ↔
      (∀ e ∈ explode ',' text, emptyText (trim e)) ∨
        ∃ e ∈ explode ',' text, Admits e a ∧ ¬ Respells e ip a := by
  rw [← checkIPAgainstAllowlist_iff (ValidIpOrCidr.accepted h) hip]
  unfold ApiAllowed.handle
  rw [if_neg nofun, if_neg nofun]
  by_cases hempty : emptyText text
  · have hall : ∀ e ∈ explode ',' text, emptyText (trim e) := by
      rcases emptyText_iff.mp hempty with rfl | rfl <;> decide +kernel
    simpa [Option.filter, hempty] using Or.inl hall
  · have hfilter : (some text).filter (fun text => !emptyText text) = some text := by
      simp [Option.filter, hempty]
    rw [hfilter]
    by_cases hzero : trim text = "0.0.0.0"
    · have hcomma : ',' ∉ text.toList := fun hmem => by
        have hin := mem_trim (by decide) hmem
        rw [hzero] at hin
        revert hin
        decide
      have hlist : explode ',' text = [text] := by
        rw [explode, pieces_of_notMem hcomma, List.map_singleton, String.ofList_toList]
      rw [hlist, checkIPAgainstAllowlist, List.any_cons, entryMatches_zeroForm (.inl hzero)]
      simp [hzero]
    · simp only [hzero, if_false]
      rw [checkIPAgainstAllowlist_trimmed]
      by_cases hall : ∀ e ∈ explode ',' text, emptyText (trim e)
      · have hnil : ((explode ',' text).map trim).filter (fun e => !emptyText e) = [] := by
          simpa [List.filter_eq_nil_iff] using hall
        simpa [hnil] using Or.inl hall
      · have hne : ((explode ',' text).map trim).filter (fun e => !emptyText e) ≠ [] := by
          simpa [List.filter_eq_nil_iff] using hall
        simp [hne, hall]

end OnePloy
