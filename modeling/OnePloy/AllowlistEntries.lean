import OnePloy.AllowlistCheck

/-!
# Entries taken apart

What `deduplicateAllowlist` makes of an accepted entry is well formed: its text, its
mask and what it stands for agree (`wellFormed_of_parse`). The test of its loops,
which puts an entry together again and asks the check, is then a comparison of masks
and membership of an address in a block (`covers_iff`).
-/

namespace OnePloy

open Php Net

/-! ## Entries taken apart -/

/-- A form of `0.0.0.0`. -/
def ParsedEntry.IsZero (p : ParsedEntry) : Prop := p.ip = "0.0.0.0"

instance (p : ParsedEntry) : Decidable p.IsZero := inferInstanceAs (Decidable (_ = _))

/-- What the entry stands for. -/
def ParsedEntry.range? (p : ParsedEntry) : Option AllowRange :=
  if p.IsZero then some .everyone
  else (inetPton p.ip).map fun b => .network (block b p.mask.toNat)

theorem ParsedEntry.range?_zero {p : ParsedEntry} (h : p.IsZero) : p.range? = some .everyone :=
  if_pos h

theorem ParsedEntry.range?_eq {p : ParsedEntry} (h : ¬ p.IsZero) :
    p.range? = (inetPton p.ip).map fun b => .network (block b p.mask.toNat) :=
  if_neg h

/-- What the function makes of an accepted entry. -/
structure ParsedEntry.WellFormed (p : ParsedEntry) : Prop where
  accepted : Accepted p.original
  parse : parseEntry p.original = some p
  trimmed : trim p.original = p.original
  range : allowRange? p.original = p.range?
  zero : IsZeroForm p.original ↔ p.IsZero
  mask : ¬ p.IsZero → ∀ b, inetPton p.ip = some b → 0 ≤ p.mask ∧ p.mask ≤ maxMask p.ip
  slash : '/' ∉ p.ip.toList
  head : ∃ c cs, p.ip.toList = c :: cs ∧ isTrimmed c = false
  bare : ¬ strContains p.original "/" → p.original = p.ip ∧ (¬ p.IsZero → p.mask = maxMask p.ip)

theorem strContains_slash {s : String} : strContains s "/" = true ↔ '/' ∈ s.toList := by
  rw [strContains_iff]
  show ['/'] <:+: s.toList ↔ _
  exact List.singleton_infix_iff _ _

theorem subnetAndMask_append {text : String} {cs ds : List Char} (hcs : '/' ∉ cs)
    (h : text.toList = cs ++ '/' :: ds) :
    subnetAndMask text = (String.ofList cs, String.ofList ((pieces '/' ds).headD [])) := by
  cases hp : pieces '/' ds with
  | nil => exact absurd hp (pieces_ne_nil '/' ds)
  | cons p ps =>
      have hexplode : explode '/' text =
          String.ofList cs :: String.ofList p :: ps.map String.ofList := by
        rw [explode, h, pieces_append_sep, pieces_of_notMem hcs, hp]
        rfl
      exact subnetAndMask_of_explode hexplode

theorem exists_head_trim {s : String} (h : trim s ≠ "") :
    ∃ c cs, (trim s).toList = c :: cs ∧ isTrimmed c = false := by
  cases hs : (trim s).toList with
  | nil => exact absurd (String.toList_inj.mp (hs.trans rfl)) h
  | cons c cs => exact ⟨c, cs, rfl, isTrimmed_head_trim (by rw [hs]; rfl)⟩

theorem Accepted.subnet_ne_empty {entry : String} (h : Accepted entry)
    (hslash : strContains (trim entry) "/") : (subnetAndMask (trim entry)).1 ≠ "" := by
  unfold Accepted ValidIpOrCidr.isInvalid at h
  rw [if_neg (not_emptyText_of_slash hslash)] at h
  intro hempty
  by_cases hstarts : strStartsWith (trim entry) "0.0.0.0"
  · have hsubnet := strStartsWith_subnet hstarts
    rw [hempty] at hsubnet
    revert hsubnet
    decide
  · rw [if_neg hstarts, if_pos hslash] at h
    split at h
    case h_2 => cases h
    case h_1 ip mask hexplode =>
      rw [subnetAndMask_of_explode hexplode] at hempty
      have hnone : inetPton "" = none := by decide
      simp [show ip = "" from hempty, hnone] at h

theorem wellFormed_of_slash {t : String} (ht : trim t = t) (h : Accepted t)
    (hslash : strContains t "/") (hp : parseEntry t = some ⟨t, (subnetAndMask t).1,
      intCast (subnetAndMask t).2⟩) :
    ParsedEntry.WellFormed ⟨t, (subnetAndMask t).1, intCast (subnetAndMask t).2⟩ := by
  obtain ⟨cs, ds, htext, hcs⟩ := List.eq_append_cons_of_mem (strContains_slash.mp hslash)
  have hsubnet := congrArg Prod.fst (subnetAndMask_append hcs htext)
  have hbare : t ≠ "0.0.0.0" := by
    rintro rfl
    revert hslash
    decide +kernel
  have htrimmed : strContains (trim t) "/" = true := by
    rw [ht]
    exact hslash
  have hzero : IsZeroForm t ↔ (subnetAndMask t).1 = "0.0.0.0" := by
    rw [IsZeroForm, ht, or_iff_right hbare, and_iff_right hslash]
  refine { accepted := h, parse := hp, trimmed := ht, zero := hzero, range := ?_, mask := ?_,
           slash := ?_, head := ?_, bare := fun hno => absurd hslash hno }
  · by_cases hz : (subnetAndMask t).1 = "0.0.0.0"
    · rw [allowRange?_zeroForm (hzero.mpr hz)]
      exact (ParsedEntry.range?_zero (p := ⟨t, _, _⟩) hz).symm
    · rw [ParsedEntry.range?_eq (p := ⟨t, _, _⟩) hz]
      cases hb : inetPton (subnetAndMask t).1 with
      | none =>
          have hno : inetPton (subnetAndMask (trim t)).1 = none := by rw [ht]; exact hb
          exact allowRange?_none (fun hf => hz (hzero.mp hf)) htrimmed hno
      | some b =>
          have hsome : inetPton (subnetAndMask (trim t)).1 = some b := by rw [ht]; exact hb
          have hrange := h.allowRange?_block (fun hf => hz (hzero.mp hf)) htrimmed hsome
          rw [ht] at hrange
          dsimp only
          exact hrange
  · intro hz b hb
    have hsome : inetPton (subnetAndMask (trim t)).1 = some b := by rw [ht]; exact hb
    have hmask := h.block (fun hf => hz (hzero.mp hf)) htrimmed hsome
    rw [ht] at hmask
    dsimp only
    exact hmask.2
  · rw [hsubnet]
    simpa using hcs
  · have hne : (subnetAndMask t).1 ≠ "" := by
      have hne := h.subnet_ne_empty htrimmed
      rw [ht] at hne
      exact hne
    rw [hsubnet] at hne ⊢
    cases cs with
    | nil => exact absurd rfl hne
    | cons c cs =>
        refine ⟨c, cs, by simp, isTrimmed_head_trim (s := t) ?_⟩
        rw [ht, htext]
        rfl

theorem wellFormed_of_bare {t : String} (ht : trim t = t) (h : Accepted t) (hempty : ¬ emptyText t)
    (hzero : t ≠ "0.0.0.0") (hslash : ¬ strContains t "/")
    (hp : parseEntry t = some ⟨t, t, maxMask t⟩) :
    ParsedEntry.WellFormed ⟨t, t, maxMask t⟩ := by
  have hform : ¬ IsZeroForm t := by
    rw [IsZeroForm, ht]
    exact fun hf => hf.elim hzero fun hf => hslash hf.1
  refine { accepted := h, parse := hp, trimmed := ht, zero := iff_of_false hform hzero,
           range := ?_, mask := ?_, slash := ?_, head := ?_, bare := fun _ => ⟨rfl, fun _ => rfl⟩ }
  · rw [ParsedEntry.range?_eq (p := ⟨t, _, _⟩) hzero, allowRange?_bare hform (by rwa [ht]), ht]
    cases hb : inetPton t with
    | none => rfl
    | some b =>
        have hmask : maxMask t = if b.isV6 then 128 else 32 := by rw [maxMask, isIpv6_eq hb]
        cases b <;> simp [hmask, block, IpAddr.network, IpAddr.isV6]
  · intro _ b _
    exact ⟨Int.natCast_nonneg _, le_refl _⟩
  · exact fun hmem => hslash (strContains_slash.mpr hmem)
  · have hne : trim t ≠ "" := by
      rw [ht]
      exact fun hnil => hempty (emptyText_iff.mpr (.inl hnil))
    have hhead := exists_head_trim hne
    rwa [ht] at hhead

theorem wellFormed_zero (h : Accepted "0.0.0.0") :
    ParsedEntry.WellFormed ⟨"0.0.0.0", "0.0.0.0", 0⟩ where
  accepted := h
  parse := by decide +kernel
  trimmed := by decide +kernel
  range := by decide +kernel
  zero := by decide +kernel
  mask := fun hz => absurd rfl hz
  slash := by decide
  head := ⟨'0', _, rfl, by decide⟩
  bare := fun _ => ⟨rfl, fun hz => absurd rfl hz⟩

theorem wellFormed_of_parse {e : String} {p : ParsedEntry} (h : Accepted e)
    (hp : parseEntry e = some p) : p.WellFormed := by
  have hparse : ∀ s, parseEntry (trim s) = parseEntry s := by
    intro s
    unfold parseEntry
    rw [trim_trim]
  have ht := trim_trim e
  have haccepted : Accepted (trim e) := by
    rw [Accepted, trim_trim]
    exact h
  rw [← hparse] at hp
  generalize trim e = t at ht haccepted hp
  have hcases := hp
  unfold parseEntry at hcases
  rw [ht] at hcases
  simp only [Option.ite_none_left_eq_some] at hcases
  obtain ⟨hempty, hcases⟩ := hcases
  split at hcases
  case isTrue hzero =>
    subst hzero
    cases hcases
    exact wellFormed_zero haccepted
  case isFalse hzero =>
    split at hcases
    case isTrue hslash =>
      cases hcases
      exact wellFormed_of_slash ht haccepted hslash hp
    case isFalse hslash =>
      cases hcases
      exact wellFormed_of_bare ht haccepted hempty hzero hslash hp

/-! ## Blocks -/

def width : IpAddr → Nat
  | .v4 _ => 32
  | .v6 _ => 128

theorem maxMask_eq {ip : String} {a : IpAddr} (h : inetPton ip = some a) :
    maxMask ip = width a := by
  rw [maxMask, isIpv6_eq h]
  cases a <;> rfl

theorem block_self (b : IpAddr) (m : Nat) : (block b m).Contains b := by
  cases b <;> exact fun i _ => rfl

theorem block_symm {a b : IpAddr} {m : Nat} (h : (block b m).Contains a) :
    (block a m).Contains b := by
  cases a <;> cases b <;> first | exact fun i hi => (h i hi).symm | exact h

theorem block_trans {a b c : IpAddr} {m n : Nat} (h : (block b m).Contains c) (hm : m ≤ n)
    (hc : (block c n).Contains a) : (block b m).Contains a := by
  cases a <;> cases b <;> cases c <;>
    first | exact fun i hi => (hc i (Nat.lt_of_lt_of_le hi hm)).trans (h i hi) | cases h | cases hc

theorem width_of_contains {a b : IpAddr} {m : Nat} (h : (block b m).Contains a) :
    width a = width b := by
  cases a <;> cases b <;> first | rfl | cases h

theorem block_width {a b : IpAddr} : (block b (width b)).Contains a ↔ a = b := by
  rw [show block b (width b) = b.network by cases b <;> rfl]
  exact IpAddr.network_contains

/-- The addresses of a block do not all agree on a bit beyond its mask. -/
theorem exists_flipped {w : Nat} (x : BitVec w) {m : Nat} (hm : m < w) :
    ∃ y : BitVec w, (∀ i < m, y.getMsbD i = x.getMsbD i) ∧ y.getMsbD m ≠ x.getMsbD m := by
  refine ⟨x ^^^ BitVec.twoPow w (w - 1 - m), fun i hi => ?_, ?_⟩
  · have hne : w - 1 - m ≠ w - 1 - i := by omega
    simp [BitVec.getMsbD, BitVec.getLsbD_xor, BitVec.getLsbD_twoPow, hne]
  · have hlt : w - 1 - m < w := by omega
    simp [BitVec.getMsbD, hm, hlt]

theorem mask_le_of_subset {b c : IpAddr} {m n : Nat} (hm : m ≤ width b)
    (h : ∀ a, (block c n).Contains a → (block b m).Contains a) : m ≤ n := by
  have hc := h c (block_self c n)
  refine Nat.le_of_not_lt fun hlt => ?_
  have hn : n < width b := Nat.lt_of_lt_of_le hlt hm
  cases b with
  | v4 x =>
      cases c with
      | v6 y => exact hc
      | v4 y =>
          obtain ⟨z, hsame, hdiff⟩ := exists_flipped y hn
          exact hdiff ((h (.v4 z) hsame n hlt).trans (hc n hlt).symm)
  | v6 x =>
      cases c with
      | v4 y => exact hc
      | v6 y =>
          obtain ⟨z, hsame, hdiff⟩ := exists_flipped y hn
          exact hdiff ((h (.v6 z) hsame n hlt).trans (hc n hlt).symm)

/-! ## The test of the loops -/

theorem toString_int_last (m : Int) :
    ∃ cs d, (toString m).toList = cs ++ [d] ∧ d.isDigit = true := by
  have hnat : ∀ n : Nat, ∃ cs d, n.repr.toList = cs ++ [d] ∧ d.isDigit = true := by
    intro n
    have hne : Nat.toDigits 10 n ≠ [] := Nat.toDigits_ne_nil
    refine ⟨_, _, Nat.toList_repr.trans (List.dropLast_append_getLast hne).symm, ?_⟩
    exact Nat.isDigit_of_mem_toDigits (by decide) (by decide) (List.getLast_mem hne)
  cases m with
  | ofNat n => exact hnat n
  | negSucc n =>
      obtain ⟨cs, d, htext, hd⟩ := hnat (n + 1)
      refine ⟨'-' :: cs, d, ?_, hd⟩
      show ("-" ++ (n + 1).repr).toList = _
      rw [String.toList_append, htext]
      rfl

theorem isTrimmed_of_isDigit {c : Char} (h : c.isDigit = true) : isTrimmed c = false := by
  obtain ⟨hlt, hchar⟩ := digitChar_of_isDigit h
  have hall : ∀ n < 10, isTrimmed (Nat.digitChar n) = false := by decide
  rw [← hchar]
  exact hall _ hlt

namespace ParsedEntry.WellFormed

variable {p q : ParsedEntry}

theorem cidr_toList (p : ParsedEntry) :
    p.cidr.toList = p.ip.toList ++ '/' :: (toString p.mask).toList := by
  simp [ParsedEntry.cidr, String.toList_append]

theorem trim_cidr (hp : p.WellFormed) : trim p.cidr = p.cidr := by
  obtain ⟨c, cs, hip, hc⟩ := hp.head
  obtain ⟨ds, d, hmask, hd⟩ := toString_int_last p.mask
  refine trim_eq_self (fun x hx => ?_) fun x hx => ?_
  · rw [cidr_toList, hip] at hx
    obtain rfl : c = x := by simpa using hx
    exact hc
  · rw [cidr_toList, hmask, ← List.cons_append, ← List.append_assoc, List.getLast?_concat] at hx
    obtain rfl : d = x := by simpa using hx
    exact isTrimmed_of_isDigit hd

/-- A mask within bounds is read back from the rebuilt text. -/
theorem intCast_mask {m : Int} (hlow : 0 ≤ m) (hhigh : m ≤ 128) :
    intCast (String.ofList ((pieces '/' (toString m).toList).headD [])) = m := by
  have hall : ∀ n : Fin 129, intCast (String.ofList
      ((pieces '/' (toString (n.val : Int)).toList).headD [])) = n.val := by decide +kernel
  have hm := hall ⟨m.toNat, by omega⟩
  rwa [show ((m.toNat : Nat) : Int) = m by omega] at hm

theorem entryMatches_cidr (hp : p.WellFormed) (ip : String) :
    entryMatches ip p.cidr = true ↔
      p.IsZero ∨ ∃ a b, inetPton ip = some a ∧ inetPton p.ip = some b ∧
        (block b p.mask.toNat).Contains a := by
  have hslash : strContains p.cidr "/" := strContains_slash.mpr (by simp [cidr_toList])
  have hparts := subnetAndMask_append hp.slash (cidr_toList p)
  rw [String.ofList_toList] at hparts
  rw [entryMatches, hp.trim_cidr, if_neg (not_emptyText_of_slash hslash), if_pos hslash, hparts]
  dsimp only
  by_cases hzero : p.ip = "0.0.0.0"
  · rw [if_pos hzero]
    exact iff_of_true rfl (.inl hzero)
  · rw [if_neg hzero, or_iff_right (show ¬ p.IsZero from hzero)]
    cases hb : inetPton p.ip with
    | none => simp [blockMatches_of_none hb]
    | some b =>
        obtain ⟨hlow, hhigh⟩ := hp.mask hzero b hb
        have hmax : (maxMask p.ip : Int) ≤ 128 := by
          unfold maxMask
          split <;> omega
        rw [intCast_mask hlow (by omega)]
        cases ha : inetPton ip with
        | none => simp [blockMatches_of_client_none ha]
        | some a => simp [blockMatches_iff ha hb hlow hhigh]

theorem covers_iff (hp : p.WellFormed) :
    p.covers q = true ↔ p.mask ≤ q.mask ∧ (p.IsZero ∨ ∃ a b, inetPton q.ip = some a ∧
      inetPton p.ip = some b ∧ (block b p.mask.toNat).Contains a) := by
  rw [ParsedEntry.covers, Bool.and_eq_true, decide_eq_true_eq, checkIPAgainstAllowlist,
    List.any_cons, List.any_nil, Bool.or_false, hp.entryMatches_cidr]

end ParsedEntry.WellFormed

/-! ## Whom an entry holds -/

namespace ParsedEntry

variable {p q : ParsedEntry} {ip : String} {a : IpAddr}

/-- The entry stands for the address. -/
def Holds (p : ParsedEntry) (a : IpAddr) : Prop :=
  p.IsZero ∨ ∃ b, inetPton p.ip = some b ∧ (block b p.mask.toNat).Contains a

/-- The text and the mask are those of a block around `0.0.0.0`. -/
def HoldsZero (p : ParsedEntry) : Prop :=
  ∃ b, inetPton p.ip = some b ∧ (block b p.mask.toNat).Contains (.v4 0)

/-- The entry lets the client in. -/
def Lets (p : ParsedEntry) (ip : String) (a : IpAddr) : Prop :=
  p.Holds a ∧ ¬ Respells p.original ip a

theorem holdsZero_of_isZero (h : p.IsZero) : p.HoldsZero :=
  ⟨.v4 0, by rw [show p.ip = "0.0.0.0" from h]; decide +kernel, block_self _ _⟩

theorem WellFormed.admits_iff (hp : p.WellFormed) : Admits p.original a ↔ p.Holds a := by
  rw [Admits, hp.range, Holds]
  by_cases hz : p.IsZero
  · rw [range?_zero hz]
    exact iff_of_true ⟨_, rfl, trivial⟩ (.inl hz)
  · rw [range?_eq hz, or_iff_right hz]
    simp only [Option.map_eq_some_iff]
    constructor
    · rintro ⟨r, ⟨b, hb, rfl⟩, hc⟩
      exact ⟨b, hb, hc⟩
    · rintro ⟨b, hb, hc⟩
      exact ⟨_, ⟨b, hb, rfl⟩, hc⟩

theorem WellFormed.range_ne_none (hp : p.WellFormed) :
    allowRange? p.original ≠ none ↔ ∃ a, p.Holds a := by
  rw [Option.ne_none_iff_exists']
  constructor
  · rintro ⟨r, hr⟩
    cases r with
    | everyone => exact ⟨.v4 0, hp.admits_iff.mp ⟨_, hr, trivial⟩⟩
    | network n =>
        cases n with
        | v4 n => exact ⟨.v4 n.base, hp.admits_iff.mp ⟨_, hr, fun _ _ => rfl⟩⟩
        | v6 n => exact ⟨.v6 n.base, hp.admits_iff.mp ⟨_, hr, fun _ _ => rfl⟩⟩
  · rintro ⟨a, ha⟩
    obtain ⟨r, hr, -⟩ := hp.admits_iff.mpr ha
    exact ⟨r, hr⟩

/-- A bare entry in another spelling is the address with all of its bits. -/
theorem WellFormed.of_respells (hp : p.WellFormed) (h : Respells p.original ip a) :
    ¬ p.IsZero ∧ inetPton p.ip = some a ∧ p.mask = width a := by
  obtain ⟨hzero, hslash, ha, -⟩ := h
  rw [hp.trimmed] at hslash ha
  obtain ⟨hip, hmask⟩ := hp.bare hslash
  have hz : ¬ p.IsZero := fun hz => hzero (hp.zero.mpr hz)
  rw [hip] at ha
  exact ⟨hz, ha, by rw [hmask hz, maxMask_eq ha]⟩

theorem WellFormed.mask_le_width {b : IpAddr} (hp : p.WellFormed) (hz : ¬ p.IsZero)
    (hb : inetPton p.ip = some b) : 0 ≤ p.mask ∧ p.mask ≤ width b := by
  rw [← maxMask_eq hb]
  exact hp.mask hz b hb

theorem WellFormed.isZero_covers (hp : p.WellFormed) (hz : p.IsZero) :
    p.covers q = true ↔ p.mask ≤ q.mask := by
  rw [hp.covers_iff, and_iff_left (.inl hz)]

/-- A form of `0.0.0.0` is covered by what stands around `0.0.0.0`. -/
theorem WellFormed.covers_isZero (hp : p.WellFormed) (hz : q.IsZero) :
    p.covers q = true ↔ p.mask ≤ q.mask ∧ p.HoldsZero := by
  have hread : inetPton q.ip = some (.v4 0) := by
    rw [show q.ip = "0.0.0.0" from hz]
    decide +kernel
  rw [hp.covers_iff]
  refine and_congr_right fun _ => ⟨?_, ?_⟩
  · rintro (hpz | ⟨a, b, ha, hb, hc⟩)
    · exact holdsZero_of_isZero hpz
    · rw [hread] at ha
      obtain rfl := Option.some.inj ha
      exact ⟨b, hb, hc⟩
  · rintro ⟨b, hb, hc⟩
    exact .inr ⟨_, b, hread, hb, hc⟩

theorem WellFormed.holdsZero_of_covers (hp : p.WellFormed) (h : p.covers q = true)
    (hq : q.HoldsZero) : p.HoldsZero := by
  obtain ⟨hmask, hz | ⟨a, b, ha, hb, hc⟩⟩ := hp.covers_iff.mp h
  · exact holdsZero_of_isZero hz
  · obtain ⟨a', ha', hcontains⟩ := hq
    obtain rfl := Option.some.inj (ha.symm.trans ha')
    exact ⟨b, hb, block_trans hc (Int.toNat_le_toNat hmask) hcontains⟩

/-- What covers an entry that is no form of `0.0.0.0` holds what it holds. -/
theorem WellFormed.holds_of_covers (hp : p.WellFormed) (h : p.covers q = true) (hz : ¬ q.IsZero)
    (hq : q.Holds a) : p.Holds a := by
  obtain ⟨hmask, hpz | ⟨c, b, hc, hb, hcontains⟩⟩ := hp.covers_iff.mp h
  · exact .inl hpz
  · obtain ⟨c', hc', ha⟩ := hq.resolve_left hz
    obtain rfl := Option.some.inj (hc.symm.trans hc')
    exact .inr ⟨b, hb, block_trans hcontains (Int.toNat_le_toNat hmask) ha⟩

/-- One that holds all that another one holds covers it, forms of `0.0.0.0` apart. -/
theorem WellFormed.covers_of_subset (hp : p.WellFormed) (hq : q.WellFormed) (hpz : ¬ p.IsZero)
    (hqz : ¬ q.IsZero) (hsome : ∃ a, q.Holds a) (h : ∀ a, q.Holds a → p.Holds a) :
    p.covers q = true := by
  obtain ⟨a, ha⟩ := hsome
  obtain ⟨c, hc, -⟩ := ha.resolve_left hqz
  obtain ⟨b, hb, hcontains⟩ := (h c (.inr ⟨c, hc, block_self _ _⟩)).resolve_left hpz
  have hsubset : ∀ a, (block c q.mask.toNat).Contains a → (block b p.mask.toNat).Contains a := by
    intro a ha
    obtain ⟨b', hb', hpa⟩ := (h a (.inr ⟨c, hc, ha⟩)).resolve_left hpz
    obtain rfl := Option.some.inj (hb.symm.trans hb')
    exact hpa
  obtain ⟨hplow, hphigh⟩ := hp.mask_le_width hpz hb
  obtain ⟨hqlow, -⟩ := hq.mask_le_width hqz hc
  have hle := mask_le_of_subset (b := b) (by omega) hsubset
  exact hp.covers_iff.mpr ⟨by omega, .inr ⟨c, b, hc, hb, hcontains⟩⟩

end ParsedEntry

end OnePloy
