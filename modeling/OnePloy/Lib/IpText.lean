import OnePloy.Lib.IpAddress

/-!
# Spellings of an address

The text that `inetNtop` writes, and which other texts denote the same address. An
IPv4 address has one spelling (`ipv4?_inj`); of the texts that begin with `0.0.0.0`
only that one denotes an address (`eq_of_zeros`).
-/

namespace Net

/-! ## The canonical one -/

def hexDigits (n : Nat) : List Char := Nat.toDigits 16 n

def dotted (bits : BitVec 32) : List Char :=
  ['.'].intercalate ([24, 16, 8, 0].map fun k => Nat.toDigits 10 (bits.toNat / 2 ^ k % 256))

def IpAddr.words (bits : BitVec 128) : List Nat :=
  (List.range 8).map fun k => bits.toNat / 2 ^ (16 * (7 - k)) % 65536

/-- The length of the run of zeros that begins at each group. -/
def zeroRuns : List Nat → List Nat
  | [] => []
  | w :: ws =>
      let runs := zeroRuns ws
      (if w = 0 then runs.headD 0 + 1 else 0) :: runs

/-- `inet_ntop`: the first of the longest runs of at least two zero groups is left
out, and an embedded IPv4 address is written as one. -/
def inetNtop : IpAddr → String
  | .v4 bits => String.ofList (dotted bits)
  | .v6 bits =>
      let ws := IpAddr.words bits
      let runs := zeroRuns ws
      let longest := runs.foldl max 0
      let start := runs.idxOf longest
      let joined := fun ws => [':'].intercalate (ws.map hexDigits)
      let low : BitVec 32 := bits.extractLsb' 0 32
      String.ofList <|
        if longest < 2 then joined ws
        else if start = 0 ∧ longest = 6 then "::".toList ++ dotted low
        else if start = 0 ∧ longest = 5 ∧ ws[5]? = some 0xffff then "::ffff:".toList ++ dotted low
        else joined (ws.take start) ++ "::".toList ++ joined (ws.drop (start + longest))

/-! ## One spelling -/

theorem digitChar_of_isDigit {c : Char} (h : c.isDigit = true) :
    c.toNat - 48 < 10 ∧ Nat.digitChar (c.toNat - 48) = c := by
  obtain ⟨hlow, hhigh⟩ : c.val ≥ '0'.val ∧ c.val ≤ '9'.val := by
    simpa [Char.isDigit] using h
  simp only [ge_iff_le, UInt32.le_iff_toNat_le] at hlow hhigh
  have hbounds : 48 ≤ c.toNat ∧ c.toNat ≤ 57 := ⟨hlow, hhigh⟩
  have hvalues : ∀ n < 10, Nat.digitChar n = Char.ofNat (n + 48) := by decide
  refine ⟨by omega, ?_⟩
  rw [hvalues _ (by omega), Nat.sub_add_cancel hbounds.1, Char.ofNat_toNat]

/-- Digits after a positive number are the digits of what is read so far and theirs. -/
theorem toDigits_foldl {ds : List Char} (hds : ∀ d ∈ ds, d.isDigit = true) :
    ∀ {n : Nat}, 0 < n →
      Nat.toDigits 10 (ds.foldl (fun n c => n * 10 + (c.toNat - '0'.toNat)) n) =
        Nat.toDigits 10 n ++ ds := by
  induction ds with
  | nil => intro n _; simp
  | cons d ds ih =>
      intro n hn
      obtain ⟨hlt, hchar⟩ := digitChar_of_isDigit (hds d (List.mem_cons_self ..))
      have happend := Nat.toDigits_append_toDigits (b := 10) (by decide) hn hlt
      rw [Nat.toDigits_of_lt_base hlt, hchar, Nat.mul_comm] at happend
      rw [List.foldl_cons, ih (fun c hc => hds c (List.mem_cons_of_mem _ hc)) (by omega)]
      show Nat.toDigits 10 (n * 10 + (d.toNat - 48)) ++ ds = _
      rw [← happend, List.append_assoc, List.singleton_append]

/-- Without zeros in front a number is written in one way. -/
theorem eq_toDigits_of_octet? {ds : List Char} {n : Nat} (h : octet? ds = some n) :
    ds = Nat.toDigits 10 n := by
  simp only [octet?, Option.ite_none_left_eq_some, Option.some.injEq, not_or] at h
  obtain ⟨⟨hne, -, hall, hzero, -⟩, hvalue⟩ := h
  have hdigits : ∀ d ∈ ds, d.isDigit = true := by simpa using hall
  cases ds with
  | nil => simp at hne
  | cons d ds =>
      obtain ⟨hlt, hchar⟩ := digitChar_of_isDigit (hdigits d (List.mem_cons_self ..))
      rw [← hvalue, Php.digitsValue, List.foldl_cons, Nat.zero_mul, Nat.zero_add]
      by_cases hpos : 0 < d.toNat - 48
      · have hrest := toDigits_foldl (fun c hc => hdigits c (List.mem_cons_of_mem _ hc)) hpos
        rw [Nat.toDigits_of_lt_base hlt, hchar] at hrest
        exact hrest.symm
      · have hd : d = '0' := by
          rw [← hchar, show d.toNat - 48 = 0 by omega]
          rfl
        have hds : d :: ds = ['0'] := by
          by_contra hds
          exact hzero ⟨by rw [hd]; rfl, hds⟩
        obtain ⟨rfl, rfl⟩ : d = '0' ∧ ds = [] := by simpa using hds
        rfl

theorem octet?_le {ds : List Char} {n : Nat} (h : octet? ds = some n) : n ≤ 255 := by
  simp only [octet?, Option.ite_none_left_eq_some, Option.some.injEq, not_or] at h
  omega

/-- What a list was read from, when each of its elements was read from one text. -/
theorem eq_map_of_mapM {α β : Type} {f : α → Option β} {g : β → α} {xs : List α} {ys : List β}
    (hg : ∀ {x y}, f x = some y → x = g y) (h : xs.mapM f = some ys) : xs = ys.map g := by
  induction xs generalizing ys with
  | nil =>
      obtain rfl : [] = ys := by simpa using h
      rfl
  | cons x xs ih =>
      rw [List.mapM_cons] at h
      obtain ⟨y, hy, h⟩ := Option.bind_eq_some_iff.mp h
      obtain ⟨ys', hys, h⟩ := Option.bind_eq_some_iff.mp h
      obtain rfl : y :: ys' = ys := by simpa using h
      rw [List.map_cons, ← hg hy, ← ih hys]

theorem mem_of_mapM {α β : Type} {f : α → Option β} {xs : List α} {ys : List β}
    (h : xs.mapM f = some ys) : ∀ y ∈ ys, ∃ x ∈ xs, f x = some y := by
  induction xs generalizing ys with
  | nil =>
      obtain rfl : [] = ys := by simpa using h
      nofun
  | cons x xs ih =>
      rw [List.mapM_cons] at h
      obtain ⟨y, hy, h⟩ := Option.bind_eq_some_iff.mp h
      obtain ⟨ys', hys, h⟩ := Option.bind_eq_some_iff.mp h
      obtain rfl : y :: ys' = ys := by simpa using h
      intro z hz
      rcases List.mem_cons.mp hz with rfl | hz
      · exact ⟨x, List.mem_cons_self .., hy⟩
      · obtain ⟨x', hx', hread⟩ := ih hys z hz
        exact ⟨x', List.mem_cons_of_mem _ hx', hread⟩

theorem ipv4?_eq_some {cs : List Char} {bits : BitVec 32} (h : ipv4? cs = some bits) :
    ∃ a b c d, a ≤ 255 ∧ b ≤ 255 ∧ c ≤ 255 ∧ d ≤ 255 ∧
      Php.pieces '.' cs = [a, b, c, d].map (Nat.toDigits 10) ∧
      bits.toNat = ((a * 256 + b) * 256 + c) * 256 + d := by
  unfold ipv4? at h
  split at h
  case h_2 => cases h
  case h_1 a b c d hread =>
    have hle : ∀ n ∈ [a, b, c, d], n ≤ 255 := fun n hn =>
      have ⟨_, _, hoctet⟩ := mem_of_mapM hread n hn
      octet?_le hoctet
    simp only [List.mem_cons, List.not_mem_nil, or_false, forall_eq_or_imp, forall_eq] at hle
    obtain ⟨ha, hb, hc, hd⟩ := hle
    refine ⟨a, b, c, d, ha, hb, hc, hd, eq_map_of_mapM eq_toDigits_of_octet? hread, ?_⟩
    rw [← Option.some.inj h, BitVec.toNat_ofNat]
    omega

theorem ipv4?_inj {cs cs' : List Char} {bits : BitVec 32} (h : ipv4? cs = some bits)
    (h' : ipv4? cs' = some bits) : cs = cs' := by
  obtain ⟨a, b, c, d, ha, hb, hc, hd, hps, hvalue⟩ := ipv4?_eq_some h
  obtain ⟨a', b', c', d', ha', hb', hc', hd', hps', hvalue'⟩ := ipv4?_eq_some h'
  obtain ⟨rfl, rfl, rfl, rfl⟩ : a = a' ∧ b = b' ∧ c = c' ∧ d = d' := by omega
  rw [← Php.intercalate_pieces '.' cs, hps, ← hps', Php.intercalate_pieces]

theorem inetPton_v4 {text : String} {bits : BitVec 32} :
    inetPton text = some (.v4 bits) ↔ ipv4? text.toList = some bits := by
  unfold inetPton
  cases ipv4? text.toList with
  | none => cases ipv6? text.toList <;> simp
  | some bits' => simp

/-- Two spellings of an address are spellings of an IPv6 address. -/
theorem isV6_of_two_spellings {s t : String} {a : IpAddr} (hs : inetPton s = some a)
    (ht : inetPton t = some a) (hne : s ≠ t) : a.isV6 = true := by
  cases a with
  | v6 bits => rfl
  | v4 bits =>
      exact absurd (String.toList_inj.mp (ipv4?_inj (inetPton_v4.mp hs) (inetPton_v4.mp ht))) hne

/-! ## Texts that begin with `0.0.0.0` -/

def zeros : List Char := ['0', '.', '0', '.', '0', '.', '0']

theorem octet?_zero_cons {c : Char} {cs : List Char} : octet? ('0' :: c :: cs) = none := by
  simp [octet?]

theorem ipv4?_zeros {cs : List Char} {bits : BitVec 32} (h : ipv4? (zeros ++ cs) = some bits) :
    cs = [] := by
  cases hp : Php.pieces '.' cs with
  | nil => exact absurd hp (Php.pieces_ne_nil '.' cs)
  | cons p ps =>
      have hpieces : Php.pieces '.' (zeros ++ cs) =
          ['0'] :: ['0'] :: ['0'] :: ('0' :: p) :: ps := by
        simp [zeros, Php.pieces, hp]
      obtain ⟨a, b, c, d, -, -, -, -, hps, -⟩ := ipv4?_eq_some h
      rw [hpieces] at hps
      have hlast : ps = [] := by simpa using congrArg List.length hps
      cases p with
      | nil =>
          rw [← Php.intercalate_pieces '.' cs, hp, hlast]
          rfl
      | cons x p =>
          rw [ipv4?, hpieces] at h
          simp [octet?_zero_cons] at h

theorem group?_zeros (cs : List Char) : group? (zeros ++ cs) = none :=
  if_pos (.inr (by simp [zeros]))

/-- Such a text is no group of an IPv6 address, and only as a whole an IPv4 address. -/
theorem segment?_zeros {isLast : Bool} {cs : List Char} {gs : List Nat}
    (h : segment? isLast (zeros ++ cs) = some gs) : isLast = true ∧ gs.length ≤ 2 := by
  cases hp : Php.pieces ':' cs with
  | nil => exact absurd hp (Php.pieces_ne_nil ':' cs)
  | cons p ps =>
      have hpieces : Php.pieces ':' (zeros ++ cs) = (zeros ++ p) :: ps :=
        Php.pieces_append (by decide) hp
      rw [segment?, if_neg (by simp [zeros]), hpieces] at h
      cases ps with
      | nil =>
          cases isLast with
          | false => simp [groups?, group?_zeros] at h
          | true =>
              obtain ⟨g, hg, rfl⟩ : ∃ g, groups? true (zeros ++ p) = some g ∧ g = gs := by
                simpa using h
              rw [groups?, group?_zeros] at hg
              obtain ⟨bits, -, rfl⟩ : ∃ bits, ipv4? (zeros ++ p) = some bits ∧
                  [bits.toNat / 65536, bits.toNat % 65536] = g := by simpa using hg
              exact ⟨rfl, le_refl _⟩
      | cons q ps =>
          have hfirst : groups? false (zeros ++ p) = none := by
            rw [groups?, group?_zeros]
            rfl
          simp [hfirst] at h

theorem cut?_append {a : List Char} (ha : ':' ∉ a) (cs : List Char) :
    cut? (a ++ cs) = (cut? cs).map fun p => (a ++ p.1, p.2) := by
  induction a with
  | nil => simp
  | cons c a ih =>
      rw [List.mem_cons, not_or] at ha
      rw [List.cons_append, cut?, ih ha.2, Option.map_map]
      · rfl
      · rintro rest rfl
        exact absurd rfl ha.1

theorem cut?_zeros {cs before after : List Char} (h : cut? (zeros ++ cs) = some (before, after)) :
    ∃ rest, before = zeros ++ rest := by
  rw [cut?_append (by decide)] at h
  obtain ⟨p, -, hp⟩ := Option.map_eq_some_iff.mp h
  exact ⟨p.1, (Prod.mk.inj hp).1.symm⟩

theorem ipv6?_zeros (cs : List Char) : ipv6? (zeros ++ cs) = none := by
  unfold ipv6?
  split
  case h_1 =>
    cases hseg : segment? true (zeros ++ cs) with
    | none => rfl
    | some gs =>
        have hlen := (segment?_zeros hseg).2
        exact if_neg (by omega)
  case h_2 before after hcut =>
    obtain ⟨rest, rfl⟩ := cut?_zeros hcut
    cases hseg : segment? false (zeros ++ rest) with
    | none => rfl
    | some gs => cases (segment?_zeros hseg).1

theorem eq_of_zeros {text : String} {a : IpAddr} (hzeros : Php.strStartsWith text "0.0.0.0")
    (h : inetPton text = some a) : text = "0.0.0.0" := by
  obtain ⟨cs, hcs⟩ := List.isPrefixOf_iff_prefix.mp hzeros
  have htext : zeros ++ cs = text.toList := hcs
  rw [inetPton, ← htext, ipv6?_zeros] at h
  cases hv4 : ipv4? (zeros ++ cs) with
  | none => simp [hv4] at h
  | some bits =>
      rw [ipv4?_zeros hv4, List.append_nil] at htext
      exact String.toList_inj.mp htext.symm

end Net
