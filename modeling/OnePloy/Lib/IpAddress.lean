import Mathlib.Data.BitVec
import OnePloy.Lib.PhpText

/-!
# IP addresses and networks

Addresses of both families and their textual forms (`inetPton`), and networks as
a number of leading bits (`Network.Contains`). Two ways to compare leading bits
are shown to be that: masks (`and_mask_eq_iff`) and packed bytes
(`take_packed_eq_iff`).
-/

namespace Net

inductive IpAddr
  | v4 (bits : BitVec 32)
  | v6 (bits : BitVec 128)
deriving DecidableEq

def IpAddr.isV6 : IpAddr → Bool
  | .v4 _ => false
  | .v6 _ => true

/-! ## Texts -/

/-- One of the four numbers of an IPv4 address. -/
def octet? (digits : List Char) : Option Nat :=
  let n := Php.digitsValue digits
  if digits.isEmpty ∨ 3 < digits.length ∨ !digits.all Char.isDigit ∨
      (digits.head? = some '0' ∧ digits ≠ ['0']) ∨ 255 < n then none
  else some n

def ipv4? (cs : List Char) : Option (BitVec 32) :=
  match (Php.pieces '.' cs).mapM octet? with
  | some [a, b, c, d] => some (BitVec.ofNat 32 (((a * 256 + b) * 256 + c) * 256 + d))
  | _ => none

def hexDigit? (c : Char) : Option Nat :=
  if c.isDigit then some (c.toNat - '0'.toNat)
  else if 'a' ≤ c ∧ c ≤ 'f' then some (c.toNat - 'a'.toNat + 10)
  else if 'A' ≤ c ∧ c ≤ 'F' then some (c.toNat - 'A'.toNat + 10)
  else none

/-- One of the eight groups of an IPv6 address. -/
def group? (digits : List Char) : Option Nat :=
  if digits.isEmpty ∨ 4 < digits.length then none
  else (digits.mapM hexDigit?).map fun ds => ds.foldl (fun n d => n * 16 + d) 0

/-- The groups of a piece; the last one of an address may be an IPv4 address. -/
def groups? (isLast : Bool) (piece : List Char) : Option (List Nat) :=
  match group? piece with
  | some n => some [n]
  | none =>
      if isLast then (ipv4? piece).map fun bits => [bits.toNat / 65536, bits.toNat % 65536]
      else none

/-- Groups between colons. -/
def segment? (isLast : Bool) (cs : List Char) : Option (List Nat) :=
  if cs.isEmpty then some []
  else
    let ps := Php.pieces ':' cs
    let first := ps.dropLast.mapM (groups? false)
    let last := ps.getLast?.bind (groups? isLast)
    first.bind fun gs => last.map fun g => gs.flatten ++ g

/-- What stands before and after the first `::`. -/
def cut? : List Char → Option (List Char × List Char)
  | ':' :: ':' :: cs => some ([], cs)
  | c :: cs => (cut? cs).map fun p => (c :: p.1, p.2)
  | [] => none

def ofGroups (gs : List Nat) : BitVec 128 :=
  BitVec.ofNat 128 (gs.foldl (fun n g => n * 65536 + g) 0)

def ipv6? (cs : List Char) : Option (BitVec 128) :=
  match cut? cs with
  | none => (segment? true cs).bind fun gs => if gs.length = 8 then some (ofGroups gs) else none
  | some (before, after) =>
      (segment? false before).bind fun gs => (segment? true after).bind fun gs' =>
        if gs.length + gs'.length < 8 then
          some (ofGroups (gs ++ List.replicate (8 - gs.length - gs'.length) 0 ++ gs'))
        else none

/-- `inet_pton`; what it reads is what `FILTER_VALIDATE_IP` lets through. -/
def inetPton (text : String) : Option IpAddr :=
  match ipv4? text.toList with
  | some bits => some (.v4 bits)
  | none => (ipv6? text.toList).map .v6

/-! ## Networks -/

/-- The addresses that begin with the first `len` bits of `base`. -/
structure Network (w : Nat) where
  base : BitVec w
  len : Nat
deriving DecidableEq

def Network.Contains {w : Nat} (n : Network w) (a : BitVec w) : Prop :=
  ∀ i < n.len, a.getMsbD i = n.base.getMsbD i

instance {w : Nat} (n : Network w) (a : BitVec w) : Decidable (n.Contains a) :=
  inferInstanceAs (Decidable (∀ i < n.len, a.getMsbD i = n.base.getMsbD i))

/-- A network of either family. -/
inductive IpNetwork
  | v4 (n : Network 32)
  | v6 (n : Network 128)
deriving DecidableEq

def IpNetwork.isV6 : IpNetwork → Bool
  | .v4 _ => false
  | .v6 _ => true

def IpNetwork.Contains : IpNetwork → IpAddr → Prop
  | .v4 n, .v4 a => n.Contains a
  | .v6 n, .v6 a => n.Contains a
  | _, _ => False

instance (n : IpNetwork) (a : IpAddr) : Decidable (n.Contains a) :=
  match n, a with
  | .v4 n, .v4 a => inferInstanceAs (Decidable (n.Contains a))
  | .v6 n, .v6 a => inferInstanceAs (Decidable (n.Contains a))
  | .v4 _, .v6 _ => isFalse id
  | .v6 _, .v4 _ => isFalse id

theorem IpNetwork.isV6_of_contains {n : IpNetwork} {a : IpAddr} (h : n.Contains a) :
    n.isV6 = a.isV6 := by
  cases n <;> cases a <;> first | rfl | cases h

/-- The one address. -/
def IpAddr.network : IpAddr → IpNetwork
  | .v4 a => .v4 ⟨a, 32⟩
  | .v6 a => .v6 ⟨a, 128⟩

theorem eq_of_getMsbD {w : Nat} {x y : BitVec w} (h : ∀ i < w, x.getMsbD i = y.getMsbD i) :
    x = y := by
  refine BitVec.eq_of_getLsbD_eq fun i hi => ?_
  have hmsb := h (w - 1 - i) (by omega)
  simp only [BitVec.getMsbD, show w - 1 - i < w by omega, decide_true, Bool.true_and] at hmsb
  rwa [show w - 1 - (w - 1 - i) = i by omega] at hmsb

theorem IpAddr.network_contains {a b : IpAddr} : a.network.Contains b ↔ b = a := by
  cases a with
  | v4 a =>
      cases b with
      | v4 b =>
          refine ⟨fun h => congrArg IpAddr.v4 (eq_of_getMsbD h), fun h => ?_⟩
          injection h with h
          exact fun i _ => by rw [h]
      | v6 b => exact iff_of_false id nofun
  | v6 a =>
      cases b with
      | v4 b => exact iff_of_false id nofun
      | v6 b =>
          refine ⟨fun h => congrArg IpAddr.v6 (eq_of_getMsbD h), fun h => ?_⟩
          injection h with h
          exact fun i _ => by rw [h]

/-! ## Leading bits -/

theorem getMsbD_mask {w n i : Nat} (hn : n ≤ w) :
    (BitVec.allOnes w <<< (w - n)).getMsbD i = decide (i < n) := by
  rw [BitVec.getMsbD_shiftLeft, BitVec.getMsbD_allOnes]
  exact decide_eq_decide.mpr (by omega)

/-- Under a mask of `n` leading ones. -/
theorem and_mask_eq_iff {w : Nat} {x y : BitVec w} {n : Nat} (hn : n ≤ w) :
    x &&& (BitVec.allOnes w <<< (w - n)) = y &&& (BitVec.allOnes w <<< (w - n)) ↔
      ∀ i < n, x.getMsbD i = y.getMsbD i := by
  constructor
  · intro h i hi
    have hbit := congrArg (BitVec.getMsbD · i) h
    simpa [BitVec.getMsbD_and, getMsbD_mask hn, hi] using hbit
  · intro h
    refine eq_of_getMsbD fun i _ => ?_
    rw [BitVec.getMsbD_and, BitVec.getMsbD_and, getMsbD_mask hn]
    by_cases hi : i < n
    · rw [h i hi]
    · simp [hi]

/-- A mask that is as long as the network's prefix, in 64 bits. -/
theorem masked_eq_iff {x y : BitVec 32} {n : Nat} (hn : n ≤ 32) :
    x.setWidth 64 &&& ((-1 : BitVec 64) <<< (32 - n)) =
        y.setWidth 64 &&& ((-1 : BitVec 64) <<< (32 - n)) ↔
      ∀ i < n, x.getMsbD i = y.getMsbD i := by
  have hones : (-1 : BitVec 64) = BitVec.allOnes 64 := by decide
  have hmask : ∀ j, ((-1 : BitVec 64) <<< (32 - n)).getLsbD j = decide (32 - n ≤ j ∧ j < 64) := by
    intro j
    rw [hones, BitVec.getLsbD_shiftLeft, BitVec.getLsbD_allOnes]
    by_cases hj : 32 - n ≤ j ∧ j < 64
    · simp only [hj, decide_true, Bool.true_and, and_self]
      simp; omega
    · simp only [hj, decide_false]
      simp; omega
  constructor
  · intro h i hi
    have hbit := congrArg (BitVec.getLsbD · (31 - i)) h
    simp only [BitVec.getLsbD_and, BitVec.getLsbD_setWidth, hmask] at hbit
    simp only [BitVec.getMsbD, show i < 32 by omega, show 31 - i < 64 by omega,
      show 32 - n ≤ 31 - i by omega, and_self, decide_true, Bool.true_and, Bool.and_true] at hbit ⊢
    exact hbit
  · intro h
    refine BitVec.eq_of_getLsbD_eq fun j hj => ?_
    simp only [BitVec.getLsbD_and, BitVec.getLsbD_setWidth, hmask]
    by_cases hin : 32 - n ≤ j ∧ j < 32
    · have hbit := h (31 - j) (by omega)
      simp only [BitVec.getMsbD, show 31 - j < 32 by omega, decide_true, Bool.true_and,
        show 32 - 1 - (31 - j) = j by omega] at hbit
      rw [hbit]
    · by_cases hlow : 32 - n ≤ j
      · have hx : ∀ z : BitVec 32, z.getLsbD j = false := fun z =>
          BitVec.getLsbD_of_ge z j (by omega)
        simp [hx]
      · simp [hlow]

/-- The bytes of an address, the first ones first. -/
def packed (a : BitVec 128) : List (BitVec 8) :=
  (List.range 16).map fun k => a.extractLsb' (8 * (15 - k)) 8

theorem getMsbD_byte {a : BitVec 128} {k j : Nat} (hk : k < 16) (hj : j < 8) :
    (a.extractLsb' (8 * (15 - k)) 8).getMsbD j = a.getMsbD (8 * k + j) := by
  simp only [BitVec.getMsbD, BitVec.getLsbD_extractLsb', hj, show 8 - 1 - j < 8 by omega,
    show 8 * k + j < 128 by omega, decide_true, Bool.true_and]
  congr 1
  omega

theorem byte_eq_iff {x y : BitVec 128} {k : Nat} (hk : k < 16) :
    x.extractLsb' (8 * (15 - k)) 8 = y.extractLsb' (8 * (15 - k)) 8 ↔
      ∀ j < 8, x.getMsbD (8 * k + j) = y.getMsbD (8 * k + j) := by
  constructor
  · intro h j hj
    rw [← getMsbD_byte hk hj, h, getMsbD_byte hk hj]
  · intro h
    refine eq_of_getMsbD fun j hj => ?_
    rw [getMsbD_byte hk hj, h j hj, getMsbD_byte hk hj]

theorem take_packed_eq_iff {x y : BitVec 128} {n : Nat} (hn : n ≤ 16) :
    (packed x).take n = (packed y).take n ↔ ∀ i < 8 * n, x.getMsbD i = y.getMsbD i := by
  rw [packed, packed, ← List.map_take, ← List.map_take, List.take_range, Nat.min_eq_left hn,
    List.map_inj_left]
  constructor
  · intro h i hi
    have hbyte := (byte_eq_iff (by omega)).mp (h (i / 8) (List.mem_range.mpr (by omega)))
    have hbit := hbyte (i % 8) (by omega)
    rwa [show 8 * (i / 8) + i % 8 = i by omega] at hbit
  · intro h k hk
    have hlt := List.mem_range.mp hk
    exact (byte_eq_iff (by omega)).mpr fun j hj => h _ (by omega)

theorem getElem?_packed {a : BitVec 128} {k : Nat} (hk : k < 16) :
    (packed a)[k]? = some (a.extractLsb' (8 * (15 - k)) 8) := by
  rw [packed, List.getElem?_map, List.getElem?_range hk, Option.map_some]

/-! ## No address ends with a point -/

theorem ipv4?_concat_point (cs : List Char) : ipv4? (cs ++ ['.']) = none := by
  rw [ipv4?, Php.pieces_concat_self]
  have hfail : (Php.pieces '.' cs ++ [[]]).mapM octet? = none := by
    rw [List.mapM_append]
    cases (Php.pieces '.' cs).mapM octet? <;> rfl
  rw [hfail]

theorem group?_concat_point (cs : List Char) : group? (cs ++ ['.']) = none := by
  rw [group?]
  split
  · rfl
  · have hfail : (cs ++ ['.']).mapM hexDigit? = none := by
      rw [List.mapM_append]
      cases cs.mapM hexDigit? <;> rfl
    rw [hfail]
    rfl

theorem segment?_concat_point (cs : List Char) : segment? true (cs ++ ['.']) = none := by
  obtain ⟨ps, p, hp⟩ := Php.pieces_concat_ne (c := ':') (x := '.') (by decide) cs
  have hlast : groups? true (p ++ ['.']) = none := by
    rw [groups?, group?_concat_point]
    simp [ipv4?_concat_point]
  rw [segment?, if_neg (by simp), hp]
  simp [hlast]

theorem cut?_concat_point (cs : List Char) {before after : List Char}
    (h : cut? (cs ++ ['.']) = some (before, after)) : ∃ rest, after = rest ++ ['.'] := by
  generalize hxs : cs ++ ['.'] = xs at h
  induction xs using cut?.induct generalizing cs before with
  | case1 xs =>
      obtain ⟨-, rfl⟩ := Prod.mk.inj (Option.some.inj h)
      rcases cs with _ | ⟨c, _ | ⟨c', cs⟩⟩
      · cases hxs
      · simp at hxs
      · obtain ⟨-, -, rfl⟩ : c = ':' ∧ c' = ':' ∧ cs ++ ['.'] = xs := by simpa using hxs
        exact ⟨cs, rfl⟩
  | case2 x xs hne ih =>
      rw [cut?] at h
      · obtain ⟨p, hp, heq⟩ := Option.map_eq_some_iff.mp h
        obtain ⟨-, rfl⟩ := Prod.mk.inj heq
        cases cs with
        | nil =>
            obtain ⟨-, rfl⟩ : '.' = x ∧ xs = [] := by simpa [eq_comm] using hxs
            cases hp
        | cons c cs =>
            obtain ⟨-, hrest⟩ : c = x ∧ cs ++ ['.'] = xs := by simpa using hxs
            exact ih cs hrest hp
      · exact hne
  | case3 => cases h

theorem ipv6?_concat_point (cs : List Char) : ipv6? (cs ++ ['.']) = none := by
  unfold ipv6?
  split
  · rw [segment?_concat_point]
    rfl
  · next before after hcut =>
      obtain ⟨rest, rfl⟩ := cut?_concat_point cs hcut
      rw [segment?_concat_point]
      cases segment? false before <;> rfl

end Net
