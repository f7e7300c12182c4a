import OnePloy.AllowlistEntries

/-!
# Removing redundant entries keeps everyone's access, with exceptions

The test of the loops is right about blocks, but not about bare entries, which the
check compares as texts, nor about the forms of `0.0.0.0`, which stand for everyone
whatever their mask is. A bare entry in another spelling than the client's removes
the entry that lets the client in, an ordinary block around `0.0.0.0` removes a form
of it, and one with a longer mask leaves entries that it makes redundant.
`keepsAccess_iff` is the exact condition: what the loops leave is followed from the
entries that act (`exists_acts_holdsZero`, `outlives_of_stands`,
`exists_stands_of_outlives`).
-/

namespace OnePloy

open Php Net Elimination

/-! ## The claim and its condition -/

/-- The first entry stands for everyone the second one stands for. -/
def CoversEntry (e f : String) : Prop :=
  ∃ r s, allowRange? e = some r ∧ allowRange? f = some s ∧ ∀ a, s.Contains a → r.Contains a

/-- Removing redundant entries changes nothing for a client in canonical text form. -/
structure KeepsAccess (entries : List String) : Prop where
  decides : ∀ ip a, inetPton ip = some a → inetNtop a = ip →
    checkIPAgainstAllowlist ip (deduplicateAllowlist entries) = checkIPAgainstAllowlist ip entries
  order : ((deduplicateAllowlist entries).map trim).Sublist (entries.map trim)
  apart : (deduplicateAllowlist entries).Pairwise fun e f => ¬ CoversEntry e f ∧ ¬ CoversEntry f e
  settled : deduplicateAllowlist (deduplicateAllowlist entries) = deduplicateAllowlist entries

/-- Position `z` has a form of `0.0.0.0` with the shortest mask of all that stands
around `0.0.0.0`, the first one of these. -/
def StandsFirst (xs : List ParsedEntry) (z : Nat) : Prop :=
  ∃ p, xs[z]? = some p ∧ p.IsZero ∧ ∀ i q, xs[i]? = some q → q.HoldsZero → i ≠ z →
    p.mask < q.mask ∨ (p.mask = q.mask ∧ z < i)

/-- An entry that no form of `0.0.0.0` takes with it, and that no bare entry in another
spelling than the client's hides. -/
structure Outlives (xs : List ParsedEntry) (k : Nat) (q : ParsedEntry) (ip : String)
    (a : IpAddr) : Prop where
  zero : ¬ q.IsZero
  cleared : ∀ (z : Nat) (p : ParsedEntry), xs[z]? = some p → p.IsZero → p.mask ≤ q.mask →
    ∃ i : Nat, ∃ o : ParsedEntry, i < z ∧ xs[i]? = some o ∧ ¬ o.IsZero ∧ o.HoldsZero ∧
      o.mask ≤ p.mask
  unshadowed : ∀ (i : Nat) p, i < k → xs[i]? = some p → Respells p.original ip a → q.mask < p.mask

/-- A form of `0.0.0.0` stands first and no entry has a shorter mask; or none does, and
whoever is let in is let in by an entry that outlives the others. -/
def KeepsCondition (entries : List String) : Prop :=
  entries.length ≤ 1 ∨
    (∃ z, ∃ p : ParsedEntry, StandsFirst (entries.filterMap parseEntry) z ∧
      (entries.filterMap parseEntry)[z]? = some p ∧
      ∀ q ∈ entries.filterMap parseEntry, (∃ a, q.Holds a) → p.mask ≤ q.mask) ∨
    ((¬ ∃ z, StandsFirst (entries.filterMap parseEntry) z) ∧
      ∀ ip a, inetPton ip = some a → inetNtop a = ip →
        (∃ q ∈ entries.filterMap parseEntry, q.Lets ip a) →
        ∃ k, ∃ q : ParsedEntry, (entries.filterMap parseEntry)[k]? = some q ∧ q.Lets ip a ∧
          Outlives (entries.filterMap parseEntry) k q ip a)

section

variable {xs : List ParsedEntry} (hxs : ∀ p ∈ xs, p.WellFormed)

include hxs

/-! ## Around `0.0.0.0` -/

/-- Of the entries around `0.0.0.0` with a bounded mask the first one acts. -/
theorem exists_acts_holdsZero {i : Nat} {p : ParsedEntry} {m : Int} (hi : xs[i]? = some p)
    (hp : p.HoldsZero) (hm : p.mask ≤ m) :
    ∃ k q, k ≤ i ∧ xs[k]? = some q ∧ q.HoldsZero ∧ q.mask ≤ m ∧ Acts ParsedEntry.covers xs k := by
  induction i using Nat.strongRecOn generalizing p with
  | ind i ih =>
      by_cases hacts : Acts ParsedEntry.covers xs i
      · exact ⟨i, p, le_refl i, hi, hp, hm, hacts⟩
      · obtain ⟨j, hj, -, -, q, p', hq, hp', hc⟩ := exists_of_not_acts hacts
        obtain rfl := Option.some.inj (hi.symm.trans hp')
        have hwf := hxs q (List.mem_of_getElem? hq)
        have hmask := (hwf.covers_iff.mp hc).1
        obtain ⟨k, o, hk, h⟩ := ih j hj hq (hwf.holdsZero_of_covers hc hp) (by omega)
        exact ⟨k, o, by omega, h⟩

/-- What stands around `0.0.0.0` with no longer mask covers a form of it. -/
theorem covers_zeroForm {i z : Nat} {p q : ParsedEntry} (hi : xs[i]? = some q)
    (hz : xs[z]? = some p) (hp : p.IsZero) (hne : i ≠ z) (hq : q.HoldsZero)
    (hmask : q.mask ≤ p.mask) : Covers ParsedEntry.covers xs i z :=
  ⟨hne, q, p, hi, hz, ((hxs q (List.mem_of_getElem? hi)).covers_isZero hp).mpr ⟨hmask, hq⟩⟩

theorem not_acts_of_around {i z : Nat} {p o : ParsedEntry} (hz : xs[z]? = some p) (hp : p.IsZero)
    (hi : xs[i]? = some o) (hlt : i < z) (ho : o.HoldsZero) (hmask : o.mask ≤ p.mask) :
    ¬ Acts ParsedEntry.covers xs z := by
  obtain ⟨k, q, hk, hq, hzero, hle, hacts⟩ := exists_acts_holdsZero hxs hi ho hmask
  exact fun h => acts_iff.mp h k (by omega) hacts
    (covers_zeroForm hxs hq hz hp (by omega) hzero hle)

/-- A form of `0.0.0.0` stands in the end only where it stands first. -/
theorem standsFirst_of_stands {z : Nat} {p : ParsedEntry} (hz : xs[z]? = some p) (hp : p.IsZero)
    (hstands : Stands ParsedEntry.covers xs z) : StandsFirst xs z := by
  refine ⟨p, hz, hp, fun i q hi hq hne => ?_⟩
  by_contra hfirst
  rw [not_or, not_and] at hfirst
  rcases Nat.lt_or_gt_of_ne hne with hlt | hgt
  · exact not_acts_of_around hxs hz hp hi hlt hq (by omega) hstands.acts
  · obtain ⟨k, o, -, ho, hzero, hle, hacts⟩ :=
      exists_acts_holdsZero hxs hi hq (m := p.mask - 1) (by omega)
    have hk : k ≠ z := by
      rintro rfl
      obtain rfl := Option.some.inj (hz.symm.trans ho)
      omega
    exact (stands_iff.mp hstands).2 k hacts (covers_zeroForm hxs ho hz hp hk hzero (by omega))

theorem stands_of_standsFirst {z : Nat} (h : StandsFirst xs z) :
    Stands ParsedEntry.covers xs z := by
  obtain ⟨p, hz, hp, hfirst⟩ := h
  have hcovers : ∀ i, Covers ParsedEntry.covers xs i z →
      z < i ∧ Covers ParsedEntry.covers xs z i := by
    rintro i ⟨hne, q, p', hi, hp', hc⟩
    obtain rfl := Option.some.inj (hz.symm.trans hp')
    obtain ⟨hmask, hzero⟩ := ((hxs q (List.mem_of_getElem? hi)).covers_isZero hp).mp hc
    rcases hfirst i q hi hzero hne with hlt | ⟨heq, hlt⟩
    · omega
    · refine ⟨hlt, Ne.symm hne, p, q, hz, hi, ?_⟩
      exact ((hxs p (List.mem_of_getElem? hz)).isZero_covers hp).mpr (by omega)
  have hacts : Acts ParsedEntry.covers xs z := acts_iff.mpr fun i hi _ hc => by
    have := (hcovers i hc).1
    omega
  refine stands_iff.mpr ⟨(List.getElem?_eq_some_iff.mp hz).1, fun i hi hc => ?_⟩
  obtain ⟨hlt, hback⟩ := hcovers i hc
  exact acts_iff.mp hi z hlt hacts hback

/-! ## Where no form of `0.0.0.0` stands first -/

/-- An entry that holds an address covers the full address. -/
theorem covers_full {i j : Nat} {p q : ParsedEntry} {a : IpAddr} (hi : xs[i]? = some p)
    (hj : xs[j]? = some q) (hne : i ≠ j) (hp : p.Holds a) (hq : inetPton q.ip = some a)
    (hmask : p.mask ≤ q.mask) : Covers ParsedEntry.covers xs i j := by
  refine ⟨hne, p, q, hi, hj, ((hxs p (List.mem_of_getElem? hi)).covers_iff).mpr ⟨hmask, ?_⟩⟩
  rcases hp with hz | ⟨b, hb, hc⟩
  · exact .inl hz
  · exact .inr ⟨a, b, hq, hb, hc⟩

theorem outlives_of_stands (hnone : ¬ ∃ z, StandsFirst xs z) {s : Nat} {q : ParsedEntry}
    {ip : String} {a : IpAddr} (hs : xs[s]? = some q) (hstands : Stands ParsedEntry.covers xs s)
    (hq : q.Holds a) : Outlives xs s q ip a := by
  have hwf := hxs q (List.mem_of_getElem? hs)
  have hzero : ¬ q.IsZero := fun hz =>
    hnone ⟨s, standsFirst_of_stands hxs hs hz hstands⟩
  refine ⟨hzero, fun z p hz hp hmask => ?_, fun i p hlt hi hr => ?_⟩
  · by_contra hblocked
    obtain ⟨k, o, hk, ho, hheld, hle, hacts⟩ :=
      exists_acts_holdsZero hxs hz (ParsedEntry.holdsZero_of_isZero hp) (le_refl p.mask)
    have hoz : o.IsZero := by
      by_contra hoz
      rcases Nat.lt_or_eq_of_le hk with hlt | rfl
      · exact hblocked ⟨k, o, hlt, ho, hoz, hheld, hle⟩
      · obtain rfl := Option.some.inj (hz.symm.trans ho)
        exact hoz hp
    have hne : k ≠ s := by
      rintro rfl
      obtain rfl := Option.some.inj (hs.symm.trans ho)
      exact hzero hoz
    refine (stands_iff.mp hstands).2 k hacts ⟨hne, o, q, ho, hs, ?_⟩
    exact ((hxs o (List.mem_of_getElem? ho)).isZero_covers hoz).mpr (by omega)
  · by_contra hle
    have hp := hxs p (List.mem_of_getElem? hi)
    obtain ⟨hpz, hpa, hmask⟩ := hp.of_respells hr
    obtain ⟨b, hb, hc⟩ := hq.resolve_left hzero
    obtain ⟨-, hwidth⟩ := hwf.mask_le_width hzero hb
    -- the entry is the full address itself, so what covers the other spelling covers it
    have hfull : a = b := by
      have hsame := width_of_contains hc
      rw [show q.mask.toNat = width b by omega] at hc
      exact block_width.mp hc
    rw [← hfull] at hb
    have hcover : Covers ParsedEntry.covers xs i s := by
      refine covers_full hxs hi hs (by omega) (.inr ⟨a, hpa, block_self _ _⟩) hb (by omega)
    by_cases hacts : Acts ParsedEntry.covers xs i
    · exact (stands_iff.mp hstands).2 i hacts hcover
    · obtain ⟨j, hj, hjacts, -, o, p', ho, hp', hc'⟩ := exists_of_not_acts hacts
      obtain rfl := Option.some.inj (hi.symm.trans hp')
      have hwo := hxs o (List.mem_of_getElem? ho)
      refine (stands_iff.mp hstands).2 j hjacts (covers_full hxs ho hs (by omega) ?_ hb ?_)
      · exact hwo.holds_of_covers hc' hpz (.inr ⟨a, hpa, block_self _ _⟩)
      · have := (hwo.covers_iff.mp hc').1
        omega

/-- What acts and covers an entry no form of `0.0.0.0` takes is no such form. -/
theorem not_isZero_of_covers {i k : Nat} {p q : ParsedEntry} {ip : String} {a : IpAddr}
    (hk : Outlives xs k q ip a) (hi : xs[i]? = some p) (hacts : Acts ParsedEntry.covers xs i)
    (hmask : p.mask ≤ q.mask) : ¬ p.IsZero := by
  intro hz
  obtain ⟨j, o, hlt, ho, -, hheld, hle⟩ := hk.cleared i p hi hz hmask
  exact not_acts_of_around hxs hi hz ho hlt hheld hle hacts

theorem exists_stands_of_outlives {k : Nat} {q : ParsedEntry} {ip : String} {a : IpAddr}
    (hk : xs[k]? = some q) (hlets : q.Lets ip a) (h : Outlives xs k q ip a) :
    ∃ s o, Stands ParsedEntry.covers xs s ∧ xs[s]? = some o ∧ o.Lets ip a := by
  let P : Nat → Prop := fun i => ∃ p, xs[i]? = some p ∧ p.Lets ip a ∧ ¬ p.IsZero ∧ p.mask ≤ q.mask
  -- one that acts and lets the client in
  have hstart : ∃ i, i < xs.length ∧ Acts ParsedEntry.covers xs i ∧ P i := by
    by_cases hacts : Acts ParsedEntry.covers xs k
    · exact ⟨k, (List.getElem?_eq_some_iff.mp hk).1, hacts, q, hk, hlets, h.zero, le_refl _⟩
    · obtain ⟨i, hlt, hiacts, -, p, q', hi, hq', hc⟩ := exists_of_not_acts hacts
      obtain rfl := Option.some.inj (hk.symm.trans hq')
      have hp := hxs p (List.mem_of_getElem? hi)
      have hmask := (hp.covers_iff.mp hc).1
      refine ⟨i, (List.getElem?_eq_some_iff.mp hi).1, hiacts, p, hi, ⟨?_, fun hr => ?_⟩, ?_, hmask⟩
      · exact hp.holds_of_covers hc h.zero hlets.1
      · have := h.unshadowed i p hlt hi hr
        omega
      · exact not_isZero_of_covers hxs h hi hiacts hmask
  obtain ⟨i, hi, hacts, hP⟩ := hstart
  have hclimb := Acts.climb (P := P) (fun i j hlt hiacts hjacts hc hPi => ?_) hi hacts hP
  · obtain ⟨s, hs, o, ho, hlets, -⟩ := hclimb
    exact ⟨s, o, hs, ho, hlets⟩
  · obtain ⟨p, hi, ⟨hpa, -⟩, hpz, hpmask⟩ := hPi
    obtain ⟨-, o, p', ho, hp', hcov⟩ := hc
    obtain rfl := Option.some.inj (hi.symm.trans hp')
    have hwo := hxs o (List.mem_of_getElem? ho)
    have hwp := hxs p (List.mem_of_getElem? hi)
    have hmask := (hwo.covers_iff.mp hcov).1
    refine ⟨o, ho, ⟨hwo.holds_of_covers hcov hpz hpa, fun hr => ?_⟩,
      not_isZero_of_covers hxs h ho hjacts (by omega), by omega⟩
    -- the other spelling is covered by what it covers, which comes before it
    obtain ⟨-, hoa, howidth⟩ := hwo.of_respells hr
    obtain ⟨b, hb, hpb⟩ := hpa.resolve_left hpz
    have hwidth := (hwp.mask_le_width hpz hb).2
    rw [← width_of_contains hpb] at hwidth
    exact acts_iff.mp hjacts i hlt hiacts
      (covers_full hxs hi ho (by omega) hpa hoa (by omega))

/-! ## Survivors do not cover each other -/

theorem not_coversEntry {i j : Nat} {p q : ParsedEntry} (hne : i ≠ j) (hi : xs[i]? = some p)
    (hj : xs[j]? = some q) (hsi : Stands ParsedEntry.covers xs i)
    (hsj : Stands ParsedEntry.covers xs j) (hp : ¬ p.IsZero) :
    ¬ CoversEntry p.original q.original := by
  rintro ⟨r, s, hr, hs, hsub⟩
  have hwp := hxs p (List.mem_of_getElem? hi)
  have hwq := hxs q (List.mem_of_getElem? hj)
  have hsubset : ∀ a, q.Holds a → p.Holds a := by
    intro a ha
    obtain ⟨s', hs', hc⟩ := hwq.admits_iff.mpr ha
    obtain rfl := Option.some.inj (hs.symm.trans hs')
    exact hwp.admits_iff.mp ⟨r, hr, hsub a hc⟩
  by_cases hq : q.IsZero
  · -- a network of one family does not hold the addresses of both
    obtain ⟨b, hb, hv4⟩ := (hsubset (.v4 0) (.inl hq)).resolve_left hp
    obtain ⟨b', hb', hv6⟩ := (hsubset (.v6 0) (.inl hq)).resolve_left hp
    obtain rfl := Option.some.inj (hb.symm.trans hb')
    cases (width_of_contains hv4).trans (width_of_contains hv6).symm
  · have hsome := hwq.range_ne_none.mp (by rw [hs]; nofun)
    exact hsi.not_covers hsj
      ⟨hne, p, q, hi, hj, hwp.covers_of_subset hwq hp hq hsome hsubset⟩

/-- The form of `0.0.0.0` that stands first leaves nothing with a mask that is not shorter. -/
theorem lt_mask_of_stands {z i : Nat} {p q : ParsedEntry} (hz : xs[z]? = some p) (hp : p.IsZero)
    (hfirst : StandsFirst xs z) (hi : xs[i]? = some q) (hstands : Stands ParsedEntry.covers xs i)
    (hne : z ≠ i) : q.mask < p.mask := by
  by_contra hle
  refine (stands_of_standsFirst hxs hfirst).not_covers hstands ⟨hne, p, q, hz, hi, ?_⟩
  exact ((hxs p (List.mem_of_getElem? hz)).isZero_covers hp).mpr (by omega)

/-- An entry with a shorter mask than the form of `0.0.0.0` that stands first leaves one
that stands beside it. -/
theorem exists_stands_shorter {z j : Nat} {p q : ParsedEntry} (hz : xs[z]? = some p)
    (hfirst : StandsFirst xs z) (hj : xs[j]? = some q) (hsome : ∃ a, q.Holds a)
    (hmask : q.mask < p.mask) :
    ∃ s o, Stands ParsedEntry.covers xs s ∧ xs[s]? = some o ∧ s ≠ z ∧ ∃ a, o.Holds a := by
  let P : Nat → Prop := fun i =>
    ∃ o, xs[i]? = some o ∧ o.mask < p.mask ∧ ¬ o.IsZero ∧ ∃ a, o.Holds a
  have hshort : ∀ {i : Nat} {o : ParsedEntry}, xs[i]? = some o → o.mask < p.mask → ¬ o.IsZero := by
    intro i o hi hlt ho
    obtain ⟨p', hp', -, hall⟩ := hfirst
    obtain rfl := Option.some.inj (hz.symm.trans hp')
    have hne : i ≠ z := by
      rintro rfl
      obtain rfl := Option.some.inj (hz.symm.trans hi)
      omega
    rcases hall i o hi (ParsedEntry.holdsZero_of_isZero ho) hne with h | h <;> omega
  have hup : ∀ {i k : Nat}, Covers ParsedEntry.covers xs k i → P i → P k := by
    rintro i k ⟨-, o, o', hk, ho', hc⟩ ⟨o'', hi, hlt, hz', a, ha⟩
    obtain rfl := Option.some.inj (hi.symm.trans ho')
    have hwo := hxs o (List.mem_of_getElem? hk)
    have hle := (hwo.covers_iff.mp hc).1
    exact ⟨o, hk, by omega, hshort hk (by omega), a, hwo.holds_of_covers hc hz' ha⟩
  have hPj : P j := ⟨q, hj, hmask, hshort hj hmask, hsome⟩
  have hstart : ∃ i, i < xs.length ∧ Acts ParsedEntry.covers xs i ∧ P i := by
    by_cases hacts : Acts ParsedEntry.covers xs j
    · exact ⟨j, (List.getElem?_eq_some_iff.mp hj).1, hacts, hPj⟩
    · obtain ⟨i, -, hiacts, hc⟩ := exists_of_not_acts hacts
      exact ⟨i, hc.lt.1, hiacts, hup hc hPj⟩
  obtain ⟨i, hi, hacts, hPi⟩ := hstart
  obtain ⟨s, hs, o, ho, hlt, -, hheld⟩ :=
    Acts.climb (P := P) (fun _ _ _ _ _ hc => hup hc) hi hacts hPi
  refine ⟨s, o, hs, ho, ?_, hheld⟩
  rintro rfl
  obtain rfl := Option.some.inj (hz.symm.trans ho)
  omega

end

/-! ## The lists -/

section

variable {entries : List String} (h : ∀ e ∈ entries, Accepted e)

include h

theorem wellFormed_parsed : ∀ p ∈ entries.filterMap parseEntry, p.WellFormed := by
  intro p hp
  obtain ⟨e, he, hparse⟩ := List.mem_filterMap.mp hp
  exact wellFormed_of_parse (h e he) hparse

omit h in
theorem original_of_parse {e : String} {p : ParsedEntry} (hp : parseEntry e = some p) :
    p.original = trim e := by
  unfold parseEntry at hp
  simp only [Option.ite_none_left_eq_some] at hp
  obtain ⟨-, hp⟩ := hp
  split at hp
  · cases hp
    rfl
  · split at hp <;> cases hp <;> rfl

omit h in
theorem entryMatches_parse {e ip : String} :
    entryMatches ip e = true ↔ ∃ p, parseEntry e = some p ∧ entryMatches ip p.original = true := by
  have hcases : (parseEntry e = none ∧ emptyText (trim e)) ∨
      ∃ p, parseEntry e = some p ∧ p.original = trim e := by
    unfold parseEntry
    by_cases hempty : emptyText (trim e)
    · exact .inl ⟨if_pos hempty, hempty⟩
    · rw [if_neg hempty]
      split
      · exact .inr ⟨_, rfl, rfl⟩
      · split <;> exact .inr ⟨_, rfl, rfl⟩
  have htrim : entryMatches ip (trim e) = entryMatches ip e := by
    unfold entryMatches
    rw [trim_trim]
  rcases hcases with ⟨hnone, hempty⟩ | ⟨p, hp, horiginal⟩
  · have hno : entryMatches ip e = false := by
      unfold entryMatches
      rw [if_pos hempty]
    simp [hnone, hno]
  · simp [hp, horiginal, htrim]

theorem check_iff_lets {ip : String} {a : IpAddr} (hip : inetPton ip = some a) :
    checkIPAgainstAllowlist ip entries = true ↔
      ∃ p ∈ entries.filterMap parseEntry, p.Lets ip a := by
  rw [checkIPAgainstAllowlist, List.any_eq_true]
  constructor
  · rintro ⟨e, he, hmatch⟩
    obtain ⟨p, hparse, hmatch⟩ := entryMatches_parse.mp hmatch
    have hp := wellFormed_of_parse (h e he) hparse
    obtain ⟨hadmits, hr⟩ := (entryMatches_iff hp.accepted hip).mp hmatch
    exact ⟨p, List.mem_filterMap.mpr ⟨e, he, hparse⟩, hp.admits_iff.mp hadmits, hr⟩
  · rintro ⟨p, hp, hheld, hr⟩
    obtain ⟨e, he, hparse⟩ := List.mem_filterMap.mp hp
    have hwf := wellFormed_of_parse (h e he) hparse
    refine ⟨e, he, entryMatches_parse.mpr ⟨p, hparse, ?_⟩⟩
    exact (entryMatches_iff hwf.accepted hip).mpr ⟨hwf.admits_iff.mpr hheld, hr⟩

omit h in
theorem parse_originals {ps : List ParsedEntry} (hps : ∀ p ∈ ps, p.WellFormed) :
    (ps.map (·.original)).filterMap parseEntry = ps := by
  induction ps with
  | nil => rfl
  | cons p ps ih =>
      rw [List.map_cons, List.filterMap_cons_some (hps p (List.mem_cons_self ..)).parse,
        ih fun q hq => hps q (List.mem_cons_of_mem _ hq)]

theorem wellFormed_remaining :
    ∀ p ∈ remaining ParsedEntry.covers (entries.filterMap parseEntry), p.WellFormed :=
  fun p hp => wellFormed_parsed h p (remaining_sublist.subset hp)

theorem check_dedup_iff {ip : String} {a : IpAddr} (hlen : ¬ entries.length ≤ 1)
    (hip : inetPton ip = some a) :
    checkIPAgainstAllowlist ip (deduplicateAllowlist entries) = true ↔
      ∃ s p, Stands ParsedEntry.covers (entries.filterMap parseEntry) s ∧
        (entries.filterMap parseEntry)[s]? = some p ∧ p.Lets ip a := by
  have hwf := wellFormed_remaining h
  have haccepted : ∀ e ∈ (remaining ParsedEntry.covers (entries.filterMap parseEntry)).map
      (·.original), Accepted e := by
    intro e he
    obtain ⟨p, hp, rfl⟩ := List.mem_map.mp he
    exact (hwf p hp).accepted
  rw [deduplicateAllowlist, if_neg hlen, check_iff_lets haccepted hip, parse_originals hwf]
  constructor
  · rintro ⟨p, hp, hlets⟩
    obtain ⟨s, hs, hget⟩ := mem_remaining.mp hp
    exact ⟨s, p, hs, hget, hlets⟩
  · rintro ⟨s, p, hs, hget, hlets⟩
    exact ⟨p, mem_remaining.mpr ⟨s, hs, hget⟩, hlets⟩

theorem dedup_settled :
    deduplicateAllowlist (deduplicateAllowlist entries) = deduplicateAllowlist entries := by
  by_cases hlen : entries.length ≤ 1
  · have hsame : deduplicateAllowlist entries = entries := if_pos hlen
    rw [hsame, hsame]
  · have hdedup : deduplicateAllowlist entries =
        (remaining ParsedEntry.covers (entries.filterMap parseEntry)).map (·.original) :=
      if_neg hlen
    rw [hdedup]
    unfold deduplicateAllowlist
    split
    · rfl
    · rw [parse_originals (wellFormed_remaining h), remaining_remaining]

theorem dedup_order : ((deduplicateAllowlist entries).map trim).Sublist (entries.map trim) := by
  by_cases hlen : entries.length ≤ 1
  · rw [deduplicateAllowlist, if_pos hlen]
  · rw [deduplicateAllowlist, if_neg hlen, List.map_map]
    have htexts : ∀ {es : List String}, (∀ e ∈ es, Accepted e) →
        ((es.filterMap parseEntry).map (trim ∘ ParsedEntry.original)).Sublist (es.map trim) := by
      intro es hes
      induction es with
      | nil => exact List.Sublist.refl _
      | cons e es ih =>
          have hrest := ih fun f hf => hes f (List.mem_cons_of_mem _ hf)
          cases hparse : parseEntry e with
          | none =>
              rw [List.filterMap_cons_none hparse]
              exact hrest.trans (List.sublist_cons_self ..)
          | some p =>
              rw [List.filterMap_cons_some hparse, List.map_cons, List.map_cons]
              have hp := wellFormed_of_parse (hes e (List.mem_cons_self ..)) hparse
              rw [Function.comp_apply, hp.trimmed, original_of_parse hparse]
              exact hrest.cons_cons _
    exact (remaining_sublist.map _).trans (htexts h)

/-- What the claim comes to for a list with more than one entry. -/
theorem keepsAccess_iff_stands (hlen : ¬ entries.length ≤ 1) :
    KeepsAccess entries ↔
      (∀ ip a, inetPton ip = some a → inetNtop a = ip →
        (∃ q ∈ entries.filterMap parseEntry, q.Lets ip a) →
        ∃ s o, Stands ParsedEntry.covers (entries.filterMap parseEntry) s ∧
          (entries.filterMap parseEntry)[s]? = some o ∧ o.Lets ip a) ∧
      ∀ i j, i < j → Stands ParsedEntry.covers (entries.filterMap parseEntry) i →
        Stands ParsedEntry.covers (entries.filterMap parseEntry) j →
        ∀ p q, (entries.filterMap parseEntry)[i]? = some p →
          (entries.filterMap parseEntry)[j]? = some q →
          ¬ CoversEntry p.original q.original ∧ ¬ CoversEntry q.original p.original := by
  have hdedup : deduplicateAllowlist entries =
      (remaining ParsedEntry.covers (entries.filterMap parseEntry)).map (·.original) := if_neg hlen
  constructor
  · rintro ⟨hdecides, -, hpair, -⟩
    rw [hdedup, List.pairwise_map] at hpair
    refine ⟨fun ip a hip hcanonical hsome => ?_, remaining_pairwise_iff.mp hpair⟩
    rw [← check_dedup_iff h hlen hip, hdecides ip a hip hcanonical]
    exact (check_iff_lets h hip).mpr hsome
  · rintro ⟨hkept, hpair⟩
    refine ⟨fun ip a hip hcanonical => ?_, dedup_order h, ?_, dedup_settled h⟩
    · rw [Bool.eq_iff_iff, check_dedup_iff h hlen hip, check_iff_lets h hip]
      constructor
      · rintro ⟨s, o, -, ho, hlets⟩
        exact ⟨o, List.mem_of_getElem? ho, hlets⟩
      · exact hkept ip a hip hcanonical
    · rw [hdedup, List.pairwise_map]
      exact remaining_pairwise_iff.mpr hpair

end

/-! ## The condition -/

theorem coversEntry_of_isZero {p q : ParsedEntry} (hp : p.WellFormed) (hq : q.WellFormed)
    (hz : p.IsZero) (hsome : ∃ a, q.Holds a) : CoversEntry p.original q.original := by
  obtain ⟨s, hs⟩ := Option.ne_none_iff_exists'.mp (hq.range_ne_none.mpr hsome)
  exact ⟨.everyone, s, allowRange?_zeroForm (hp.zero.mpr hz), hs, fun _ _ => trivial⟩

section

variable {xs : List ParsedEntry} (hxs : ∀ p ∈ xs, p.WellFormed)

include hxs

/-- What stands beside a form of `0.0.0.0` with the shortest mask stands for no one. -/
theorem not_coversEntry_of_shortest {z : Nat} {p : ParsedEntry} (hfirst : StandsFirst xs z)
    (hz : xs[z]? = some p) (hall : ∀ q ∈ xs, (∃ a, q.Holds a) → p.mask ≤ q.mask) {i j : Nat}
    {q o : ParsedEntry} (hne : i ≠ j) (hsi : Stands ParsedEntry.covers xs i)
    (hsj : Stands ParsedEntry.covers xs j) (hi : xs[i]? = some q) (hj : xs[j]? = some o) :
    ¬ CoversEntry q.original o.original := by
  by_cases hq : q.IsZero
  · rintro ⟨r, s, -, hs, -⟩
    have hwo := hxs o (List.mem_of_getElem? hj)
    have hheld := hwo.range_ne_none.mp (by rw [hs]; nofun)
    have hpz : p.IsZero := by
      obtain ⟨p', hp', hpz, -⟩ := hfirst
      obtain rfl := Option.some.inj (hz.symm.trans hp')
      exact hpz
    have hle := hall o (List.mem_of_getElem? hj) hheld
    have hmask : q.mask = p.mask := by
      by_cases hiz : z = i
      · subst hiz
        exact congrArg ParsedEntry.mask (Option.some.inj (hi.symm.trans hz))
      · have hlt := lt_mask_of_stands hxs hz hpz hfirst hi hsi hiz
        have hgt := lt_mask_of_stands hxs hi hq (standsFirst_of_stands hxs hi hq hsi) hz
          (stands_of_standsFirst hxs hfirst) (Ne.symm hiz)
        omega
    have hlt := lt_mask_of_stands hxs hi hq (standsFirst_of_stands hxs hi hq hsi) hj hsj hne
    omega
  · exact not_coversEntry hxs hne hi hj hsi hsj hq

end

/-- Removing redundant entries keeps everyone's access if and only if the condition
holds. -/
theorem keepsAccess_iff {entries : List String} (h : ∀ e ∈ entries, Accepted e) :
    KeepsAccess entries ↔ KeepsCondition entries := by
  by_cases hlen : entries.length ≤ 1
  · refine iff_of_true ?_ (.inl hlen)
    have hsame : deduplicateAllowlist entries = entries := if_pos hlen
    refine ⟨fun ip a _ _ => by rw [hsame], dedup_order h, ?_, dedup_settled h⟩
    rw [hsame]
    cases entries with
    | nil => exact List.Pairwise.nil
    | cons e es =>
        obtain rfl : es = [] := by simpa using hlen
        exact List.pairwise_singleton _ e
  · have hxs := wellFormed_parsed h
    rw [keepsAccess_iff_stands h hlen, KeepsCondition, or_iff_right hlen]
    generalize entries.filterMap parseEntry = xs at hxs
    by_cases hfirst : ∃ z, StandsFirst xs z
    · rw [or_iff_left fun hnone => hnone.1 hfirst]
      constructor
      · rintro ⟨-, hapart⟩
        obtain ⟨z, hz⟩ := hfirst
        have hstands := stands_of_standsFirst hxs hz
        obtain ⟨p, hp, hpz, -⟩ := id hz
        refine ⟨z, p, hz, hp, fun q hq hsome => ?_⟩
        by_contra hlt
        obtain ⟨j, hj⟩ := List.mem_iff_getElem?.mp hq
        obtain ⟨s, o, hs, ho, hne, hheld⟩ :=
          exists_stands_shorter hxs hp hz hj hsome (by omega)
        have hcovers := coversEntry_of_isZero (hxs p (List.mem_of_getElem? hp))
          (hxs o (List.mem_of_getElem? ho)) hpz hheld
        rcases Nat.lt_or_gt_of_ne hne with hlt | hgt
        · exact (hapart s z hlt hs hstands o p ho hp).2 hcovers
        · exact (hapart z s hgt hstands hs p o hp ho).1 hcovers
      · rintro ⟨z, p, hz, hp, hall⟩
        constructor
        · intro ip a _ _ _
          obtain ⟨p', hp', hpz, -⟩ := id hz
          refine ⟨z, p', stands_of_standsFirst hxs hz, hp', .inl hpz, fun hr => ?_⟩
          exact hr.1 ((hxs p' (List.mem_of_getElem? hp')).zero.mpr hpz)
        · intro i j hlt hi hj q o hq ho
          exact ⟨not_coversEntry_of_shortest hxs hz hp hall (by omega) hi hj hq ho,
            not_coversEntry_of_shortest hxs hz hp hall (by omega) hj hi ho hq⟩
    · rw [or_iff_right fun ⟨z, p, hz, _⟩ => hfirst ⟨z, hz⟩, and_iff_right hfirst]
      have hzero : ∀ {i q}, xs[i]? = some q → Stands ParsedEntry.covers xs i → ¬ q.IsZero :=
        fun hi hs hq => hfirst ⟨_, standsFirst_of_stands hxs hi hq hs⟩
      constructor
      · rintro ⟨hkept, -⟩ ip a hip hcanonical hsome
        obtain ⟨s, o, hs, ho, hlets⟩ := hkept ip a hip hcanonical hsome
        exact ⟨s, o, ho, hlets, outlives_of_stands hxs hfirst ho hs hlets.1⟩
      · intro hcondition
        constructor
        · intro ip a hip hcanonical hsome
          obtain ⟨k, q, hk, hlets, houtlives⟩ := hcondition ip a hip hcanonical hsome
          exact exists_stands_of_outlives hxs hk hlets houtlives
        · intro i j hlt hi hj q o hq ho
          exact ⟨not_coversEntry hxs (by omega) hq ho hi hj (hzero hq hi),
            not_coversEntry hxs (by omega) ho hq hj hi (hzero ho hj)⟩

theorem keepsAccess_iff_nested :
    KeepsAccess ["10.1.0.0/16", " 10.0.0.0/8", "2001:db8::1"] ↔
      KeepsCondition ["10.1.0.0/16", " 10.0.0.0/8", "2001:db8::1"] :=
  keepsAccess_iff (by decide +kernel)

/-- The same address twice, first in capitals: the client it let in is locked out. -/
theorem capitals_lock_out :
    ValidIpOrCidr.validate "2001:DB8::1,2001:db8::1" = none ∧
    deduplicateAllowlist ["2001:DB8::1", "2001:db8::1"] = ["2001:DB8::1"] ∧
    ¬ KeepsAccess ["2001:DB8::1", "2001:db8::1"] := by
  refine ⟨by decide +kernel, by decide +kernel, fun h => ?_⟩
  have hsame := h.decides "2001:db8::1" (.v6 0x20010db8000000000000000000000001)
    (by decide +kernel) (by decide +kernel)
  revert hsame
  decide +kernel

end OnePloy
