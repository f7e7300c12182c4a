import OnePloy.Lib.PhpText

/-!
# Words between separators

The pieces of a text that are not empty, and what changes only the number of
separators between them: dropping separators at the ends, and writing one where
several stand together. Where neither changes anything, the text is its words
with one separator between them.
-/

namespace Php

/-- `preg_replace('#c+#', 'c', …)`. -/
def squeeze (c : Char) : List Char → List Char
  | [] => []
  | x :: xs => if x = c ∧ xs.head? = some c then squeeze c xs else x :: squeeze c xs

def trimWith (trimmed : Char → Bool) (cs : List Char) : List Char :=
  ((cs.dropWhile trimmed).reverse.dropWhile trimmed).reverse

/-- The pieces that are not empty. -/
def words (c : Char) (cs : List Char) : List (List Char) := (pieces c cs).filter (· ≠ [])

theorem words_cons_self (c : Char) (cs : List Char) : words c (c :: cs) = words c cs := by
  rw [words, pieces, if_pos rfl]
  rfl

theorem words_concat_self (c : Char) (cs : List Char) : words c (cs ++ [c]) = words c cs := by
  rw [words, pieces_concat_self, List.filter_append]
  exact List.append_nil _

theorem words_dropWhile (c : Char) (cs : List Char) :
    words c (cs.dropWhile (· == c)) = words c cs := by
  induction cs with
  | nil => rfl
  | cons x cs ih =>
      by_cases hx : x = c
      · rw [hx, List.dropWhile_cons_of_pos (by simp), ih, words_cons_self]
      · rw [List.dropWhile_cons_of_neg (by simpa using hx)]

theorem words_trimWith (c : Char) (cs : List Char) :
    words c (trimWith (· == c) cs) = words c cs := by
  have hend : ∀ ds : List Char, words c (ds.dropWhile (· == c)).reverse = words c ds.reverse := by
    intro ds
    induction ds with
    | nil => rfl
    | cons d ds ih =>
        by_cases hd : d = c
        · rw [hd, List.dropWhile_cons_of_pos (by simp), ih, List.reverse_cons, words_concat_self]
        · rw [List.dropWhile_cons_of_neg (by simpa using hd)]
  rw [trimWith, hend, List.reverse_reverse, words_dropWhile]

/-- The first piece stays, and the others that are not empty. -/
theorem pieces_squeeze (c : Char) (cs : List Char) :
    ∃ p ps ps', pieces c (squeeze c cs) = p :: ps ∧ pieces c cs = p :: ps' ∧
      ps.filter (· ≠ []) = ps'.filter (· ≠ []) := by
  induction cs with
  | nil => exact ⟨[], [], [], rfl, rfl, rfl⟩
  | cons x cs ih =>
      obtain ⟨p, ps, ps', hsqueeze, hpieces, hfilter⟩ := ih
      rw [squeeze]
      split
      · next hself =>
          -- the next character is a separator too, so that the first piece is empty
          obtain ⟨rfl, hhead⟩ := hself
          obtain ⟨ds, rfl⟩ : ∃ ds, cs = x :: ds := by
            cases cs with
            | nil => cases hhead
            | cons d ds => exact ⟨ds, by rw [Option.some.inj hhead]⟩
          have hp : p = [] := by
            rw [pieces, if_pos rfl] at hpieces
            exact (List.cons.inj hpieces).1.symm
          refine ⟨p, ps, pieces x (x :: ds), hsqueeze, ?_, ?_⟩
          · rw [hp, pieces, if_pos rfl]
          · rw [hpieces, hp, hfilter]
            rfl
      · by_cases hx : x = c
        · refine ⟨[], p :: ps, p :: ps', ?_, ?_, ?_⟩
          · rw [pieces, if_pos hx, hsqueeze]
          · rw [pieces, if_pos hx, hpieces]
          · rw [List.filter_cons, List.filter_cons, hfilter]
        · refine ⟨x :: p, ps, ps', ?_, ?_, hfilter⟩
          · rw [pieces, if_neg hx, hsqueeze]
          · rw [pieces, if_neg hx, hpieces]

theorem words_squeeze (c : Char) (cs : List Char) : words c (squeeze c cs) = words c cs := by
  obtain ⟨p, ps, ps', hsqueeze, hpieces, hfilter⟩ := pieces_squeeze c cs
  rw [words, words, hsqueeze, hpieces, List.filter_cons, List.filter_cons, hfilter]

theorem notMem_of_mem_words {c : Char} {cs w : List Char} (h : w ∈ words c cs) : c ∉ w :=
  notMem_of_mem_pieces (List.mem_filter.mp h).1

theorem ne_nil_of_mem_words {c : Char} {cs w : List Char} (h : w ∈ words c cs) : w ≠ [] := by
  simpa using (List.mem_filter.mp h).2

/-! ## One separator between two words -/

/-- No separator at an end, and no two together. -/
structure IsJoined (c : Char) (cs : List Char) : Prop where
  head : cs.head? ≠ some c
  last : cs.getLast? ≠ some c
  apart : ¬ [c, c] <:+: cs

theorem head_squeeze (c : Char) (cs : List Char) : (squeeze c cs).head? = cs.head? := by
  induction cs with
  | nil => rfl
  | cons x cs ih =>
      rw [squeeze]
      split
      · next hself => rw [ih, hself.2, List.head?_cons, hself.1]
      · rfl

theorem squeeze_apart (c : Char) (cs : List Char) : ¬ [c, c] <:+: squeeze c cs := by
  induction cs with
  | nil => exact fun h => absurd (List.infix_nil.mp h) nofun
  | cons x cs ih =>
      rw [squeeze]
      split
      · exact ih
      · next hself =>
          rw [List.infix_cons_iff]
          rintro (hfront | hpart)
          · obtain ⟨rest, hrest⟩ := hfront
            obtain ⟨rfl, htail⟩ := List.cons.inj hrest
            refine hself ⟨rfl, ?_⟩
            rw [← head_squeeze, ← htail]
            rfl
          · exact ih hpart

/-- Trimming takes characters off at the ends. -/
theorem infix_trimWith (trimmed : Char → Bool) (cs : List Char) : trimWith trimmed cs <:+: cs := by
  have hfront := (List.dropWhile_suffix trimmed (l := cs)).isInfix
  have hback := (List.dropWhile_suffix trimmed (l := (cs.dropWhile trimmed).reverse)).isInfix
  rw [← List.reverse_infix, List.reverse_reverse] at hback
  exact hback.trans hfront

theorem head_dropWhile_ne (c : Char) (cs : List Char) :
    (cs.dropWhile (· == c)).head? ≠ some c := by
  intro h
  have hnot := List.head?_dropWhile_not (· == c) cs
  rw [h] at hnot
  simp at hnot

theorem isJoined_trimWith {c : Char} {cs : List Char} (h : ¬ [c, c] <:+: cs) :
    IsJoined c (trimWith (· == c) cs) where
  head := by
    intro hhead
    -- the head of what is left is that of the text without its front
    have hne : (cs.dropWhile (· == c)).reverse.dropWhile (· == c) ≠ [] := by
      intro hnil
      rw [trimWith, hnil] at hhead
      cases hhead
    obtain ⟨front, hfront⟩ := List.dropWhile_suffix (· == c) (l := (cs.dropWhile (· == c)).reverse)
    rw [trimWith, List.head?_reverse] at hhead
    refine head_dropWhile_ne c cs ?_
    rw [← List.getLast?_reverse, ← hfront, List.getLast?_append, hhead]
    rfl
  last := by
    rw [trimWith, List.getLast?_reverse]
    exact head_dropWhile_ne c _
  apart := fun hpart => h (hpart.trans (infix_trimWith _ cs))

/-- The first piece is empty only where a separator, or nothing, comes first. -/
theorem head_of_pieces_nil {c : Char} {cs : List Char} {ps : List (List Char)}
    (h : pieces c cs = [] :: ps) : cs = [] ∨ cs.head? = some c := by
  cases cs with
  | nil => exact .inl rfl
  | cons x xs =>
      rw [pieces] at h
      split at h
      · next hx => exact .inr (congrArg some hx)
      · cases hp : pieces c xs with
        | nil => exact absurd hp (pieces_ne_nil c xs)
        | cons p ps =>
            rw [hp] at h
            cases h

/-- A later piece is empty only at the end or between separators that stand together. -/
theorem nil_notMem_tail_pieces {c : Char} {cs : List Char} (hlast : cs.getLast? ≠ some c)
    (hapart : ¬ [c, c] <:+: cs) : [] ∉ (pieces c cs).tail := by
  induction cs with
  | nil => exact List.not_mem_nil
  | cons x xs ih =>
      have htail : xs.getLast? ≠ some c := by
        intro h
        rw [List.getLast?_cons, h] at hlast
        exact hlast rfl
      have hrest := ih htail fun hpart => hapart (hpart.trans (List.suffix_cons x xs).isInfix)
      cases hp : pieces c xs with
      | nil => exact absurd hp (pieces_ne_nil c xs)
      | cons p ps =>
          rw [hp] at hrest
          rw [pieces, hp]
          split
          · next hx =>
              subst hx
              rw [List.tail_cons, List.mem_cons, not_or]
              refine ⟨fun hnil => ?_, hrest⟩
              rcases head_of_pieces_nil (hnil ▸ hp) with rfl | hhead
              · exact hlast rfl
              · obtain ⟨ys, rfl⟩ := List.head?_eq_some_iff.mp hhead
                exact hapart ⟨[], ys, rfl⟩
          · exact hrest

/-- A text without needless separators is its words, one separator between them. -/
theorem IsJoined.intercalate_words {c : Char} {cs : List Char} (h : IsJoined c cs) :
    [c].intercalate (words c cs) = cs := by
  by_cases hne : cs = []
  · rw [hne]
    rfl
  · have hnil : [] ∉ pieces c cs := by
      cases hp : pieces c cs with
      | nil => exact List.not_mem_nil
      | cons p ps =>
          have htail := nil_notMem_tail_pieces h.last h.apart
          rw [hp] at htail
          rw [List.mem_cons, not_or]
          refine ⟨fun hnil => ?_, htail⟩
          rcases head_of_pieces_nil (hnil ▸ hp) with hcs | hhead
          · exact hne hcs
          · exact h.head hhead
    have hwords : words c cs = pieces c cs :=
      List.filter_eq_self.mpr fun p hp => by
        have hp' : p ≠ [] := fun hempty => hnil (hempty ▸ hp)
        simpa using hp'
    rw [hwords, intercalate_pieces]

/-- What is trimmed and squeezed is the words of the text. -/
theorem trimWith_squeeze (c : Char) (cs : List Char) :
    trimWith (· == c) (squeeze c cs) = [c].intercalate (words c cs) := by
  have hjoined := (isJoined_trimWith (squeeze_apart c cs)).intercalate_words
  rw [← hjoined, words_trimWith, words_squeeze]

/-- Joined words are told apart by what they are. -/
theorem words_intercalate {c : Char} {ls : List (List Char)} (hsep : ∀ w ∈ ls, c ∉ w)
    (hne : ∀ w ∈ ls, w ≠ []) : words c ([c].intercalate ls) = ls := by
  by_cases hnil : ls = []
  · rw [hnil]
    rfl
  · rw [words, pieces_intercalate_of_notMem hnil hsep]
    exact List.filter_eq_self.mpr fun w hw => by simpa using hne w hw

theorem words_append_sep (c : Char) (a b : List Char) :
    words c (a ++ c :: b) = words c a ++ words c b := by
  rw [words, pieces_append_sep, List.filter_append, words, words]

theorem words_of_word {c : Char} {w : List Char} (hsep : c ∉ w) (hne : w ≠ []) :
    words c w = [w] := by
  rw [words, pieces_of_notMem hsep]
  exact List.filter_eq_self.mpr fun v hv => by simpa [List.mem_singleton.mp hv] using hne

theorem intercalate_concat (c : Char) {ls : List (List Char)} (hne : ls ≠ []) (w : List Char) :
    [c].intercalate (ls ++ [w]) = [c].intercalate ls ++ c :: w := by
  induction ls with
  | nil => exact absurd rfl hne
  | cons l ls ih =>
      cases ls with
      | nil =>
          rw [List.singleton_append, intercalate_cons_cons, List.intercalate_singleton,
            List.intercalate_singleton]
      | cons m ls =>
          have hrest := ih (List.cons_ne_nil m ls)
          rw [List.cons_append] at hrest
          rw [List.cons_append, List.cons_append, intercalate_cons_cons, hrest,
            intercalate_cons_cons, List.append_assoc]
          rfl

/-! ## Slugs -/

/-- The characters of a slug. -/
def isSlugChar (c : Char) : Bool := c == '-' || c.isAlphanum

/-- `Str::slug` with a dash, of a text that has no white space and no at sign and
is plain ASCII. -/
def slugChars (title : List Char) : List Char :=
  let dashed := (squeeze '_' title).map fun c => if c = '_' then '-' else c
  let kept := (dashed.map Char.toLower).filter isSlugChar
  trimWith (· == '-') (squeeze '-' kept)

/-- What a character leaves in a slug. -/
def slugChar? (c : Char) : Option Char :=
  if c = '-' ∨ c = '_' then some '-' else if c.isAlphanum then some c.toLower else none

/-- What a dash or an underscore separates, without case and other characters. -/
def slugWords (title : List Char) : List (List Char) := words '-' (title.filterMap slugChar?)

theorem isAlphanum_toLower (c : Char) : c.toLower.isAlphanum = c.isAlphanum := by
  by_cases hupper : c.val ≥ 'A'.val ∧ c.val ≤ 'Z'.val
  · have hlower : c.toLower.isLower = true := by
      unfold Char.toLower Char.isLower
      rw [dif_pos hupper]
      obtain ⟨hA, hZ⟩ := hupper
      simp only [ge_iff_le, UInt32.le_iff_toNat_le, Bool.and_eq_true, decide_eq_true_eq] at hA hZ ⊢
      have hA' : 'A'.val.toNat = 65 := rfl
      have hZ' : 'Z'.val.toNat = 90 := rfl
      have ha' : 'a'.val.toNat = 97 := rfl
      have hz' : 'z'.val.toNat = 122 := rfl
      have hshift : ('a'.val - 'A'.val).toNat = 32 := rfl
      rw [UInt32.toNat_add]
      omega
    have hup : c.isUpper = true := decide_eq_true hupper
    unfold Char.isAlphanum Char.isAlpha
    rw [hlower, hup]
    simp
  · rw [toLower_of_not hupper]

theorem slug_kept (title : List Char) :
    ((title.map fun c => if c = '_' then '-' else c).map Char.toLower).filter isSlugChar =
      title.filterMap slugChar? := by
  induction title with
  | nil => rfl
  | cons c title ih =>
      rw [List.map_cons, List.map_cons, List.filter_cons, ih, List.filterMap_cons, slugChar?]
      by_cases hdash : c = '-' ∨ c = '_'
      · rw [if_pos hdash]
        rcases hdash with rfl | rfl <;> rfl
      · rw [not_or] at hdash
        have hlower : c.toLower ≠ '-' := fun heq => by
          have hsame : c.toLower = c := toLower_of_not fun hupper => by
            have hup : c.isUpper = true := decide_eq_true hupper
            have halnum : '-'.isAlphanum = true := by
              rw [← heq, isAlphanum_toLower]
              unfold Char.isAlphanum Char.isAlpha
              rw [hup]
              rfl
            exact absurd halnum (by decide)
          exact hdash.1 (hsame ▸ heq)
        rw [if_neg hdash.2, if_neg (not_or.mpr hdash), isSlugChar, isAlphanum_toLower,
          beq_eq_false_iff_ne.mpr hlower, Bool.false_or]
        by_cases halnum : c.isAlphanum = true
        · rw [if_pos halnum, if_pos halnum]
        · rw [if_neg halnum, if_neg halnum]

/-- One underscore or several make no difference to what is squeezed later. -/
theorem squeeze_filterMap {f : Char → Option Char} {a b : Char} (h : f a = some b)
    (cs : List Char) : squeeze b ((squeeze a cs).filterMap f) = squeeze b (cs.filterMap f) := by
  have hcons : ∀ (x : Char) {l l' : List Char}, squeeze b l = squeeze b l' →
      squeeze b (x :: l) = squeeze b (x :: l') := by
    intro x l l' heq
    have hhead : l.head? = l'.head? := by rw [← head_squeeze b l, heq, head_squeeze]
    rw [squeeze, squeeze, heq, hhead]
  induction cs with
  | nil => rfl
  | cons x cs ih =>
      rw [squeeze]
      split
      · next hself =>
          obtain ⟨rfl, hhead⟩ := hself
          obtain ⟨ds, rfl⟩ := List.head?_eq_some_iff.mp hhead
          rw [ih]
          simp only [List.filterMap_cons_some h]
          conv_rhs => rw [squeeze, if_pos ⟨rfl, rfl⟩]
      · cases hx : f x with
        | none => rw [List.filterMap_cons_none hx, List.filterMap_cons_none hx, ih]
        | some y =>
            rw [List.filterMap_cons_some hx, List.filterMap_cons_some hx]
            exact hcons y ih

/-- A slug is its words. -/
theorem slugChars_eq (title : List Char) :
    slugChars title = ['-'].intercalate (slugWords title) := by
  rw [slugChars, slug_kept, squeeze_filterMap (by rfl), trimWith_squeeze, slugWords]

theorem words_slugChars (title : List Char) : words '-' (slugChars title) = slugWords title := by
  rw [slugChars_eq]
  exact words_intercalate (fun w hw => notMem_of_mem_words hw) fun w hw => ne_nil_of_mem_words hw

theorem squeeze_subset (c : Char) (cs : List Char) : squeeze c cs ⊆ cs := by
  induction cs with
  | nil => exact List.Subset.refl []
  | cons x xs ih =>
      rw [squeeze]
      split
      · exact List.subset_cons_of_subset x ih
      · exact List.cons_subset_cons x ih

theorem isSlugChar_of_mem {title : List Char} {c : Char} (h : c ∈ slugChars title) :
    isSlugChar c = true :=
  List.of_mem_filter (squeeze_subset _ _ ((infix_trimWith _ _).subset h))

theorem isJoined_slugChars (title : List Char) : IsJoined '-' (slugChars title) :=
  isJoined_trimWith (squeeze_apart '-' _)

theorem slugChars_inj {title title' : List Char} :
    slugChars title = slugChars title' ↔ slugWords title = slugWords title' := by
  constructor
  · intro h
    rw [← words_slugChars, h, words_slugChars]
  · intro h
    rw [slugChars_eq, h, slugChars_eq]

end Php
