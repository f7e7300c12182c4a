import OnePloy.SudoOwnership
import OnePloy.Lib.ShellLine

/-!
# Replacing operators in a line

The third pass puts `sudo` behind the operators by replacing text, wherever it
stands. In a clean line, where no quoted string looks like an operator and no word
would grow together with the `sudo`, this adds words where simple commands begin.
-/

namespace OnePloy

open Php Shell

/-! ## Words that are added -/

def sudoWord : List Mark := [.char 's', .char 'u', .char 'd', .char 'o', .wordEnd]

/-- The reserved word that a simple command may begin behind. -/
def ifWord : List Mark := [.char 'i', .char 'f', .wordEnd]

/-- The first line is the second one with `sudo` words added where simple commands begin;
`atStart` says that one may begin here. -/
inductive SudoAdded : (atStart : Bool) → List Mark → List Mark → Prop
  | nil (atStart : Bool) : SudoAdded atStart [] []
  | added {out marks : List Mark} :
      SudoAdded true out marks → SudoAdded true (sudoWord ++ out) marks
  | reserved {out marks : List Mark} :
      SudoAdded true out marks → SudoAdded true (ifWord ++ out) (ifWord ++ marks)
  | mark (atStart : Bool) (mark : Mark) {out marks : List Mark} :
      SudoAdded mark.opensCommand out marks → SudoAdded atStart (mark :: out) (mark :: marks)

namespace SudoAdded

theorem refl (atStart : Bool) (marks : List Mark) : SudoAdded atStart marks marks := by
  induction marks generalizing atStart with
  | nil => exact .nil atStart
  | cons mark marks ih => exact .mark atStart mark (ih _)

theorem at_start {out marks : List Mark} (h : SudoAdded false out marks) :
    SudoAdded true out marks := by
  cases h with
  | nil => exact .nil true
  | mark _ mark h => exact .mark true mark h

theorem append_left {out marks : List Mark} (front : List Mark)
    (h : ∀ atStart, SudoAdded atStart out marks) (atStart : Bool) :
    SudoAdded atStart (front ++ out) (front ++ marks) := by
  induction front generalizing atStart with
  | nil => exact h atStart
  | cons mark front ih => exact .mark atStart mark (ih _)

/-- Inside of a command nothing is added before the next operator. -/
theorem of_append_right {front out marks : List Mark}
    (hfront : ∀ mark ∈ front, mark.opensCommand = false)
    (h : SudoAdded false out (front ++ marks)) :
    ∃ out', out = front ++ out' ∧ SudoAdded false out' marks := by
  induction front generalizing out with
  | nil => exact ⟨out, rfl, h⟩
  | cons mark front ih =>
      cases h with
      | mark _ _ h =>
          rw [hfront mark (List.mem_cons_self ..)] at h
          obtain ⟨out', rfl, hout⟩ := ih (fun m hm => hfront m (List.mem_cons_of_mem _ hm)) h
          exact ⟨out', rfl, hout⟩

theorem of_append_left {front out marks : List Mark}
    (hfront : ∀ mark ∈ front, mark.opensCommand = false)
    (h : SudoAdded false (front ++ out) marks) :
    ∃ marks', marks = front ++ marks' ∧ SudoAdded false out marks' := by
  induction front generalizing marks with
  | nil => exact ⟨marks, rfl, h⟩
  | cons mark front ih =>
      cases h with
      | mark _ _ h =>
          rw [hfront mark (List.mem_cons_self ..)] at h
          obtain ⟨marks', rfl, hmarks⟩ := ih (fun m hm => hfront m (List.mem_cons_of_mem _ hm)) h
          exact ⟨marks', rfl, hmarks⟩

theorem trans {atStart : Bool} {out marks marks' : List Mark} (h : SudoAdded atStart out marks)
    (h' : SudoAdded atStart marks marks') : SudoAdded atStart out marks' := by
  induction hn : out.length using Nat.strongRecOn generalizing atStart out marks marks' with
  | ind n ih =>
      have hword : ∀ mark ∈ [Mark.char 'u', .char 'd', .char 'o', .wordEnd],
          mark.opensCommand = false := by decide
      have hif : ∀ mark ∈ [Mark.char 'f', .wordEnd], mark.opensCommand = false := by decide
      cases h with
      | nil => exact h'
      | @added rest _ h =>
          have hshort : rest.length < n := by
            rw [← hn, List.length_append]
            exact Nat.lt_add_of_pos_left (by decide)
          exact .added (ih _ hshort h h' rfl)
      | @reserved rest _ h =>
          have hshort : rest.length < n := by
            rw [← hn, List.length_append]
            exact Nat.lt_add_of_pos_left (by decide)
          cases h' with
          | reserved h' => exact .reserved (ih _ hshort h h' rfl)
          | mark _ _ h' =>
              obtain ⟨marks'', rfl, hrest⟩ := of_append_left hif h'
              exact .reserved (ih _ hshort h hrest.at_start rfl)
      | @mark _ mark rest _ h =>
          have hshort : rest.length < n := by rw [← hn]; exact Nat.lt_succ_self _
          cases h' with
          | added h' =>
              obtain ⟨rest', rfl, hrest⟩ := of_append_right hword h
              exact .added (ih _ (by simp at hshort; omega) hrest.at_start h' rfl)
          | reserved h' =>
              obtain ⟨rest', rfl, hrest⟩ := of_append_right hif h
              exact .reserved (ih _ (by simp at hshort; omega) hrest.at_start h' rfl)
          | mark _ _ h' => exact .mark _ mark (ih _ hshort h h' rfl)

/-- No operator is added. -/
theorem count_eq {atStart : Bool} {out marks : List Mark} (h : SudoAdded atStart out marks)
    {mark : Mark} (hmark : mark.opensCommand = true) : out.count mark = marks.count mark := by
  induction h with
  | nil => rfl
  | added _ ih =>
      rw [List.count_append, ih, List.count_eq_zero_of_not_mem, Nat.zero_add]
      rintro hmem
      have hword : ∀ m ∈ sudoWord, m.opensCommand = false := by decide
      rw [hword mark hmem] at hmark
      cases hmark
  | reserved _ ih => rw [List.count_append, List.count_append, ih]
  | mark _ m _ ih => rw [List.count_cons, List.count_cons, ih]

end SudoAdded

/-! ## What the third pass replaces -/

/-- What the third pass puts `sudo` behind. -/
inductive SudoPlace
  | substitution | orIf | andIf | pipe
deriving DecidableEq

namespace SudoPlace

def text : SudoPlace → List Char
  | substitution => ['$', '(']
  | orIf => ['|', '|']
  | andIf => ['&', '&']
  | pipe => [' ', '|', ' ']

def more : SudoPlace → List Char
  | substitution | pipe => ['s', 'u', 'd', 'o', ' ']
  | orIf | andIf => [' ', 's', 'u', 'd', 'o']

def replace (place : SudoPlace) (cs : List Char) : List Char :=
  replaceChars place.text (place.text ++ place.more) 0 cs

/-- The word that is put behind an operator would grow together with what follows. -/
def glued (place : SudoPlace) (cs : List Char) : Bool :=
  (place = orIf || place = andIf) && place.text.isPrefixOf cs &&
    match cs[2]? with
    | none => false
    | some c => !endsWord c

end SudoPlace

/-- No quoted string has one of the texts in it, and behind `||` and `&&` a word ends. -/
def isClean (places : List SudoPlace) : (quoted : Bool) → List Char → Bool
  | _, [] => true
  | quoted, c :: cs =>
      if c = '\'' then isClean places (!quoted) cs
      else
        !(places.any fun place =>
            if quoted then place.text.isPrefixOf (c :: cs) else place.glued (c :: cs)) &&
          isClean places quoted cs

namespace SudoPlace

theorem two_le_text (place : SudoPlace) : 2 ≤ place.text.length ∧ place.text.length ≤ 3 := by
  cases place <;> decide

theorem text_ne_nil (place : SudoPlace) : place.text ≠ [] := by
  cases place <;> decide

theorem quote_notMem_text (place : SudoPlace) : '\'' ∉ place.text := by
  cases place <;> decide

theorem replace_miss {place : SudoPlace} {c : Char} {cs : List Char}
    (h : ¬ place.text <+: c :: cs) : place.replace (c :: cs) = c :: place.replace cs :=
  replaceChars_miss _ h

theorem replace_hit (place : SudoPlace) (cs : List Char) :
    place.replace (place.text ++ cs) = place.text ++ place.more ++ place.replace cs :=
  replaceChars_hit place.text_ne_nil _ cs

theorem take_replace (place : SudoPlace) (cs : List Char) :
    (place.replace cs).take 2 = cs.take 2 :=
  take_replaceChars _ _ _ place.two_le_text.1

theorem head?_replace (place : SudoPlace) (cs : List Char) :
    (place.replace cs).head? = cs.head? := by
  have h := congrArg List.head? (place.take_replace cs)
  rwa [List.head?_take, List.head?_take] at h

/-- The first characters of the four texts. -/
theorem head_of_prefix {place : SudoPlace} {c : Char} {cs : List Char}
    (h : place.text <+: c :: cs) :
    place = substitution ∧ c = '$' ∧ cs.head? = some '(' ∨
      place = orIf ∧ c = '|' ∧ cs.head? = some '|' ∨
      place = andIf ∧ c = '&' ∧ cs.head? = some '&' ∨
      place = pipe ∧ c = ' ' ∧ ∃ rest, cs = '|' :: ' ' :: rest := by
  obtain ⟨rest, hrest⟩ := h
  cases place with
  | substitution =>
      obtain ⟨rfl, rfl⟩ := List.cons.inj hrest
      exact .inl ⟨rfl, rfl, rfl⟩
  | orIf =>
      obtain ⟨rfl, rfl⟩ := List.cons.inj hrest
      exact .inr (.inl ⟨rfl, rfl, rfl⟩)
  | andIf =>
      obtain ⟨rfl, rfl⟩ := List.cons.inj hrest
      exact .inr (.inr (.inl ⟨rfl, rfl, rfl⟩))
  | pipe =>
      obtain ⟨rfl, rfl⟩ := List.cons.inj hrest
      exact .inr (.inr (.inr ⟨rfl, rfl, rest, rfl⟩))

/-- Characters that the text does not begin with are left. -/
theorem replace_of_head {place : SudoPlace} {c : Char} (h : place.text.head? ≠ some c)
    (cs : List Char) : place.replace (c :: cs) = c :: place.replace cs := by
  refine replace_miss fun ⟨rest, hrest⟩ => h ?_
  obtain ⟨d, more, hd⟩ := List.exists_cons_of_ne_nil place.text_ne_nil
  rw [hd, List.cons_append] at hrest
  rw [hd, (List.cons.inj hrest).1]
  rfl

theorem replace_other (place : SudoPlace) {c : Char} (cs : List Char)
    (h : c ≠ '$' ∧ c ≠ '|' ∧ c ≠ '&' ∧ c ≠ ' ') :
    place.replace (c :: cs) = c :: place.replace cs := by
  refine replace_of_head (fun hhead => ?_) cs
  cases place with
  | substitution => exact h.1 (Option.some.inj hhead).symm
  | orIf => exact h.2.1 (Option.some.inj hhead).symm
  | andIf => exact h.2.2.1 (Option.some.inj hhead).symm
  | pipe => exact h.2.2.2 (Option.some.inj hhead).symm

theorem head?_text_ne {place other : SudoPlace} (h : place ≠ other) :
    place.text.head? ≠ other.text.head? := by
  cases place <;> cases other <;> first | exact absurd rfl h | decide

end SudoPlace

/-! ## Clean lines -/

theorem isClean_tail {places : List SudoPlace} {quoted : Bool} {c : Char} {cs : List Char}
    (hc : c ≠ '\'') (h : isClean places quoted (c :: cs) = true) :
    isClean places quoted cs = true := by
  rw [isClean, if_neg hc, Bool.and_eq_true] at h
  exact h.2

theorem not_prefix_of_isClean {places : List SudoPlace} {place : SudoPlace}
    (hplace : place ∈ places) {c : Char} {cs : List Char} (hc : c ≠ '\'')
    (h : isClean places true (c :: cs) = true) : ¬ place.text <+: c :: cs := by
  rw [isClean, if_neg hc, Bool.and_eq_true, Bool.not_eq_true', List.any_eq_false] at h
  exact fun hfront => h.1 place hplace (List.isPrefixOf_iff_prefix.mpr hfront)

theorem ends_of_isClean {places : List SudoPlace} {place : SudoPlace} (hplace : place ∈ places)
    (hkind : place = .orIf ∨ place = .andIf) {cs : List Char}
    (h : isClean places false (place.text ++ cs) = true) :
    ∀ c, cs.head? = some c → endsWord c = true := by
  have hlocal : ∀ c rest, place.text ++ cs = c :: rest → c ≠ '\'' →
      place.glued (place.text ++ cs) = false := by
    intro c rest heq hc
    rw [heq] at h ⊢
    rw [isClean, if_neg hc, Bool.and_eq_true, Bool.not_eq_true', List.any_eq_false] at h
    simpa using h.1 place hplace
  intro c hhead
  obtain ⟨rest, rfl⟩ := List.head?_eq_some_iff.mp hhead
  rcases hkind with rfl | rfl
  · simpa [SudoPlace.glued, SudoPlace.text] using hlocal '|' _ rfl (by decide)
  · simpa [SudoPlace.glued, SudoPlace.text] using hlocal '&' _ rfl (by decide)

/-! ## Replacing and reading -/

/-- `sudo` between a blank and what ends a word. -/
theorem reads_sudo {depth : Nat} {cs : List Char} {marks : List Mark}
    (hcs : ∀ c, cs.head? = some c → endsWord c = true) (h : Reads false false depth cs marks) :
    Reads false false depth (' ' :: 's' :: 'u' :: 'd' :: 'o' :: cs) (sudoWord ++ marks) :=
  .blank rfl (.char rfl (.char rfl (.char rfl (.char rfl (h.after_word hcs)))))

/-- `sudo` and a blank. -/
theorem reads_sudo_blank {depth : Nat} {cs : List Char} {marks : List Mark}
    (h : Reads false false depth cs marks) :
    Reads false false depth ('s' :: 'u' :: 'd' :: 'o' :: ' ' :: cs) (sudoWord ++ marks) :=
  .char rfl (.char rfl (.char rfl (.char rfl (.blank rfl h))))

/-- What the third pass replaces in a clean line adds `sudo` words. -/
theorem reads_replace {place : SudoPlace} {places : List SudoPlace} (hplace : place ∈ places)
    {quoted inWord : Bool} {depth : Nat} {cs : List Char} {marks : List Mark}
    (h : Reads quoted inWord depth cs marks) (hclean : isClean places quoted cs = true) :
    ∃ out, Reads quoted inWord depth (place.replace cs) out ∧
      ∀ atStart, SudoAdded atStart out marks := by
  induction hn : cs.length using Nat.strongRecOn
    generalizing quoted inWord depth cs marks with
  | ind n ih =>
      cases h with
      | nil => exact ⟨_, .nil inWord, fun b => .refl b _⟩
      | openQuote h =>
          obtain ⟨out, hout, hadded⟩ := ih _ (by rw [← hn]; exact Nat.lt_succ_self _) h hclean rfl
          rw [place.replace_other _ (by decide)]
          exact ⟨_, .openQuote hout, fun b => .mark b _ (hadded _)⟩
      | closeQuote h =>
          obtain ⟨out, hout, hadded⟩ := ih _ (by rw [← hn]; exact Nat.lt_succ_self _) h hclean rfl
          rw [place.replace_other _ (by decide)]
          exact ⟨_, .closeQuote hout, fun b => .mark b _ (hadded _)⟩
      | quoted hc h =>
          obtain ⟨out, hout, hadded⟩ := ih _ (by rw [← hn]; exact Nat.lt_succ_self _) h
            (isClean_tail hc hclean) rfl
          rw [SudoPlace.replace_miss (not_prefix_of_isClean hplace hc hclean)]
          exact ⟨_, .quoted hc hout, fun b => .mark b _ (hadded _)⟩
      | @blank _ _ c rest _ hc h =>
          have htail := isClean_tail (ne_quote_of_isBlank hc) hclean
          by_cases hfront : place.text <+: c :: rest
          · obtain ⟨rfl, rfl, rest, rfl⟩ : place = .pipe ∧ c = ' ' ∧
                ∃ more, rest = '|' :: ' ' :: more := by
              rcases SudoPlace.head_of_prefix hfront with ⟨-, rfl, -⟩ | ⟨-, rfl, -⟩ |
                ⟨-, rfl, -⟩ | hpipe
              all_goals first | exact hpipe | exact absurd hc (by decide)
            obtain ⟨marks', hrest, rfl⟩ := h.of_pipe
            have hlt : rest.length < n := by
              rw [← hn, List.length_cons, List.length_cons, List.length_cons]
              omega
            obtain ⟨out, hout, hadded⟩ := ih _ hlt hrest
              (isClean_tail (by decide) (isClean_tail (by decide) htail)) rfl
            rw [show ' ' :: '|' :: ' ' :: rest = SudoPlace.pipe.text ++ rest from rfl,
              SudoPlace.replace_hit]
            have hnext : ' ' ≠ '|' := by decide
            exact ⟨_, .blank rfl (.pipe (fun hhead => hnext (Option.some.inj hhead))
              (.blank rfl (reads_sudo_blank hout))),
              SudoAdded.append_left _ fun b => .mark b .pipe (.added (hadded true))⟩
          · obtain ⟨out, hout, hadded⟩ := ih _ (by rw [← hn]; exact Nat.lt_succ_self _) h htail rfl
            rw [SudoPlace.replace_miss hfront]
            exact ⟨_, .blank hc hout, SudoAdded.append_left _ hadded⟩
      | char hc h =>
          obtain ⟨hquote, -, hand, hpipe, hspace, hdollar⟩ := isWordChar_ne hc
          obtain ⟨out, hout, hadded⟩ := ih _ (by rw [← hn]; exact Nat.lt_succ_self _) h
            (isClean_tail hquote hclean) rfl
          rw [place.replace_other _ ⟨hdollar, hpipe, hand, hspace⟩]
          exact ⟨_, .char hc hout, fun b => .mark b _ (hadded _)⟩
      | dollar hcs h =>
          obtain ⟨out, hout, hadded⟩ := ih _ (by rw [← hn]; exact Nat.lt_succ_self _) h
            (isClean_tail (by decide) hclean) rfl
          have hmiss : ¬ place.text <+: '$' :: _ := fun hfront => by
            rcases SudoPlace.head_of_prefix hfront with ⟨-, -, hparen⟩ | ⟨-, hc, -⟩ |
              ⟨-, hc, -⟩ | ⟨-, hc, -⟩
            · exact hcs hparen
            all_goals exact absurd hc (by decide)
          rw [SudoPlace.replace_miss hmiss]
          refine ⟨_, .dollar ?_ hout, fun b => .mark b _ (hadded _)⟩
          rwa [place.head?_replace]
      | @andIf _ _ rest _ h =>
          have htail := isClean_tail (by decide) (isClean_tail (by decide) hclean)
          have hlt : rest.length < n := by
            rw [← hn, List.length_cons, List.length_cons]
            omega
          obtain ⟨out, hout, hadded⟩ := ih _ hlt h htail rfl
          by_cases hand : place = .andIf
          · subst hand
            have hends := ends_of_isClean hplace (.inr rfl) hclean
            rw [← SudoPlace.andIf.head?_replace] at hends
            rw [show '&' :: '&' :: rest = SudoPlace.andIf.text ++ rest from rfl,
              SudoPlace.replace_hit]
            exact ⟨_, .andIf (reads_sudo hends hout), SudoAdded.append_left _ fun b =>
              .mark b _ (.added (hadded _))⟩
          · have hhead := SudoPlace.head?_text_ne hand
            rw [SudoPlace.replace_of_head hhead, SudoPlace.replace_of_head hhead]
            exact ⟨_, .andIf hout, SudoAdded.append_left _ fun b => .mark b _ (hadded _)⟩
      | @orIf _ _ rest _ h =>
          have htail := isClean_tail (by decide) (isClean_tail (by decide) hclean)
          have hlt : rest.length < n := by
            rw [← hn, List.length_cons, List.length_cons]
            omega
          obtain ⟨out, hout, hadded⟩ := ih _ hlt h htail rfl
          by_cases hor : place = .orIf
          · subst hor
            have hends := ends_of_isClean hplace (.inl rfl) hclean
            rw [← SudoPlace.orIf.head?_replace] at hends
            rw [show '|' :: '|' :: rest = SudoPlace.orIf.text ++ rest from rfl,
              SudoPlace.replace_hit]
            exact ⟨_, .orIf (reads_sudo hends hout), SudoAdded.append_left _ fun b =>
              .mark b _ (.added (hadded _))⟩
          · have hhead := SudoPlace.head?_text_ne hor
            rw [SudoPlace.replace_of_head hhead, SudoPlace.replace_of_head hhead]
            exact ⟨_, .orIf hout, SudoAdded.append_left _ fun b => .mark b _ (hadded _)⟩
      | pipe hcs h =>
          obtain ⟨out, hout, hadded⟩ := ih _ (by rw [← hn]; exact Nat.lt_succ_self _) h
            (isClean_tail (by decide) hclean) rfl
          have hmiss : ¬ place.text <+: '|' :: _ := fun hfront => by
            rcases SudoPlace.head_of_prefix hfront with ⟨-, hc, -⟩ | ⟨-, -, hbar⟩ |
              ⟨-, hc, -⟩ | ⟨-, hc, -⟩
            · exact absurd hc (by decide)
            · exact hcs hbar
            all_goals exact absurd hc (by decide)
          rw [SudoPlace.replace_miss hmiss]
          refine ⟨_, .pipe ?_ hout,
            SudoAdded.append_left _ fun b => .mark b _ (hadded _)⟩
          rwa [place.head?_replace]
      | @opens _ _ rest _ h =>
          have htail := isClean_tail (by decide) (isClean_tail (by decide) hclean)
          have hlt : rest.length < n := by
            rw [← hn, List.length_cons, List.length_cons]
            omega
          obtain ⟨out, hout, hadded⟩ := ih _ hlt h htail rfl
          by_cases hsubst : place = .substitution
          · subst hsubst
            rw [show '$' :: '(' :: rest = SudoPlace.substitution.text ++ rest from rfl,
              SudoPlace.replace_hit]
            exact ⟨_, .opens (reads_sudo_blank hout), fun b => .mark b _ (.added (hadded _))⟩
          · rw [SudoPlace.replace_of_head (SudoPlace.head?_text_ne hsubst),
              place.replace_other _ (by decide)]
            exact ⟨_, .opens hout, fun b => .mark b _ (hadded _)⟩
      | closes h =>
          obtain ⟨out, hout, hadded⟩ := ih _ (by rw [← hn]; exact Nat.lt_succ_self _) h
            (isClean_tail (by decide) hclean) rfl
          rw [place.replace_other _ (by decide)]
          exact ⟨_, .closes hout, SudoAdded.append_left _ fun b => .mark b _ (hadded _)⟩

/-! ## Replacing in clean lines -/

/-- What `isClean` looks at in one place. -/
def SudoPlace.clashes (place : SudoPlace) (quoted : Bool) (cs : List Char) : Bool :=
  if quoted then place.text.isPrefixOf cs else place.glued cs

theorem isClean_cons_iff {places : List SudoPlace} {quoted : Bool} {c : Char} {cs : List Char}
    (hc : c ≠ '\'') :
    isClean places quoted (c :: cs) = true ↔
      (∀ place ∈ places, place.clashes quoted (c :: cs) = false) ∧
        isClean places quoted cs = true := by
  rw [isClean, if_neg hc, Bool.and_eq_true, Bool.not_eq_true', List.any_eq_false]
  simp only [Bool.not_eq_true, SudoPlace.clashes]

theorem isPrefixOf_congr {place : SudoPlace} {cs cs' : List Char} (h : cs.take 3 = cs'.take 3) :
    place.text.isPrefixOf cs = place.text.isPrefixOf cs' := by
  have htake : ∀ l : List Char, place.text <+: l ↔ place.text <+: l.take 3 := fun l =>
    ⟨fun hfront => List.prefix_take_iff.mpr ⟨hfront, place.two_le_text.2⟩,
      fun hfront => hfront.trans (List.take_prefix 3 l)⟩
  rw [Bool.eq_iff_iff, List.isPrefixOf_iff_prefix, List.isPrefixOf_iff_prefix, htake cs,
    htake cs', h]

/-- Three characters decide. -/
theorem clashes_congr {place : SudoPlace} {quoted : Bool} {cs cs' : List Char}
    (h : cs.take 3 = cs'.take 3) : place.clashes quoted cs = place.clashes quoted cs' := by
  have hthird : cs[2]? = cs'[2]? := by
    have hget := congrArg (·[2]?) h
    simpa [List.getElem?_take] using hget
  rw [SudoPlace.clashes, SudoPlace.clashes, SudoPlace.glued, SudoPlace.glued,
    isPrefixOf_congr h, hthird]

theorem clashes_of_head {place : SudoPlace} {c : Char} {cs : List Char} (h : c ≠ '|' ∧ c ≠ '&') :
    place.clashes false (c :: cs) = false := by
  cases place <;> simp [SudoPlace.clashes, SudoPlace.glued, SudoPlace.text, h.1.symm, h.2.symm]

/-- Characters in front that are no operators. -/
theorem isClean_word {places : List SudoPlace} (word : List Char) {cs : List Char}
    (hword : ∀ c ∈ word, c ≠ '|' ∧ c ≠ '&' ∧ c ≠ '\'') (h : isClean places false cs = true) :
    isClean places false (word ++ cs) = true := by
  induction word with
  | nil => exact h
  | cons c word ih =>
      obtain ⟨hbar, hand, hquote⟩ := hword c (List.mem_cons_self ..)
      exact (isClean_cons_iff hquote).mpr ⟨fun _ _ => clashes_of_head ⟨hbar, hand⟩,
        ih fun d hd => hword d (List.mem_cons_of_mem _ hd)⟩

/-- An operator and a blank in front. -/
theorem isClean_operator {places : List SudoPlace} {c : Char} (hc : c = '|' ∨ c = '&')
    {cs : List Char} (h : isClean places false (' ' :: cs) = true) :
    isClean places false (c :: ' ' :: cs) = true ∧
      isClean places false (c :: c :: ' ' :: cs) = true := by
  have hquote : c ≠ '\'' := by rcases hc with rfl | rfl <;> decide
  have hone : isClean places false (c :: ' ' :: cs) = true := by
    refine (isClean_cons_iff hquote).mpr ⟨fun place _ => ?_, h⟩
    rcases hc with rfl | rfl <;> cases place <;> rfl
  refine ⟨hone, (isClean_cons_iff hquote).mpr ⟨fun place _ => ?_, hone⟩⟩
  rcases hc with rfl | rfl <;> cases place <;> rfl

theorem isClean_of_append {places : List SudoPlace} (word : List Char) {cs : List Char}
    (hword : '\'' ∉ word) (h : isClean places false (word ++ cs) = true) :
    isClean places false cs = true := by
  induction word with
  | nil => exact h
  | cons c word ih =>
      rw [List.mem_cons, not_or] at hword
      exact ih hword.2 (isClean_tail (Ne.symm hword.1) h)

theorem isClean_added (place : SudoPlace) {places : List SudoPlace} {cs : List Char}
    (h : isClean places false cs = true) :
    isClean places false (place.text ++ place.more ++ cs) = true := by
  have hsudo : ∀ c ∈ ['s', 'u', 'd', 'o', ' '], c ≠ '|' ∧ c ≠ '&' ∧ c ≠ '\'' := by simp
  have hsudo' : ∀ c ∈ [' ', 's', 'u', 'd', 'o'], c ≠ '|' ∧ c ≠ '&' ∧ c ≠ '\'' := by simp
  have hopen : ∀ c ∈ ['$', '('], c ≠ '|' ∧ c ≠ '&' ∧ c ≠ '\'' := by simp
  have hblank : ∀ c ∈ [' '], c ≠ '|' ∧ c ≠ '&' ∧ c ≠ '\'' := by simp
  rw [List.append_assoc]
  cases place with
  | substitution => exact isClean_word _ hopen (isClean_word _ hsudo h)
  | orIf => exact (isClean_operator (.inl rfl) (isClean_word _ hsudo' h)).2
  | andIf => exact (isClean_operator (.inr rfl) (isClean_word _ hsudo' h)).2
  | pipe =>
      show isClean places false ([' '] ++ ('|' :: ' ' :: (SudoPlace.pipe.more ++ cs))) = true
      exact isClean_word _ hblank (isClean_operator (.inl rfl)
        (isClean_word _ hblank (isClean_word _ hsudo h))).1

/-- A clean line stays clean for the replacements that come later. -/
theorem isClean_replace {place : SudoPlace} {places : List SudoPlace} (hplace : place ∈ places)
    {quoted : Bool} {cs : List Char} (h : isClean places quoted cs = true) :
    isClean places quoted (place.replace cs) = true := by
  induction hn : cs.length using Nat.strongRecOn generalizing quoted cs with
  | ind n ih =>
      cases cs with
      | nil => rfl
      | cons c cs =>
          have hlt : cs.length < n := by rw [← hn]; exact Nat.lt_succ_self _
          by_cases hc : c = '\''
          · subst hc
            rw [place.replace_other _ (by decide)]
            exact ih _ hlt h rfl
          by_cases hfront : place.text <+: c :: cs
          · cases quoted with
            | true => exact absurd hfront (not_prefix_of_isClean hplace hc h)
            | false =>
                obtain ⟨rest, hrest⟩ := hfront
                have hlen := congrArg List.length hrest
                rw [List.length_append, hn] at hlen
                have htwo := place.two_le_text.1
                rw [← hrest] at h ⊢
                rw [SudoPlace.replace_hit]
                exact isClean_added place (ih rest.length (by omega)
                  (isClean_of_append _ place.quote_notMem_text h) rfl)
          · obtain ⟨hlocal, htail⟩ := (isClean_cons_iff hc).mp h
            have htake : (c :: place.replace cs).take 3 = (c :: cs).take 3 := by
              rw [List.take_succ_cons, List.take_succ_cons, place.take_replace]
            rw [SudoPlace.replace_miss hfront]
            refine (isClean_cons_iff hc).mpr ⟨fun other hother => ?_, ih _ hlt htail rfl⟩
            rw [clashes_congr htake]
            exact hlocal other hother

/-- All replacements of a clean line. -/
theorem reads_replaceAll {places : List SudoPlace} (todo : List SudoPlace)
    (htodo : ∀ place ∈ todo, place ∈ places) {cs : List Char} {marks : List Mark}
    (h : Reads false false 0 cs marks) (hclean : isClean places false cs = true) :
    ∃ out, Reads false false 0 (todo.foldl (fun cs place => place.replace cs) cs) out ∧
      SudoAdded true out marks := by
  induction todo generalizing cs marks with
  | nil => exact ⟨marks, h, .refl true marks⟩
  | cons place todo ih =>
      have hplace := htodo place (List.mem_cons_self ..)
      obtain ⟨between, hbetween, hadded⟩ := reads_replace hplace h hclean
      obtain ⟨out, hout, hrest⟩ := ih (fun other hother => htodo other
        (List.mem_cons_of_mem _ hother)) hbetween (isClean_replace hplace hclean)
      exact ⟨out, hout, hrest.trans (hadded true)⟩

end OnePloy
