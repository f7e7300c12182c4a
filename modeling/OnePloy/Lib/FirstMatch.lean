import Mathlib.Data.List.Nodup

/-!
# Loops that look an item up and change it

A loop that finds the first item of a list with some property and changes it,
turn after turn. The items carry a tag that tells them apart and that no turn
changes, so what the loop does to the list is what it does to each item
(`foldl_modifyFirst`).
-/

namespace Conc

variable {X K T C : Type*}

/-- The first item with `p` changed by `f`. -/
def modifyFirst (p : X → Bool) (f : X → X) : List X → List X
  | [] => []
  | x :: xs => if p x then f x :: xs else x :: modifyFirst p f xs

theorem eq_of_tag {tag : X → T} {xs : List X} (h : (xs.map tag).Nodup) {x y : X} (hx : x ∈ xs)
    (hy : y ∈ xs) (htag : tag x = tag y) : x = y :=
  List.inj_on_of_nodup_map h hx hy htag

/-! ## One turn -/

/-- Nothing happens where there is no such item, or where `f` leaves it alone. -/
theorem modifyFirst_eq_self {p : X → Bool} {f : X → X} {xs : List X}
    (h : ∀ x, xs.find? p = some x → f x = x) : modifyFirst p f xs = xs := by
  induction xs with
  | nil => rfl
  | cons y ys ih =>
      rw [modifyFirst]
      by_cases hy : p y = true
      · rw [if_pos hy, h y (List.find?_cons_of_pos hy)]
      · rw [if_neg hy, ih fun x hx => h x (by rwa [List.find?_cons_of_neg hy])]

/-- Where keys do not repeat, the first item with a key is the one with it. -/
theorem modifyFirst_key [DecidableEq K] {key : X → K} {f : X → X} {xs : List X}
    (h : (xs.map key).Nodup) (k : K) :
    modifyFirst (key · == k) f xs = xs.map fun x => if key x = k then f x else x := by
  induction xs with
  | nil => rfl
  | cons y ys ih =>
      rw [List.map_cons, List.nodup_cons] at h
      rw [modifyFirst, List.map_cons]
      by_cases hy : key y = k
      · rw [if_pos (by simpa using hy), if_pos hy]
        congr 1
        conv_lhs => rw [← List.map_id ys]
        refine List.map_congr_left fun z hz => ?_
        rw [if_neg, id]
        rintro rfl
        exact h.1 (hy ▸ List.mem_map_of_mem hz)
      · rw [if_neg (by simpa using hy), if_neg hy, ih h.2]

/-- The first item with `p` is the one with its tag. -/
theorem modifyFirst_tag [DecidableEq T] {tag : X → T} {f : X → X} {xs : List X}
    (h : (xs.map tag).Nodup) (p : X → Bool) :
    modifyFirst p f xs =
      xs.map fun x => if (xs.find? p).map tag = some (tag x) then f x else x := by
  induction xs with
  | nil => rfl
  | cons y ys ih =>
      rw [List.map_cons, List.nodup_cons] at h
      rw [modifyFirst, List.map_cons]
      by_cases hy : p y = true
      · rw [if_pos hy, List.find?_cons_of_pos hy, Option.map_some, if_pos rfl]
        congr 1
        conv_lhs => rw [← List.map_id ys]
        refine List.map_congr_left fun z hz => ?_
        rw [if_neg, id]
        intro heq
        exact h.1 (Option.some.inj heq ▸ List.mem_map_of_mem hz)
      · rw [if_neg hy, List.find?_cons_of_neg hy, if_neg, ih h.2]
        intro heq
        obtain ⟨z, hz, htag⟩ := Option.map_eq_some_iff.mp heq
        exact h.1 (htag ▸ List.mem_map_of_mem (List.mem_of_find?_eq_some hz))

/-! ## Loops -/

/-- A loop over keys, each turn at the first item with the key: every item that
is the first with its key is changed if the key comes up. -/
theorem foldl_modifyFirst [DecidableEq K] [DecidableEq T] (key : X → K) (tag : X → T) {f : X → X}
    (hkey : ∀ x, key (f x) = key x) (htag : ∀ x, tag (f x) = tag x) (hidem : ∀ x, f (f x) = f x)
    (ks : List K) {xs : List X} (h : (xs.map tag).Nodup) :
    ks.foldl (fun ys k => modifyFirst (key · == k) f ys) xs =
      xs.map fun x =>
        if key x ∈ ks ∧ (xs.find? (key · == key x)).map tag = some (tag x) then f x else x := by
  induction ks generalizing xs with
  | nil => simp
  | cons k ks ih =>
      rw [List.foldl_cons, modifyFirst_tag h]
      set g : X → X := fun x => if (xs.find? (key · == k)).map tag = some (tag x) then f x else x
        with hg
      have hgkey : ∀ x, key (g x) = key x := fun x => by rw [hg]; dsimp only; split <;> simp [hkey]
      have hgtag : ∀ x, tag (g x) = tag x := fun x => by rw [hg]; dsimp only; split <;> simp [htag]
      have htags : (xs.map g).map tag = xs.map tag := by
        rw [List.map_map]
        exact List.map_congr_left fun x _ => hgtag x
      have hfind : ∀ k', ((xs.map g).find? (key · == k')).map tag =
          (xs.find? (key · == k')).map tag := by
        intro k'
        rw [List.find?_map, Option.map_map]
        have hcomp : ((key · == k') ∘ g) = (key · == k') := funext fun x => by
          rw [Function.comp_apply, hgkey]
        rw [hcomp]
        exact congrArg (fun t => (xs.find? (key · == k')).map t) (funext hgtag)
      rw [ih (htags ▸ h), List.map_map]
      refine List.map_congr_left fun x hx => ?_
      rw [Function.comp_apply, hgkey, hgtag, hfind]
      -- the item of this turn is the first with its own key
      have hturn : (xs.find? (key · == k)).map tag = some (tag x) ↔
          key x = k ∧ (xs.find? (key · == key x)).map tag = some (tag x) := by
        constructor
        · intro hfirst
          obtain ⟨y, hy, hyx⟩ := Option.map_eq_some_iff.mp hfirst
          obtain rfl := eq_of_tag h (List.mem_of_find?_eq_some hy) hx hyx
          have hyk : key y = k := by simpa using List.find?_some hy
          exact ⟨hyk, by rw [hyk]; exact hfirst⟩
        · rintro ⟨rfl, hfirst⟩
          exact hfirst
      rw [hg]
      dsimp only
      by_cases hfirst : (xs.find? (key · == key x)).map tag = some (tag x)
      · by_cases hk : key x = k
        · rw [if_pos (hturn.mpr ⟨hk, hfirst⟩),
            if_pos (And.intro (List.mem_cons.mpr (.inl hk)) hfirst)]
          split
          · exact hidem x
          · rfl
        · rw [if_neg fun hthis => hk (hturn.mp hthis).1]
          simp only [List.mem_cons, hk, false_or]
      · rw [if_neg fun hboth => hfirst hboth.2, if_neg fun hthis => hfirst (hturn.mp hthis).2,
          if_neg fun hboth => hfirst hboth.2]

/-- A loop over keys that do not repeat. -/
theorem foldl_modifyFirst_key [DecidableEq K] {key : X → K} {f : X → X}
    (hkey : ∀ x, key (f x) = key x) (hidem : ∀ x, f (f x) = f x) (ks : List K) {xs : List X}
    (h : (xs.map key).Nodup) :
    ks.foldl (fun ys k => modifyFirst (key · == k) f ys) xs =
      xs.map fun x => if key x ∈ ks then f x else x := by
  rw [foldl_modifyFirst key key hkey hkey hidem ks h]
  refine List.map_congr_left fun x hx => ?_
  have hfirst : (xs.find? (key · == key x)).map key = some (key x) := by
    cases hfind : xs.find? (key · == key x) with
    | none => exact absurd (List.find?_eq_none.mp hfind x hx) (by simp)
    | some y => rw [Option.map_some, show key y = key x by simpa using List.find?_some hfind]
  simp only [hfirst, and_true]

theorem foldl_takes_none {takes : C → X → Bool} {f : C → X → X} {cs : List C} {x : X}
    (h : ∀ c ∈ cs, takes c x = false) :
    cs.foldl (fun y c => if takes c y then f c y else y) x = x := by
  induction cs with
  | nil => rfl
  | cons c cs ih =>
      rw [List.foldl_cons, if_neg (by simp [h c (List.mem_cons_self ..)])]
      exact ih fun c' hc' => h c' (List.mem_cons_of_mem _ hc')

/-- Of the turns at one item at most one takes it. -/
theorem foldl_takes {takes : C → X → Bool} {f : C → X → X}
    (hkeep : ∀ c c' x, takes c' (f c x) = takes c' x) {cs : List C} {x : X}
    (hone : cs.Pairwise fun c c' => takes c x = true → takes c' x = false) :
    cs.foldl (fun y c => if takes c y then f c y else y) x =
      (cs.find? (takes · x)).elim x fun c => f c x := by
  induction cs with
  | nil => rfl
  | cons c cs ih =>
      rw [List.pairwise_cons] at hone
      rw [List.foldl_cons]
      by_cases hc : takes c x = true
      · rw [if_pos hc, List.find?_cons_of_pos (p := (takes · x)) hc, Option.elim_some]
        exact foldl_takes_none fun c' hc' => by rw [hkeep]; exact hone.1 c' hc' hc
      · rw [if_neg hc, List.find?_cons_of_neg (p := (takes · x)) hc]
        exact ih hone.2

/-- Where at most one item has `p`, an item with more than that is the same one,
if it has that too. -/
theorem find?_of_unique {p q : X → Bool} (himp : ∀ x, q x = true → p x = true) {xs : List X}
    (hone : xs.Pairwise fun x y => p x = true → p y = false) :
    xs.find? q = (xs.find? p).filter q := by
  induction xs with
  | nil => rfl
  | cons y ys ih =>
      rw [List.pairwise_cons] at hone
      by_cases hp : p y = true
      · rw [List.find?_cons_of_pos hp]
        by_cases hq : q y = true
        · rw [List.find?_cons_of_pos hq, Option.filter_some_pos hq]
        · rw [List.find?_cons_of_neg hq, Option.filter_some_neg (by simpa using hq),
            List.find?_eq_none]
          intro z hz hqz
          have := hone.1 z hz hp
          rw [himp z hqz] at this
          cases this
      · rw [List.find?_cons_of_neg hp, List.find?_cons_of_neg fun hq => hp (himp y hq)]
        exact ih hone.2

/-- Where at most one item has `p`, what is said of all of them is said of it. -/
theorem forall_find?_of_unique {p : X → Bool} {Q : X → Prop} {xs : List X}
    (hone : xs.Pairwise fun x y => p x = true → p y = false) :
    (∀ x ∈ xs, p x = true → Q x) ↔ ∀ x, xs.find? p = some x → Q x := by
  constructor
  · exact fun h x hx => h x (List.mem_of_find?_eq_some hx) (List.find?_some hx)
  · induction xs with
    | nil => exact fun _ _ hx => absurd hx List.not_mem_nil
    | cons y ys ih =>
        rw [List.pairwise_cons] at hone
        intro h x hx hpx
        rcases List.mem_cons.mp hx with rfl | hmem
        · exact h x (List.find?_cons_of_pos hpx)
        · by_cases hp : p y = true
          · rw [hone.1 x hmem hp] at hpx
            cases hpx
          · exact ih hone.2 (fun z hz => h z (by rwa [List.find?_cons_of_neg hp])) x hmem hpx

end Conc
