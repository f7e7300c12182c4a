import Mathlib.Computability.Language

/-!
# Patterns

Patterns without anchors and groups: classes of characters, one pattern after another,
one or another, and repetition. The texts of a pattern are a language (`language`),
whichever way a matcher goes about them; `matches?` decides it one character at a time.

A pattern between `^` and `$` is met by its texts, and by these with a line feed behind
them: that is where `$` stands besides the end (`anchored`).
-/

namespace Pcre

variable {α : Type*}

inductive Pattern (α : Type*)
  | none
  | empty
  | one (accepts : α → Bool)
  | either (p q : Pattern α)
  | andThen (p q : Pattern α)
  | many (p : Pattern α)

namespace Pattern

/-- `p+`. -/
def many1 (p : Pattern α) : Pattern α := p.andThen p.many

def language : Pattern α → Language α
  | none => 0
  | empty => 1
  | one accepts => {w : List α | ∃ x, accepts x = true ∧ w = [x]}
  | either p q => p.language + q.language
  | andThen p q => p.language * q.language
  | many p => KStar.kstar p.language

/-! ## Matching -/

def nullable : Pattern α → Bool
  | none => false
  | empty => true
  | one _ => false
  | either p q => p.nullable || q.nullable
  | andThen p q => p.nullable && q.nullable
  | many _ => true

/-- What is left to match after `x`. -/
def after (x : α) : Pattern α → Pattern α
  | none => none
  | empty => none
  | one accepts => if accepts x then empty else none
  | either p q => (p.after x).either (q.after x)
  | andThen p q =>
      if p.nullable then ((p.after x).andThen q).either (q.after x) else (p.after x).andThen q
  | many p => (p.after x).andThen p.many

def matches? : Pattern α → List α → Bool
  | p, [] => p.nullable
  | p, x :: xs => (p.after x).matches? xs

theorem nil_mem_mul {l m : Language α} : [] ∈ l * m ↔ [] ∈ l ∧ [] ∈ m := by
  rw [Language.mem_mul]
  constructor
  · rintro ⟨a, ha, b, hb, h⟩
    obtain ⟨rfl, rfl⟩ := List.append_eq_nil_iff.mp h
    exact ⟨ha, hb⟩
  · exact fun h => ⟨[], h.1, [], h.2, rfl⟩

/-- The first part is empty or takes the first character. -/
theorem cons_mem_mul {l m : Language α} {x : α} {w : List α} :
    x :: w ∈ l * m ↔ ([] ∈ l ∧ x :: w ∈ m) ∨ ∃ a b, x :: a ∈ l ∧ b ∈ m ∧ w = a ++ b := by
  rw [Language.mem_mul]
  constructor
  · rintro ⟨a, ha, b, hb, h⟩
    cases a with
    | nil => exact .inl ⟨ha, h ▸ hb⟩
    | cons y a =>
        obtain ⟨rfl, rfl⟩ := List.cons.inj h
        exact .inr ⟨a, b, ha, hb, rfl⟩
  · rintro (⟨hl, hm⟩ | ⟨a, b, ha, hb, rfl⟩)
    · exact ⟨[], hl, _, hm, rfl⟩
    · exact ⟨_, ha, b, hb, rfl⟩

/-- The first repetition that is not empty takes the first character. -/
theorem cons_mem_kstar {l : Language α} {x : α} {w : List α} :
    x :: w ∈ KStar.kstar l ↔ ∃ a b, x :: a ∈ l ∧ b ∈ KStar.kstar l ∧ w = a ++ b := by
  constructor
  · intro h
    obtain ⟨parts, hflat, hparts⟩ := Language.mem_kstar_iff_exists_nonempty.mp h
    cases parts with
    | nil => cases hflat
    | cons part parts =>
        obtain ⟨hmem, hne⟩ := hparts part (List.mem_cons_self ..)
        cases part with
        | nil => exact absurd rfl hne
        | cons y a =>
            obtain ⟨rfl, rfl⟩ := List.cons.inj hflat
            refine ⟨a, parts.flatten, hmem, ?_, rfl⟩
            exact Language.mem_kstar.mpr
              ⟨parts, rfl, fun p hp => (hparts p (List.mem_cons_of_mem _ hp)).1⟩
  · rintro ⟨a, b, ha, hb, rfl⟩
    obtain ⟨parts, rfl, hparts⟩ := Language.mem_kstar.mp hb
    refine Language.mem_kstar.mpr ⟨(x :: a) :: parts, rfl, fun p hp => ?_⟩
    rcases List.mem_cons.mp hp with rfl | hp
    exacts [ha, hparts p hp]

theorem nullable_iff (p : Pattern α) : p.nullable = true ↔ [] ∈ p.language := by
  induction p with
  | none => exact iff_of_false Bool.false_ne_true (Language.notMem_zero _)
  | empty => exact iff_of_true rfl Language.nil_mem_one
  | one accepts =>
      refine iff_of_false Bool.false_ne_true ?_
      rintro ⟨x, -, h⟩
      cases h
  | either p q ihp ihq =>
      rw [nullable, Bool.or_eq_true, ihp, ihq, language, Language.mem_add]
  | andThen p q ihp ihq => rw [nullable, Bool.and_eq_true, ihp, ihq, language, nil_mem_mul]
  | many p => exact iff_of_true rfl (Language.nil_mem_kstar _)

theorem mem_after (p : Pattern α) (x : α) (w : List α) :
    w ∈ (p.after x).language ↔ x :: w ∈ p.language := by
  induction p generalizing w with
  | none => exact iff_of_false (Language.notMem_zero _) (Language.notMem_zero _)
  | empty =>
      refine iff_of_false (Language.notMem_zero _) fun h => ?_
      cases (Language.mem_one _).mp h
  | one accepts =>
      rw [after]
      split
      · next h =>
        refine (Language.mem_one _).trans ⟨fun hw => ⟨x, h, hw ▸ rfl⟩, ?_⟩
        rintro ⟨y, -, heq⟩
        exact (List.cons.inj heq).2
      · next h =>
        refine iff_of_false (Language.notMem_zero _) ?_
        rintro ⟨y, hy, heq⟩
        exact h ((List.cons.inj heq).1 ▸ hy)
  | either p q ihp ihq =>
      rw [after, language, Language.mem_add, ihp, ihq, language, Language.mem_add]
  | andThen p q ihp ihq =>
      have hfirst : w ∈ ((p.after x).andThen q).language ↔
          ∃ a b, x :: a ∈ p.language ∧ b ∈ q.language ∧ w = a ++ b := by
        rw [language, Language.mem_mul]
        constructor
        · rintro ⟨a, ha, b, hb, rfl⟩
          exact ⟨a, b, (ihp a).mp ha, hb, rfl⟩
        · rintro ⟨a, b, ha, hb, rfl⟩
          exact ⟨a, (ihp a).mpr ha, b, hb, rfl⟩
      rw [after, language, cons_mem_mul, ← nullable_iff]
      split
      · next h => rw [language, Language.mem_add, hfirst, ihq, or_comm, and_iff_right h]
      · next h => rw [hfirst, or_iff_right fun hp => h hp.1]
  | many p ih =>
      rw [after, language, language, cons_mem_kstar, Language.mem_mul]
      constructor
      · rintro ⟨a, ha, b, hb, rfl⟩
        exact ⟨a, b, (ih a).mp ha, hb, rfl⟩
      · rintro ⟨a, b, ha, hb, rfl⟩
        exact ⟨a, (ih a).mpr ha, b, hb, rfl⟩

/-- The matcher finds the texts of the pattern. -/
theorem matches?_iff (p : Pattern α) (w : List α) : p.matches? w = true ↔ w ∈ p.language := by
  induction w generalizing p with
  | nil => exact p.nullable_iff
  | cons x w ih => rw [matches?, ih, mem_after]

/-! ## Texts -/

/-- The texts of `p+`. -/
theorem mem_many1 {p : Pattern α} {w : List α} :
    w ∈ p.many1.language ↔
      ∃ parts : List (List α), parts ≠ [] ∧ w = parts.flatten ∧ ∀ t ∈ parts, t ∈ p.language := by
  rw [many1, language, language, Language.mem_mul]
  constructor
  · rintro ⟨a, ha, b, hb, rfl⟩
    obtain ⟨parts, rfl, hparts⟩ := Language.mem_kstar.mp hb
    refine ⟨a :: parts, List.cons_ne_nil _ _, rfl, fun t ht => ?_⟩
    rcases List.mem_cons.mp ht with rfl | ht
    exacts [ha, hparts t ht]
  · rintro ⟨parts, hne, rfl, hparts⟩
    cases parts with
    | nil => exact absurd rfl hne
    | cons a parts =>
        exact ⟨a, hparts a (List.mem_cons_self ..), parts.flatten,
          Language.mem_kstar.mpr ⟨parts, rfl, fun t ht => hparts t (List.mem_cons_of_mem _ ht)⟩,
          rfl⟩

/-- Any number of characters of a class. -/
theorem mem_many_one {accepts : α → Bool} {w : List α} :
    w ∈ (one accepts).many.language ↔ ∀ x ∈ w, accepts x = true := by
  rw [language, Language.mem_kstar]
  constructor
  · rintro ⟨parts, rfl, hparts⟩ x hx
    obtain ⟨t, ht, hxt⟩ := List.mem_flatten.mp hx
    obtain ⟨y, hy, rfl⟩ := hparts t ht
    rwa [List.mem_singleton.mp hxt]
  · intro h
    refine ⟨w.map ([·]), (List.flatMap_singleton' w).symm, fun t ht => ?_⟩
    obtain ⟨x, hx, rfl⟩ := List.mem_map.mp ht
    exact ⟨x, h x hx, rfl⟩

theorem mem_one_andThen {accepts : α → Bool} {q : Pattern α} {w : List α} :
    w ∈ ((one accepts).andThen q).language ↔
      ∃ x v, accepts x = true ∧ v ∈ q.language ∧ w = x :: v := by
  rw [language, Language.mem_mul]
  constructor
  · rintro ⟨a, ⟨x, hx, rfl⟩, b, hb, rfl⟩
    exact ⟨x, b, hx, hb, rfl⟩
  · rintro ⟨x, v, hx, hv, rfl⟩
    exact ⟨[x], ⟨x, hx, rfl⟩, v, hv, rfl⟩

/-! ## Between anchors -/

/-- `preg_match('/^…$/', $s)` for a subject as its bytes or characters. -/
def anchored (p : Pattern Char) (w : List Char) : Bool :=
  p.matches? w || (w.getLast? == some '\n' && p.matches? w.dropLast)

theorem anchored_iff {p : Pattern Char} {w : List Char} :
    p.anchored w = true ↔ w ∈ p.language ∨ ∃ v ∈ p.language, w = v ++ ['\n'] := by
  rw [anchored, Bool.or_eq_true, Bool.and_eq_true, beq_iff_eq, matches?_iff, matches?_iff]
  refine or_congr_right ⟨fun h => ⟨w.dropLast, h.2, ?_⟩, ?_⟩
  · exact (List.dropLast_append_getLast? _ h.1).symm
  · rintro ⟨v, hv, rfl⟩
    exact ⟨List.getLast?_concat, by rwa [List.dropLast_concat]⟩

end Pattern

end Pcre
