import Mathlib.Data.List.Basic
import Mathlib.Logic.Relation

/-!
# Lexical resolution of a path

A path is a list of turns: stay, go up, or go down to a name. `Cancel` strikes
out a turn that stays, or a name with the turn that leaves it again; a path
resolves to the names that are left when nothing else is. Striking out does not
change where `walk` ends, so a path has one resolution at most
(`resolves_iff_walk`), and none where it goes above the root.
-/

namespace PathWalk

inductive Turn (α : Type*)
  | stay
  | up
  | down (name : α)
deriving DecidableEq

variable {α : Type*}

/-- The names from the root to the place a path ends at, if it stays below. -/
def walk : List α → List (Turn α) → Option (List α)
  | place, [] => some place
  | place, .stay :: path => walk place path
  | place, .down name :: path => walk (place ++ [name]) path
  | place, .up :: path => if place = [] then none else walk place.dropLast path

/-- Where a path leads if the root is its own parent. -/
def follow : List α → List (Turn α) → List α
  | place, [] => place
  | place, .stay :: path => follow place path
  | place, .down name :: path => follow (place ++ [name]) path
  | place, .up :: path => follow place.dropLast path

inductive Cancel : List (Turn α) → List (Turn α) → Prop
  | stay (before after : List (Turn α)) : Cancel (before ++ .stay :: after) (before ++ after)
  | leave (before after : List (Turn α)) (name : α) :
      Cancel (before ++ .down name :: .up :: after) (before ++ after)

/-- Nothing but names are left in the end. -/
def Resolves (path : List (Turn α)) (place : List α) : Prop :=
  Relation.ReflTransGen Cancel path (place.map .down)

/-! ## Walking -/

theorem walk_append (place : List α) (path path' : List (Turn α)) :
    walk place (path ++ path') = (walk place path).bind (walk · path') := by
  induction path generalizing place with
  | nil => rfl
  | cons turn path ih =>
      cases turn with
      | stay => exact ih place
      | down name => exact ih (place ++ [name])
      | up =>
          rw [List.cons_append, walk, walk]
          split
          · rfl
          · exact ih place.dropLast

theorem walk_down (place names : List α) :
    walk place (names.map .down) = some (place ++ names) := by
  induction names generalizing place with
  | nil => simp [walk]
  | cons name names ih => rw [List.map_cons, walk, ih, List.append_assoc, List.singleton_append]

/-- Names lead further, whatever comes next. -/
theorem walk_down_append (place names : List α) (path : List (Turn α)) :
    walk place (names.map .down ++ path) = walk (place ++ names) path := by
  rw [walk_append, walk_down, Option.bind_some]

/-- What only stays can be left out. -/
theorem walk_map_filter {β : Type*} (turn : β → Turn α) (p : β → Bool)
    (hstay : ∀ b, p b = false → turn b = .stay) (place : List α) (l : List β) :
    walk place ((l.filter p).map turn) = walk place (l.map turn) := by
  induction l generalizing place with
  | nil => rfl
  | cons b l ih =>
      cases hp : p b with
      | false =>
          rw [List.filter_cons_of_neg (by simp [hp]), List.map_cons, hstay b hp]
          exact ih place
      | true =>
          rw [List.filter_cons_of_pos hp, List.map_cons, List.map_cons]
          cases turn b with
          | stay => exact ih place
          | down name => exact ih (place ++ [name])
          | up =>
              rw [walk, walk]
              split
              · rfl
              · exact ih place.dropLast

/-- A path that stays below the root leads to the same place either way. -/
theorem follow_of_walk {place reached : List α} {path : List (Turn α)}
    (h : walk place path = some reached) : follow place path = reached := by
  induction path generalizing place with
  | nil => exact Option.some.inj h
  | cons turn path ih =>
      cases turn with
      | stay => exact ih h
      | down name => exact ih h
      | up =>
          rw [walk] at h
          split at h
          · cases h
          · exact ih h

/-- Without a turn up, every name that has been reached stays. -/
theorem follow_prefix (place : List α) {path : List (Turn α)} (h : .up ∉ path) :
    place <+: follow place path := by
  induction path generalizing place with
  | nil => exact List.prefix_refl place
  | cons turn path ih =>
      have hrest : .up ∉ path := fun hmem => h (List.mem_cons_of_mem _ hmem)
      cases turn with
      | stay => exact ih place hrest
      | down name => exact (List.prefix_append place [name]).trans (ih _ hrest)
      | up => exact absurd (List.mem_cons_self ..) h

/-! ## Striking out -/

theorem walk_cancel {path path' : List (Turn α)} (h : Cancel path path') (place : List α) :
    walk place path = walk place path' := by
  cases h with
  | stay before after =>
      rw [walk_append, walk_append]
      rfl
  | leave before after name =>
      rw [walk_append, walk_append]
      refine congrArg _ (funext fun reached => ?_)
      rw [walk, walk, if_neg (by simp), List.dropLast_concat]

theorem Cancel.append_left {path path' : List (Turn α)} (h : Cancel path path')
    (front : List (Turn α)) : Cancel (front ++ path) (front ++ path') := by
  cases h with
  | stay before after =>
      rw [← List.append_assoc, ← List.append_assoc]
      exact .stay (front ++ before) after
  | leave before after name =>
      rw [← List.append_assoc, ← List.append_assoc]
      exact .leave (front ++ before) after name

/-- Where a walk from `place` ends, the names to it and the path strike out to
the names that lead there. -/
theorem resolves_of_walk {place reached : List α} {path : List (Turn α)}
    (h : walk place path = some reached) : Resolves (place.map .down ++ path) reached := by
  induction path generalizing place with
  | nil =>
      obtain rfl : place = reached := Option.some.inj h
      rw [List.append_nil]
      exact .refl
  | cons turn path ih =>
      cases turn with
      | stay => exact .head (.stay _ path) (ih h)
      | down name =>
          have hplace : Resolves ((place ++ [name]).map .down ++ path) reached := ih h
          rwa [List.map_append, List.append_assoc] at hplace
      | up =>
          rw [walk] at h
          split at h
          · cases h
          · next hne =>
              -- the last name goes with the turn that leaves it
              obtain ⟨front, name, rfl⟩ := List.eq_nil_or_concat place |>.resolve_left hne
              rw [List.concat_eq_append, List.dropLast_concat] at h
              rw [List.concat_eq_append, List.map_append, List.append_assoc]
              exact .head (.leave _ path name) (ih h)

theorem walk_of_resolves {path : List (Turn α)} {reached : List α} (h : Resolves path reached) :
    walk [] path = some reached := by
  have hwalk : walk [] path = walk [] (reached.map .down) := by
    induction h using Relation.ReflTransGen.head_induction_on with
    | refl => rfl
    | head hcancel _ ih => rw [walk_cancel hcancel, ih]
  rw [hwalk, walk_down, List.nil_append]

theorem resolves_iff_walk {path : List (Turn α)} {reached : List α} :
    Resolves path reached ↔ walk [] path = some reached :=
  ⟨walk_of_resolves, fun h => by simpa using resolves_of_walk h⟩

/-- A path has one resolution at most. -/
theorem Resolves.unique {path : List (Turn α)} {reached reached' : List α}
    (h : Resolves path reached) (h' : Resolves path reached') : reached = reached' :=
  Option.some.inj ((walk_of_resolves h).symm.trans (walk_of_resolves h'))

end PathWalk
