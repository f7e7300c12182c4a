/-!
# Operations that may fail

A fallible operation returns `Except ε`. The lemmas here take a successful
run of a `do` block apart one bind at a time, so that no proof unfolds the
monad. `commit` is the transaction bracket: the new store if the operation
succeeded, and the old one, untouched, if it failed.
-/

namespace Conc

universe u

variable {ε α β D : Type u}

theorem bind_eq_ok {x : Except ε α} {f : α → Except ε β} {b : β} :
    (x >>= f) = .ok b ↔ ∃ a, x = .ok a ∧ f a = .ok b := by
  cases x with
  | error e => simp [bind, Except.bind]
  | ok a => simp [bind, Except.bind]

/-- A guard: the operation goes on only where it is off. -/
theorem ite_error_eq_ok {c : Prop} [Decidable c] {e : ε} {a : α} {x : Except ε α} :
    (if c then .error e else x) = .ok a ↔ ¬c ∧ x = .ok a := by
  split
  · next h => exact ⟨fun hc => (nomatch hc), fun hc => absurd h hc.1⟩
  · next h => exact ⟨fun hx => ⟨h, hx⟩, fun hx => hx.2⟩

theorem mapError_eq_ok {x : Except ε α} {f : ε → D} {a : α} :
    x.mapError f = .ok a ↔ x = .ok a := by
  cases x with
  | error e => exact iff_of_false nofun nofun
  | ok b => exact ⟨fun h => congrArg Except.ok (Except.ok.inj h), fun h => by rw [h]; rfl⟩

theorem option_forM_eq_ok {x : Option α} {f : α → Except ε PUnit.{u + 1}} :
    x.forM f = .ok ⟨⟩ ↔ ∀ a, x = some a → f a = .ok ⟨⟩ := by
  cases x with
  | none => exact iff_of_true rfl nofun
  | some a => exact ⟨fun h b hb => Option.some.inj hb ▸ h, fun h => h a rfl⟩

theorem list_forM_eq_ok {xs : List α} {f : α → Except ε PUnit.{u + 1}} :
    forM xs f = .ok ⟨⟩ ↔ ∀ x ∈ xs, f x = .ok ⟨⟩ := by
  induction xs with
  | nil => exact iff_of_true rfl nofun
  | cons x xs ih =>
      rw [List.forM_cons, List.forall_mem_cons, ← ih]
      refine bind_eq_ok.trans ?_
      exact ⟨fun ⟨_, hx, hxs⟩ => ⟨hx, hxs⟩, fun ⟨hx, hxs⟩ => ⟨⟨⟩, hx, hxs⟩⟩

theorem eq_ok_of_toOption {x : Except ε α} {a : α} (h : x.toOption = some a) : x = .ok a := by
  cases x with
  | error e => cases h
  | ok b => exact congrArg Except.ok (Option.some.inj h)

/-- A loop seen through a part of its state, where every turn is. -/
theorem foldlM_map {σ τ : Type u} {f : σ → α → Except ε σ} {g : σ → τ} {h : τ → α → Except ε τ}
    (hturn : ∀ s a, (f s a).map g = h (g s) a) (l : List α) (s : σ) :
    (l.foldlM f s).map g = l.foldlM h (g s) := by
  induction l generalizing s with
  | nil => rfl
  | cons a l ih =>
      rw [List.foldlM_cons, List.foldlM_cons, ← hturn]
      cases f s a with
      | error e => rfl
      | ok s' => exact ih s'

/-- What every turn of a loop keeps, the loop keeps. -/
theorem foldlM_induct {σ : Type u} {P : σ → Prop} {f : σ → α → Except ε σ}
    (hturn : ∀ s a s', P s → f s a = .ok s' → P s') {l : List α} {s s' : σ} (hs : P s)
    (h : l.foldlM f s = .ok s') : P s' := by
  induction l generalizing s with
  | nil => exact Except.ok.inj h ▸ hs
  | cons a l ih =>
      rw [List.foldlM_cons] at h
      obtain ⟨s₁, hfirst, hrest⟩ := bind_eq_ok.mp h
      exact ih (hturn s a s₁ hs hfirst) hrest

/-- A loop goes through where each of its turns does, in whatever state it is taken. -/
theorem exists_foldlM_eq_ok {σ : Type u} {P : α → Prop} {f : σ → α → Except ε σ}
    (hturn : ∀ s a, (∃ s', f s a = .ok s') ↔ P a) (l : List α) (s : σ) :
    (∃ s', l.foldlM f s = .ok s') ↔ ∀ a ∈ l, P a := by
  induction l generalizing s with
  | nil => exact iff_of_true ⟨s, rfl⟩ nofun
  | cons a l ih =>
      rw [List.forall_mem_cons, ← hturn s a]
      constructor
      · rintro ⟨s', h⟩
        rw [List.foldlM_cons] at h
        obtain ⟨s₁, hfirst, hrest⟩ := bind_eq_ok.mp h
        exact ⟨⟨s₁, hfirst⟩, (ih s₁).mp ⟨s', hrest⟩⟩
      · rintro ⟨⟨s₁, hfirst⟩, hrest⟩
        obtain ⟨s', hs'⟩ := (ih s₁).mpr hrest
        exact ⟨s', by rw [List.foldlM_cons, hfirst]; exact hs'⟩

/-- The store after a transaction: what it wrote, or nothing. -/
def commit (d : D) : Except ε D → D
  | .ok d' => d'
  | .error _ => d

end Conc
