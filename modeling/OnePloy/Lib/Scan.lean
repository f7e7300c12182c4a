import Mathlib.Data.Set.Basic

/-!
# Scans for shared values

Two parties share a value if both have it. A scan reads something of what the one
has and something of what the others have, and compares the two under a relation
of its own; what it finds is what it sees of the shared values, and what it
mistakes (`finds_iff`). `finds_iff_shares_iff` says when it finds something just
if there is something.
-/

namespace Scan

variable {α : Type*}

def Shares (own others : Set α) : Prop := (own ∩ others).Nonempty

theorem Shares.symm {own others : Set α} (h : Shares own others) : Shares others own := by
  obtain ⟨a, hown, hothers⟩ := h
  exact ⟨a, hothers, hown⟩

theorem shares_comm {own others : Set α} : Shares own others ↔ Shares others own :=
  ⟨Shares.symm, Shares.symm⟩

section

variable (same : α → α → Prop) (own read others scanned : Set α)

def Finds : Prop := ∃ a ∈ read, ∃ b ∈ scanned, same a b

/-- A shared value is read on both sides. -/
def Seen : Prop := (own ∩ read ∩ scanned).Nonempty

/-- A shared value is not read on both sides. -/
def Missed : Prop := ∃ a ∈ own ∩ others, ¬ (a ∈ read ∧ a ∈ scanned)

/-- Something that is no shared value passes for one. -/
def Mistaken : Prop := ∃ a ∈ read, ∃ b ∈ scanned, same a b ∧ ¬ (a = b ∧ a ∈ own)

/-- A shared value is seen, or it makes no difference: where one is missed,
something else passes for it, and nothing passes for one where none is missed. -/
def Reliable : Prop :=
  Seen own read scanned ∨ (Mistaken same own read scanned ↔ Missed own read others scanned)

end

variable {same : α → α → Prop} {own read others scanned : Set α}

theorem finds_iff (hrefl : ∀ a, same a a) :
    Finds same read scanned ↔ Seen own read scanned ∨ Mistaken same own read scanned := by
  constructor
  · rintro ⟨a, ha, b, hb, hsame⟩
    by_cases hshared : a = b ∧ a ∈ own
    · obtain ⟨rfl, hown⟩ := hshared
      exact .inl ⟨a, ⟨hown, ha⟩, hb⟩
    · exact .inr ⟨a, ha, b, hb, hsame, hshared⟩
  · rintro (⟨a, ⟨-, ha⟩, hb⟩ | ⟨a, ha, b, hb, hsame, -⟩)
    · exact ⟨a, ha, a, hb, hrefl a⟩
    · exact ⟨a, ha, b, hb, hsame⟩

theorem shares_iff (hsub : scanned ⊆ others) :
    Shares own others ↔ Seen own read scanned ∨ Missed own read others scanned := by
  constructor
  · rintro ⟨a, hown, hothers⟩
    by_cases hread : a ∈ read ∧ a ∈ scanned
    · exact .inl ⟨a, ⟨hown, hread.1⟩, hread.2⟩
    · exact .inr ⟨a, ⟨hown, hothers⟩, hread⟩
  · rintro (⟨a, ⟨hown, -⟩, hscanned⟩ | ⟨a, hshared, -⟩)
    · exact ⟨a, hown, hsub hscanned⟩
    · exact ⟨a, hshared⟩

theorem finds_iff_shares_iff (hrefl : ∀ a, same a a) (hsub : scanned ⊆ others) :
    (Finds same read scanned ↔ Shares own others) ↔ Reliable same own read others scanned := by
  have hfinds : Finds same read scanned ↔
      Seen own read scanned ∨ Mistaken same own read scanned := finds_iff hrefl
  have hshares : Shares own others ↔
      Seen own read scanned ∨ Missed own read others scanned := shares_iff hsub
  rw [hfinds, hshares, Reliable]
  by_cases hseen : Seen own read scanned
  · simp [hseen]
  · simp only [hseen, false_or]

end Scan
