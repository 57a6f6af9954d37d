import Mathlib.Data.Set.Insert
import Mathlib.Order.Basic

/-!
# First-match tables

Entries that cover some points, tried in the order of their ranks: the first that covers a point
decides. Each entry has a length. Where overlapping entries have the longer one first, the first
match is a longest one, whatever the order in which they came in.
-/

namespace FirstMatch

/-- How the entries of a table are read. -/
structure Reading (E A P : Type) where
  rank : E → P
  covers : E → A → Prop
  length : E → Nat

namespace Reading

variable {E A P : Type} (R : Reading E A P)

/-- Some point is covered by both entries. -/
def Overlap (a b : E) : Prop := ∃ x, R.covers a x ∧ R.covers b x

theorem Overlap.symm {R : Reading E A P} {a b : E} (overlap : R.Overlap a b) :
    R.Overlap b a := by
  obtain ⟨x, left, right⟩ := overlap
  exact ⟨x, right, left⟩

variable [Preorder P]

/-- Of overlapping entries the longer one is tried first. -/
def LongestFirst (table : Set E) : Prop :=
  ∀ a ∈ table, ∀ b ∈ table, R.Overlap a b → R.length b < R.length a → R.rank a < R.rank b

/-- An entry lies before the shorter and behind the longer entries that it overlaps. -/
def Fits (table : Set E) (e : E) : Prop :=
  ∀ b ∈ table, R.Overlap e b →
    (R.length b < R.length e → R.rank e < R.rank b) ∧
    (R.length e < R.length b → R.rank b < R.rank e)

/-- An entry of the table covers the point, and none that does so is tried before it. -/
structure First (table : Set E) (x : A) (e : E) : Prop where
  member : e ∈ table
  covers : R.covers e x
  least : ∀ b ∈ table, R.covers b x → R.rank e ≤ R.rank b

variable {R} {table table' : Set E}

/-- Withdrawals keep the order. -/
theorem LongestFirst.mono (ordered : R.LongestFirst table) (sub : table' ⊆ table) :
    R.LongestFirst table' :=
  fun a first b second => ordered a (sub first) b (sub second)

/-- So does an entry that fits. -/
theorem LongestFirst.insert (ordered : R.LongestFirst table) {e : E} (fits : R.Fits table e) :
    R.LongestFirst (insert e table) := by
  intro a first b second overlap longer
  rcases first with rfl | first
  · rcases second with rfl | second
    · exact absurd longer (Nat.lt_irrefl _)
    · exact (fits b second overlap).1 longer
  · rcases second with rfl | second
    · exact (fits a first overlap.symm).2 longer
    · exact ordered a first b second overlap longer

/-- An entry that fits a table fits what is left of it. -/
theorem Fits.mono {e : E} (fits : R.Fits table e) (sub : table' ⊆ table) : R.Fits table' e :=
  fun b inside => fits b (sub inside)

end Reading

end FirstMatch
