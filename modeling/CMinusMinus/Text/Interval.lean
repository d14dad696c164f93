/-
  File:      CMinusMinus/Text/Interval.lean
  Subject:   Ascending tables of closed intervals of code points.

  A character property of the Unicode standard is given as a list of closed intervals in
  ascending order. `covers` decides membership and stops at the first interval that starts
  beyond the number it looks for.
-/

namespace CMinusMinus.Text

/-- A closed interval of code points, its least and its greatest member. -/
abbrev Interval := Nat × Nat

/-- Some interval of the ascending table holds `n`. -/
def covers : List Interval → Nat → Bool
  | [], _ => false
  | (lo, hi) :: rest, n => if n < lo then false else if n ≤ hi then true else covers rest n

/-- A number that a table covers lies in one of its intervals. -/
theorem exists_of_covers {table : List Interval} {n : Nat} (h : covers table n = true) :
    ∃ i ∈ table, i.1 ≤ n ∧ n ≤ i.2 := by
  induction table with
  | nil => simp [covers] at h
  | cons i rest ih =>
    obtain ⟨lo, hi⟩ := i
    simp only [covers] at h
    split at h
    · simp at h
    · split at h
      · exact ⟨(lo, hi), by simp, by simp only; omega, by simp only; omega⟩
      · obtain ⟨j, hj, hn⟩ := ih h
        exact ⟨j, by simp [hj], hn⟩

end CMinusMinus.Text
