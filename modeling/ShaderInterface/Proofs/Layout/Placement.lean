import ShaderInterface.Layout
import Mathlib.Tactic

/-!
# Where fields can lie

`Layout.Fits` says where a kind allows a field, without saying how the offset is found. The offsets
that `Layout.start` finds fit, and none lies before the first free byte; the size of a struct is a
multiple of what its kind and its alignment ask for.
-/
namespace ShaderInterface

theorem le_roundUp (n unit : Nat) : n ≤ roundUp n unit := by
  have hunit : 0 < max unit 1 := by omega
  have hdiv := Nat.div_add_mod (n + (max unit 1 - 1)) (max unit 1)
  have hmod := Nat.mod_lt (n + (max unit 1 - 1)) hunit
  unfold roundUp
  rw [Nat.mul_comm]
  omega

theorem dvd_roundUp (n unit : Nat) : max unit 1 ∣ roundUp n unit := Dvd.intro_left _ rfl

theorem dvd_roundUp_of_pos {unit : Nat} (h : 0 < unit) (n : Nat) : unit ∣ roundUp n unit := by
  have := dvd_roundUp n unit
  rwa [Nat.max_eq_left h] at this

namespace Layout

/-- Whether a field can lie at an offset. In a constant buffer a field of a row or more starts a row
and a smaller one does not cross the end of one; in the other kinds an offset is a multiple of the
field's alignment, where zero counts as one. -/
def Fits (kind : Kind) (field : Extent) (offset : Nat) : Prop :=
  match kind with
  | .constantBuffer =>
    if rowSize ≤ field.size then rowSize ∣ offset else offset % rowSize + field.size ≤ rowSize
  | .vertexInput | .structuredBuffer => max field.align 1 ∣ offset

theorem le_start (kind : Kind) (free : Nat) (field : Extent) : free ≤ start kind free field := by
  cases kind with
  | constantBuffer =>
    simp only [start]
    split
    · exact le_roundUp free rowSize
    · exact le_rfl
  | vertexInput | structuredBuffer => exact le_roundUp free field.align

theorem start_fits (kind : Kind) (free : Nat) (field : Extent) :
    Fits kind field (start kind free field) := by
  cases kind with
  | constantBuffer =>
    have hrow : rowSize ∣ roundUp free rowSize := dvd_roundUp_of_pos (by decide) free
    simp only [Fits, start]
    by_cases hsize : rowSize ≤ field.size
    · simpa [hsize] using hrow
    · by_cases hcross : free % rowSize + field.size > rowSize
      · have := Nat.mod_eq_zero_of_dvd hrow
        simp only [hsize, hcross, if_false, or_true, if_true]
        omega
      · simp only [hsize, hcross, if_false, or_self]
        omega
  | vertexInput | structuredBuffer => exact dvd_roundUp free field.align

theorem Fits.align_dvd {kind : Kind} {field : Extent} {offset : Nat} (h : Fits kind field offset)
    (hkind : kind ≠ .constantBuffer) (hpos : 0 < field.align) : field.align ∣ offset := by
  cases kind with
  | constantBuffer => exact absurd rfl hkind
  | vertexInput | structuredBuffer =>
    have hmax : max field.align 1 ∣ offset := h
    rwa [Nat.max_eq_left hpos] at hmax

theorem Fits.starts_row {field : Extent} {offset : Nat} (h : Fits .constantBuffer field offset)
    (hsize : 16 ≤ field.size) : 16 ∣ offset := by
  simpa [Fits, rowSize, hsize] using h

theorem Fits.inside_row {field : Extent} {offset : Nat} (h : Fits .constantBuffer field offset)
    (hsize : field.size < 16) :
    ∃ row, 16 * row ≤ offset ∧ offset + field.size ≤ 16 * (row + 1) := by
  have hend : offset % 16 + field.size ≤ 16 := by
    simpa [Fits, rowSize, Nat.not_le.2 hsize] using h
  exact ⟨offset / 16, by omega, by omega⟩

/-! ## The size of a struct -/

theorem totalSize_none {kind : Kind} (hkind : kind ≠ .constantBuffer) (free : Nat) :
    totalSize kind none free = free := by
  cases kind with
  | constantBuffer => exact absurd rfl hkind
  | vertexInput | structuredBuffer => rfl

theorem le_totalSize (kind : Kind) (alignment : Option Nat) (free : Nat) :
    free ≤ totalSize kind alignment free := by
  cases alignment with
  | none =>
    cases kind with
    | constantBuffer => exact le_roundUp free rowSize
    | vertexInput | structuredBuffer => exact le_rfl
  | some n =>
    cases kind with
    | constantBuffer => exact (le_roundUp free rowSize).trans (le_roundUp _ _)
    | vertexInput | structuredBuffer => exact le_roundUp free n

/-- A power of two and the size of a row divide the greater of the two. -/
theorem dvd_max_rowSize {n : Nat} (h : n.isPowerOfTwo) :
    n ∣ max n rowSize ∧ rowSize ∣ max n rowSize := by
  obtain ⟨k, rfl⟩ := h
  have hrow : rowSize = 2 ^ 4 := rfl
  rw [hrow]
  rcases Nat.le_total k 4 with hk | hk
  · rw [Nat.max_eq_right (Nat.pow_le_pow_right (by decide) hk)]
    exact ⟨Nat.pow_dvd_pow 2 hk, dvd_rfl⟩
  · rw [Nat.max_eq_left (Nat.pow_le_pow_right (by decide) hk)]
    exact ⟨dvd_rfl, Nat.pow_dvd_pow 2 hk⟩

theorem alignment_dvd_totalSize (kind : Kind) {n : Nat} (h : n.isPowerOfTwo) (free : Nat) :
    n ∣ totalSize kind (some n) free := by
  have hpos : 0 < n := Nat.pos_of_isPowerOfTwo h
  cases kind with
  | constantBuffer => exact (dvd_max_rowSize h).1.trans (dvd_roundUp_of_pos (by omega) _)
  | vertexInput | structuredBuffer => exact dvd_roundUp_of_pos hpos free

theorem rowSize_dvd_totalSize {alignment : Option Nat} (h : ∀ n ∈ alignment, n.isPowerOfTwo)
    (free : Nat) : rowSize ∣ totalSize .constantBuffer alignment free := by
  cases alignment with
  | none => exact dvd_roundUp_of_pos (by decide) free
  | some n =>
    have hpos : 0 < n := Nat.pos_of_isPowerOfTwo (h n rfl)
    exact (dvd_max_rowSize (h n rfl)).2.trans (dvd_roundUp_of_pos (by omega) _)

end Layout

end ShaderInterface
