import ShaderInterface.Proofs.Layout.Placement
import Mathlib.Order.Bounds.Basic

/-!
# The least layout

`Layout.Legal` says which offsets fields can have: in order, without overlap, each where its kind
allows the field. Of all legal offsets the computed ones are the least, field by field
(`Layout.ofExtents_least`). One step of the loop finds the least offset that is allowed behind a free
byte (`Layout.isLeast_start`), and a field that lies further in front leaves more room for those behind
it, which carries the comparison through the whole list.
-/
namespace ShaderInterface

theorem isLeast_roundUp (n unit : Nat) :
    IsLeast {m | max unit 1 ∣ m ∧ n ≤ m} (roundUp n unit) := by
  refine ⟨⟨dvd_roundUp n unit, le_roundUp n unit⟩, ?_⟩
  rintro m ⟨⟨k, rfl⟩, hle⟩
  have hunit : 0 < max unit 1 := by omega
  have hdiv : (n + (max unit 1 - 1)) / max unit 1 ≤ k := by
    rw [Nat.div_le_iff_le_mul_add_pred hunit]
    omega
  calc roundUp n unit = (n + (max unit 1 - 1)) / max unit 1 * max unit 1 := rfl
    _ ≤ k * max unit 1 := Nat.mul_le_mul_right _ hdiv
    _ = max unit 1 * k := Nat.mul_comm _ _

namespace Layout

/-- Offsets that fields can have. -/
structure Legal (kind : Kind) (fields : List Extent) (offsets : List Nat) : Prop where
  fits : List.Forall₂ (Fits kind) fields offsets
  ordered : ∀ (i : Nat) (field : Extent) (offset next : Nat), fields[i]? = some field →
    offsets[i]? = some offset → offsets[i + 1]? = some next → offset + field.size ≤ next

/-- The first byte behind the last of some fields. -/
def lastEnd (fields : List Extent) (offsets : List Nat) : Nat :=
  ((fields.zip offsets).getLast?.map fun p => p.2 + p.1.size).getD 0

/-- What the size of a struct has to be a multiple of. -/
def boundary : Kind → (alignment : Option Nat) → Nat
  | .constantBuffer, none => rowSize
  | .constantBuffer, some n => max n rowSize
  | _, none => 1
  | _, some n => max n 1

/-! ## One field -/

/-- The offset of a field is the least one that its kind allows at or behind the free byte. -/
theorem isLeast_start (kind : Kind) (free : Nat) (field : Extent) :
    IsLeast {offset | Fits kind field offset ∧ free ≤ offset} (start kind free field) := by
  refine ⟨⟨start_fits kind free field, le_start kind free field⟩, ?_⟩
  rintro offset ⟨hfits, hle⟩
  cases kind with
  | constantBuffer =>
    by_cases hsize : rowSize ≤ field.size
    · have hstart : start .constantBuffer free field = roundUp free rowSize := by
        simp [start, hsize]
      rw [hstart]
      exact (isLeast_roundUp free rowSize).2 ⟨hfits.starts_row hsize, hle⟩
    · by_cases hcross : rowSize < free % rowSize + field.size
      · have hstart : start .constantBuffer free field = (free + 15) / 16 * 16 := by
          simp only [start, ge_iff_le, gt_iff_lt, hsize, hcross, or_true, if_true]
          rfl
        have hinside : offset % rowSize + field.size ≤ rowSize := by
          simpa only [Fits, hsize, if_false] using hfits
        simp only [rowSize] at hcross hinside
        -- Further on in the row of the free byte there is even less room for the field.
        rw [hstart]
        omega
      · simpa [start, hsize, hcross] using hle
  | vertexInput | structuredBuffer => exact (isLeast_roundUp free field.align).2 ⟨hfits, hle⟩

/-! ## All fields -/

/-- Legal offsets of which none lies before the byte `free`, field by field. -/
inductive LegalFrom (kind : Kind) : (free : Nat) → List Extent → List Nat → Prop where
  | nil {free : Nat} : LegalFrom kind free [] []
  | cons {free offset : Nat} {field : Extent} {fields : List Extent} {offsets : List Nat} :
      free ≤ offset → Fits kind field offset → LegalFrom kind (offset + field.size) fields offsets →
      LegalFrom kind free (field :: fields) (offset :: offsets)

section
variable {kind : Kind} {fields : List Extent} {offsets : List Nat}

theorem LegalFrom.legal {free : Nat} (h : LegalFrom kind free fields offsets) :
    Legal kind fields offsets := by
  induction h with
  | nil => exact ⟨.nil, by simp⟩
  | cons _ hfits htail ih =>
    refine ⟨.cons hfits ih.fits, ?_⟩
    intro i field offset next hfield hoffset hnext
    cases i with
    | zero =>
      obtain ⟨rfl, rfl⟩ : _ = field ∧ _ = offset := ⟨by simpa using hfield, by simpa using hoffset⟩
      cases htail with
      | nil => simp at hnext
      | cons hle _ _ =>
        obtain rfl : _ = next := by simpa using hnext
        exact hle
    | succ i =>
      exact ih.ordered i field offset next (by simpa using hfield) (by simpa using hoffset)
        (by simpa using hnext)

theorem Legal.legalFrom (h : Legal kind fields offsets) {free : Nat}
    (hfree : ∀ first ∈ offsets.head?, free ≤ first) : LegalFrom kind free fields offsets := by
  obtain ⟨hfits, hordered⟩ := h
  induction hfits generalizing free with
  | nil => exact .nil
  | @cons field offset fields offsets hfit _ ih =>
    refine .cons (hfree offset rfl) hfit (ih ?_ ?_)
    · intro first hfirst
      rw [Option.mem_def, List.head?_eq_getElem?] at hfirst
      exact hordered 0 field offset first rfl rfl (by simpa using hfirst)
    · intro i f o next hf ho hnext
      exact hordered (i + 1) f o next (by simpa using hf) (by simpa using ho) (by simpa using hnext)

end

theorem legalFrom_place (kind : Kind) : ∀ (fields : List Extent) (free : Nat),
    LegalFrom kind free fields ((place kind free fields).map Placement.offset)
  | [], _ => .nil
  | field :: fields, free =>
    .cons (le_start kind free field) (start_fits kind free field) (legalFrom_place kind fields _)

/-- Fields that are placed from a byte in front of legal offsets on lie in front of them too. -/
theorem LegalFrom.place_le {kind : Kind} {later : Nat} {fields : List Extent} {offsets : List Nat}
    (h : LegalFrom kind later fields offsets) {free : Nat} (hfree : free ≤ later) :
    List.Forall₂ (· ≤ ·) ((place kind free fields).map Placement.offset) offsets := by
  induction h generalizing free with
  | nil => exact .nil
  | @cons later offset field fields offsets hle hfits _ ih =>
    have hstart : start kind free field ≤ offset :=
      (isLeast_start kind free field).2 ⟨hfits, hfree.trans hle⟩
    exact .cons hstart (ih (Nat.add_le_add_right hstart field.size))

/-! ## The size -/

theorem endOf_eq (kind : Kind) : ∀ (fields : List Extent) (free : Nat),
    endOf kind free fields =
      ((fields.zip ((place kind free fields).map Placement.offset)).getLast?.map
        fun p => p.2 + p.1.size).getD free
  | [], _ => rfl
  | field :: fields, free => by
    simp only [endOf, place, List.map_cons, List.zip_cons_cons, List.getLast?_cons, Option.map_some,
      Option.getD_some, endOf_eq kind fields]
    cases (fields.zip _).getLast? <;> rfl

/-- The size of a struct whose fields end at `last`: first whole rows for a constant buffer, then what
the alignment asks for. -/
theorem isLeast_totalSize (kind : Kind) (alignment : Option Nat) (last : Nat) :
    ∃ filled, IsLeast {n | boundary kind none ∣ n ∧ last ≤ n} filled ∧
      IsLeast {n | boundary kind alignment ∣ n ∧ filled ≤ n} (totalSize kind alignment last) := by
  have hself {unit n : Nat} (h : unit ∣ n) : IsLeast {m | unit ∣ m ∧ n ≤ m} n :=
    ⟨⟨h, le_rfl⟩, fun m hm => hm.2⟩
  cases kind with
  | constantBuffer =>
    refine ⟨roundUp last rowSize, isLeast_roundUp last rowSize, ?_⟩
    cases alignment with
    | none => exact hself (dvd_roundUp last rowSize)
    | some n =>
      have hleast := isLeast_roundUp (roundUp last rowSize) (max n rowSize)
      rwa [Nat.max_eq_left (by simp [rowSize] : 1 ≤ max n rowSize)] at hleast
  | vertexInput | structuredBuffer =>
    refine ⟨last, hself (one_dvd last), ?_⟩
    cases alignment with
    | none => exact hself (one_dvd last)
    | some n => exact isLeast_roundUp last n

/-- **The layout is the least legal one.** The offsets of the fields are legal, and none of them lies
behind the offset that the field has among any other legal ones. The size is the least multiple of the
boundary that holds the fields, for a constant buffer counted in whole rows. -/
theorem ofExtents_least (kind : Kind) (fields : List Extent) (alignment : Option Nat) :
    let layout := ofExtents kind fields alignment
    let offsets := layout.placements.map Placement.offset
    Legal kind fields offsets ∧
    (∀ others, Legal kind fields others → List.Forall₂ (· ≤ ·) offsets others) ∧
    ∃ filled, IsLeast {n | boundary kind none ∣ n ∧ lastEnd fields offsets ≤ n} filled ∧
      IsLeast {n | boundary kind alignment ∣ n ∧ filled ≤ n} layout.size := by
  intro layout offsets
  refine ⟨(legalFrom_place kind fields 0).legal, ?_, ?_⟩
  · intro others hothers
    exact (hothers.legalFrom fun _ _ => Nat.zero_le _).place_le le_rfl
  · have hlast : lastEnd fields offsets = endOf kind 0 fields := (endOf_eq kind fields 0).symm
    rw [hlast]
    exact isLeast_totalSize kind alignment _

-- Fields that end at byte 24 fill two rows, so 24 bytes are no size although they hold the fields.
example : ofExtents .constantBuffer [⟨12, 4⟩, ⟨8, 4⟩] (some 24) = ⟨[⟨0, 0⟩, ⟨16, 4⟩], 48, 24⟩ := by
  decide

end Layout

end ShaderInterface
