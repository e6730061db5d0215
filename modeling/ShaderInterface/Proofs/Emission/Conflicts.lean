import ShaderInterface.Emission
import Mathlib.Order.Bounds.Defs
import Mathlib.Tactic

/-!
# Registers that are claimed twice

The check of registers goes through the aggregates of a kind and remembers those that claim a
register. It fails if and only if two positions of the list claim one register, and the error is
about the first position that repeats a claim (`checkRegisters_exact`). Since nothing is repeated
before that position, there is exactly one position that it repeats.

The run is followed from the front: `checkRegisters_snoc_cases` says what one more aggregate at the
end changes, and `checkRegisters_cases` carries it through a list.
-/
namespace ShaderInterface

/-! ## Claims -/

/-- The aggregate `a` stands at a position of `types`, is of the kind and claims a slot. -/
structure ClaimsAt (kind : Kind) (types : List Aggregate) (position : Nat) (a : Aggregate)
    (slot : Nat) : Prop where
  get : types[position]? = some a
  kind : a.kind = kind
  register : a.register = some slot

/-- The position `j` repeats the claim of the position `i` before it. -/
def Repeats (kind : Kind) (types : List Aggregate) (i j : Nat) : Prop :=
  i < j ∧ ∃ a b slot, ClaimsAt kind types i a slot ∧ ClaimsAt kind types j b slot

/-- The aggregates of the kind that claim a register. -/
def claimants (kind : Kind) (types : List Aggregate) : List Aggregate :=
  types.filter fun a => a.kind == kind && a.register.isSome

section
variable {kind : Kind} {types : List Aggregate} {i j slot : Nat} {a b : Aggregate}

theorem mem_claimants :
    a ∈ claimants kind types ↔ a ∈ types ∧ a.kind = kind ∧ ∃ slot, a.register = some slot := by
  simp [claimants, Option.isSome_iff_exists]

theorem claimants_eq (kind : Kind) (types : List Aggregate) :
    claimants kind types =
      (types.filter fun a => a.kind == kind).filter fun a => a.register.isSome := by
  simp [claimants, List.filter_filter, Bool.and_comm]

theorem ClaimsAt.lt (h : ClaimsAt kind types i a slot) : i < types.length :=
  (List.getElem?_eq_some_iff.1 h.get).1

theorem ClaimsAt.snoc (h : ClaimsAt kind types i a slot) (b : Aggregate) :
    ClaimsAt kind (types ++ [b]) i a slot :=
  ⟨by rw [List.getElem?_append_left h.lt, h.get], h.kind, h.register⟩

/-- A claim in a longer list is one of the shorter list, or that of the last aggregate. -/
theorem claimsAt_snoc (h : ClaimsAt kind (types ++ [b]) i a slot) :
    ClaimsAt kind types i a slot ∨ i = types.length ∧ a = b := by
  have hget := h.get
  rcases lt_or_ge i types.length with hi | hi
  · rw [List.getElem?_append_left hi] at hget
    exact .inl ⟨hget, h.kind, h.register⟩
  · rw [List.getElem?_append_right hi, List.getElem?_singleton] at hget
    split_ifs at hget with hlast
    exact .inr ⟨by omega, (Option.some.inj hget).symm⟩

/-- A claim that is repeated in a longer list is repeated in the shorter one, or by the last
aggregate. -/
theorem repeats_snoc (h : Repeats kind (types ++ [b]) i j) :
    Repeats kind types i j ∨ j = types.length ∧
      ∃ a slot, ClaimsAt kind types i a slot ∧ b.kind = kind ∧ b.register = some slot := by
  obtain ⟨hlt, a, c, slot, ha, hc⟩ := h
  rcases claimsAt_snoc ha with ha' | ⟨hi, -⟩
  · rcases claimsAt_snoc hc with hc' | ⟨hj, rfl⟩
    · exact .inl ⟨hlt, a, c, slot, ha', hc'⟩
    · exact .inr ⟨hj, a, slot, ha', hc.kind, hc.register⟩
  · obtain hj := hc.lt
    rw [List.length_append, List.length_singleton] at hj
    omega

/-- The first position that repeats a claim repeats that of one position only. -/
theorem Repeats.unique {i' : Nat} (hj : ∀ k l, Repeats kind types k l → j ≤ l)
    (h : Repeats kind types i j) (h' : Repeats kind types i' j) : i' = i := by
  obtain ⟨hlt, a, b, slot, ha, hb⟩ := h
  obtain ⟨hlt', a', b', slot', ha', hb'⟩ := h'
  obtain rfl : b' = b := Option.some.inj (hb'.get.symm.trans hb.get)
  obtain rfl : slot' = slot := Option.some.inj (hb'.register.symm.trans hb.register)
  -- Of two different positions with that claim the later one would repeat the earlier one.
  rcases lt_trichotomy i' i with hless | heq | hless
  · exact absurd (hj i' i ⟨hless, a', a, slot', ha', ha⟩) (by omega)
  · exact heq
  · exact absurd (hj i i' ⟨hless, a, a', slot', ha, ha'⟩) (by omega)

end

/-! ## The check -/

section
variable {kind : Kind} {letter : Char}

/-- Aggregates without a register are passed over. -/
theorem checkClaims_filter (claimed as : List Aggregate) :
    checkClaims kind letter claimed (as.filter fun a => a.register.isSome) =
      checkClaims kind letter claimed as := by
  induction as generalizing claimed with
  | nil => rfl
  | cons a as ih =>
    cases hslot : a.register with
    | none => simp [checkClaims, hslot, ih]
    | some slot => simp [checkClaims, hslot, ih]

/-- The aggregates behind others are checked against the claims of those. -/
theorem checkClaims_append (claimed as bs : List Aggregate) :
    checkClaims kind letter claimed (as ++ bs) =
      (checkClaims kind letter claimed as).bind fun _ =>
        checkClaims kind letter ((as.filter fun a => a.register.isSome).reverse ++ claimed) bs := by
  induction as generalizing claimed with
  | nil => rfl
  | cons a as ih =>
    cases hslot : a.register with
    | none => simp [checkClaims, hslot, ih]
    | some slot =>
      cases hfind : claimed.find? fun b => b.register == some slot with
      | none => simp [checkClaims, hslot, hfind, ih]
      | some first => simp [checkClaims, hslot, hfind, Except.bind]

/-- Only the aggregates of the kind that claim a register count. -/
theorem checkRegisters_claimants (kind : Kind) (types : List Aggregate) :
    checkRegisters kind (claimants kind types) = checkRegisters kind types := by
  unfold checkRegisters
  cases kind.registerLetter? with
  | none => rfl
  | some letter =>
    have hfilter : (claimants kind types).filter (fun a => a.kind == kind) =
        (types.filter fun a => a.kind == kind).filter fun a => a.register.isSome := by
      rw [← claimants_eq, claimants, List.filter_filter]
      simp
    simp only [hfilter, checkClaims_filter]

end

section
variable {kind : Kind} {letter : Char} (hletter : kind.registerLetter? = some letter)
include hletter

/-- One more aggregate at the end. -/
theorem checkRegisters_snoc (types : List Aggregate) (b : Aggregate) :
    checkRegisters kind (types ++ [b]) = (checkRegisters kind types).bind fun _ =>
      checkClaims kind letter (claimants kind types).reverse (claimants kind [b]) := by
  unfold checkRegisters
  simp only [hletter, List.filter_append, checkClaims_append, ← claimants_eq, List.append_nil]
  rw [claimants_eq kind [b], checkClaims_filter]

/-- Behind aggregates that pass, the last one repeats a claim and is refused, or it repeats none and
all pass. -/
theorem checkRegisters_snoc_cases {types : List Aggregate}
    (hok : checkRegisters kind types = .ok ()) (b : Aggregate) :
    (∃ i a slot, ClaimsAt kind types i a slot ∧ b.kind = kind ∧ b.register = some slot ∧
      checkRegisters kind (types ++ [b]) = .error
        (.registerConflict kind ⟨letter, slot⟩ a.qualified b.qualified b.location b.sourceIndex)) ∨
    checkRegisters kind (types ++ [b]) = .ok () ∧
      ∀ i a slot, ClaimsAt kind types i a slot → ¬(b.kind = kind ∧ b.register = some slot) := by
  have hcheck := checkRegisters_snoc hletter types b
  rw [hok] at hcheck
  by_cases hb : b.kind = kind ∧ ∃ slot, b.register = some slot
  · obtain ⟨hkind, slot, hslot⟩ := hb
    have hlast : claimants kind [b] = [b] := by simp [claimants, hkind, hslot]
    rw [hlast] at hcheck
    cases hfind : (claimants kind types).reverse.find? fun a => a.register == some slot with
    | some a =>
      have hmem := List.mem_of_find?_eq_some hfind
      rw [List.mem_reverse, mem_claimants] at hmem
      obtain ⟨i, hget⟩ := List.mem_iff_getElem?.1 hmem.1
      have hregister : a.register = some slot := by simpa using List.find?_some hfind
      exact .inl ⟨i, a, slot, ⟨hget, hmem.2.1, hregister⟩, hkind, hslot,
        hcheck.trans (by simp [checkClaims, hslot, hfind, Except.bind])⟩
    | none =>
      refine .inr ⟨hcheck.trans (by simp [checkClaims, hslot, hfind, Except.bind]), ?_⟩
      rintro i a slot' ha ⟨-, hslot'⟩
      obtain rfl : slot' = slot := Option.some.inj (hslot'.symm.trans hslot)
      have hmem : a ∈ claimants kind types :=
        mem_claimants.2 ⟨List.mem_of_getElem? ha.get, ha.kind, slot', ha.register⟩
      exact List.find?_eq_none.1 hfind a (List.mem_reverse.2 hmem) (by simp [ha.register])
  · have hlast : claimants kind [b] = [] := by
      refine List.filter_eq_nil_iff.2 fun a ha hclaim => hb ?_
      obtain rfl := List.mem_singleton.1 ha
      simpa [Option.isSome_iff_exists] using hclaim
    rw [hlast] at hcheck
    exact .inr ⟨hcheck, fun i a slot _ hclaim => hb ⟨hclaim.1, slot, hclaim.2⟩⟩

/-- The check passes and no claim is repeated, or it fails at the first position that repeats
one. -/
theorem checkRegisters_cases (types : List Aggregate) :
    checkRegisters kind types = .ok () ∧ (∀ i j, ¬Repeats kind types i j) ∨
      ∃ i j a b slot, i < j ∧ ClaimsAt kind types i a slot ∧ ClaimsAt kind types j b slot ∧
        (∀ k l, Repeats kind types k l → j ≤ l) ∧
        checkRegisters kind types = .error (.registerConflict kind ⟨letter, slot⟩ a.qualified
          b.qualified b.location b.sourceIndex) := by
  induction types using List.reverseRecOn with
  | nil =>
    refine .inl ⟨by simp [checkRegisters, hletter, checkClaims], ?_⟩
    rintro i j ⟨-, a, b, slot, ha, -⟩
    simpa using ha.get
  | append_singleton types b ih =>
    rcases ih with ⟨hok, hnone⟩ | ⟨i, j, a, c, slot, hlt, ha, hc, hfirst, herror⟩
    · rcases checkRegisters_snoc_cases hletter hok b with
        ⟨i, a, slot, ha, hkind, hslot, herror⟩ | ⟨hok', hfresh⟩
      · have hb : ClaimsAt kind (types ++ [b]) types.length b slot := ⟨by simp, hkind, hslot⟩
        refine .inr ⟨i, types.length, a, b, slot, ha.lt, ha.snoc b, hb, ?_, herror⟩
        intro k l hrepeats
        rcases repeats_snoc hrepeats with hbefore | ⟨rfl, -⟩
        · exact absurd hbefore (hnone k l)
        · exact le_rfl
      · refine .inl ⟨hok', fun i j hrepeats => ?_⟩
        rcases repeats_snoc hrepeats with hbefore | ⟨-, a, slot, ha, hclaim⟩
        · exact hnone i j hbefore
        · exact hfresh i a slot ha hclaim
    · refine .inr ⟨i, j, a, c, slot, hlt, ha.snoc b, hc.snoc b, fun k l hrepeats => ?_, ?_⟩
      · rcases repeats_snoc hrepeats with hbefore | ⟨rfl, -⟩
        · exact hfirst k l hbefore
        · exact hc.lt.le
      · rw [checkRegisters_snoc hletter, herror]
        rfl

end

/-- **Conflicts are found exactly.** The check fails if and only if the kind binds registers and two
positions of the list hold aggregates of the kind that claim one register. It then names the first
position that repeats a claim, and the only position before it with that claim. Aggregates of other
kinds and aggregates without a register do not matter. -/
theorem checkRegisters_exact (kind : Kind) (types : List Aggregate) :
    ((∃ e, checkRegisters kind types = .error e) ↔
      kind.registerLetter?.isSome ∧ ∃ i j a b slot, i ≠ j ∧ ClaimsAt kind types i a slot ∧
        ClaimsAt kind types j b slot) ∧
    (∀ e, checkRegisters kind types = .error e →
      ∃ letter i j a b slot, kind.registerLetter? = some letter ∧
        IsLeast {l | ∃ k, Repeats kind types k l} j ∧ (∀ k, Repeats kind types k j ↔ k = i) ∧
        ClaimsAt kind types i a slot ∧ ClaimsAt kind types j b slot ∧
        e = .registerConflict kind ⟨letter, slot⟩ a.qualified b.qualified b.location
          b.sourceIndex) ∧
    ∀ others, claimants kind others = claimants kind types →
      checkRegisters kind others = checkRegisters kind types := by
  have hothers (others : List Aggregate) (h : claimants kind others = claimants kind types) :
      checkRegisters kind others = checkRegisters kind types := by
    rw [← checkRegisters_claimants kind others, h, checkRegisters_claimants]
  cases hletter : kind.registerLetter? with
  | none =>
    have hok : checkRegisters kind types = .ok () := by simp [checkRegisters, hletter]
    simp only [hok]
    exact ⟨by simp, by simp, by simpa only [hok] using hothers⟩
  | some letter =>
    refine ⟨?_, ?_, hothers⟩
    · rcases checkRegisters_cases hletter types with
        ⟨hok, hnone⟩ | ⟨i, j, a, b, slot, hlt, ha, hb, -, herror⟩
      · refine iff_of_false (by simp [hok]) ?_
        rintro ⟨-, i, j, a, b, slot, hne, ha, hb⟩
        rcases Nat.lt_or_gt_of_ne hne with hlt | hlt
        · exact hnone i j ⟨hlt, a, b, slot, ha, hb⟩
        · exact hnone j i ⟨hlt, b, a, slot, hb, ha⟩
      · exact iff_of_true ⟨_, herror⟩ ⟨rfl, i, j, a, b, slot, hlt.ne, ha, hb⟩
    · intro e he
      rcases checkRegisters_cases hletter types with
        ⟨hok, -⟩ | ⟨i, j, a, b, slot, hlt, ha, hb, hfirst, herror⟩
      · rw [hok] at he
        cases he
      · have hrepeats : Repeats kind types i j := ⟨hlt, a, b, slot, ha, hb⟩
        refine ⟨letter, i, j, a, b, slot, rfl, ⟨⟨i, hrepeats⟩, ?_⟩, fun k => ⟨?_, ?_⟩, ha, hb, ?_⟩
        · rintro l ⟨k, hk⟩
          exact hfirst k l hk
        · exact hrepeats.unique hfirst
        · rintro rfl
          exact hrepeats
        · exact Except.error.inj (he.symm.trans herror)

end ShaderInterface
