import ShaderInterface.Proofs.Layout.Aggregates

/-!
# Slots of vertex inputs

The members of a vertex input are fed from slots, and those of one slot lie in its stream as a struct of
their own. The offsets are found member by member, with the first free byte of every slot at hand; laying
out one slot after the other and writing each offset to the position of its member finds the same ones,
in whatever order the slots are taken (`InputLayout.gather_eq`). `Aggregate.FedBySlot` is what the
elements of an aggregate promise, and every entry of every catalog keeps it.
-/
namespace ShaderInterface

namespace InputLayout

/-! ## Slot by slot -/

/-- The layout of the members of a slot, as a struct of their own. -/
def slotLayout (ms : List Member) (slot : Nat) : Layout :=
  Layout.ofExtents .vertexInput ((ms.filter fun m => m.slot = slot).map Member.extent) none

/-- The positions of the members of a slot. -/
def slotPositions (ms : List Member) (slot : Nat) : List Nat :=
  (ms.zipIdx.filter fun p => p.1.slot = slot).map Prod.snd

/-- The positions of the members of a slot, each with the offset that the layout of the slot gives. -/
def slotWrites (ms : List Member) (slot : Nat) : List (Nat × Nat) :=
  (slotPositions ms slot).zip ((slotLayout ms slot).placements.map Placement.offset)

/-- The offsets of members, written to their positions one slot after the other. -/
def gather (order : List Nat) (ms : List Member) : List Nat :=
  (order.flatMap (slotWrites ms)).foldl (fun found write => found.set write.1 write.2)
    (List.replicate ms.length 0)

theorem length_offsets (ms : List Member) (free : Nat → Nat) :
    (offsets free ms).length = ms.length := by
  induction ms generalizing free with
  | nil => rfl
  | cons m ms ih => simp [offsets, ih]

/-- The offsets of the members of a slot are those of a struct of their own. -/
theorem offsets_of_slot (slot : Nat) (ms : List Member) (free : Nat → Nat) :
    ((ms.zip (offsets free ms)).filter fun p => p.1.slot = slot).map Prod.snd =
      (Layout.place .vertexInput (free slot)
        ((ms.filter fun m => m.slot = slot).map Member.extent)).map Placement.offset := by
  induction ms generalizing free with
  | nil => rfl
  | cons m ms ih =>
    by_cases hslot : m.slot = slot
    · subst hslot
      simp [offsets, Layout.place, ih, Member.extent]
    · have hother : slot ≠ m.slot := Ne.symm hslot
      simp [offsets, hslot, hother, ih]

theorem mem_slotWrites {ms : List Member} {slot i offset : Nat} :
    (i, offset) ∈ slotWrites ms slot ↔ ∃ m, ms[i]? = some m ∧ m.slot = slot ∧
      (offsets (fun _ => 0) ms)[i]? = some offset := by
  generalize hpairs : ms.zip (offsets (fun _ => 0) ms) = pairs
  have hmembers : pairs.map Prod.fst = ms := by
    rw [← hpairs]
    exact List.map_fst_zip (length_offsets ms _).ge
  have hpositions : slotPositions ms slot =
      (pairs.zipIdx.filter fun p => p.1.1.slot = slot).map Prod.snd := by
    rw [slotPositions, ← hmembers, List.zipIdx_map, List.filter_map, List.map_map]
    rfl
  have hplaced : (slotLayout ms slot).placements.map Placement.offset =
      (pairs.zipIdx.filter fun p => p.1.1.slot = slot).map fun p => p.1.2 := by
    have hslot := offsets_of_slot slot ms fun _ => 0
    rw [hpairs, ← List.zipIdx_map_fst 0 pairs, List.filter_map, List.map_map] at hslot
    exact hslot.symm
  have hwrites : slotWrites ms slot =
      (pairs.zipIdx.filter fun p => p.1.1.slot = slot).map fun p => (p.2, p.1.2) := by
    rw [slotWrites, hpositions, hplaced, List.zip_map']
  have hget (m : Member) (o j : Nat) : ((m, o), j) ∈ pairs.zipIdx ↔
      ms[j]? = some m ∧ (offsets (fun _ => 0) ms)[j]? = some o := by
    rw [List.mem_zipIdx_iff_getElem?, ← hpairs, List.getElem?_zip_eq_some]
  rw [hwrites, List.mem_map]
  constructor
  · rintro ⟨⟨⟨m, o⟩, j⟩, hmem, heq⟩
    obtain ⟨rfl, rfl⟩ := Prod.mk.inj heq
    obtain ⟨hin, hslot⟩ := List.mem_filter.1 hmem
    obtain ⟨hm, ho⟩ := (hget m o j).1 hin
    exact ⟨m, hm, by simpa using hslot, ho⟩
  · rintro ⟨m, hm, hslot, ho⟩
    have hin := (hget m offset i).2 ⟨hm, ho⟩
    exact ⟨((m, offset), i), List.mem_filter.2 ⟨hin, by simpa using hslot⟩, rfl⟩

/-- Values of a list, written to their positions in any order and more than once, make up the list if
each position is written or holds its value before. -/
theorem foldl_set_eq {target found : List Nat} {writes : List (Nat × Nat)}
    (hwrites : ∀ write ∈ writes, target[write.1]? = some write.2)
    (hlength : found.length = target.length)
    (hall : ∀ i, i ∈ writes.map Prod.fst ∨ found[i]? = target[i]?) :
    writes.foldl (fun found write => found.set write.1 write.2) found = target := by
  induction writes generalizing found with
  | nil => exact List.ext_getElem? fun i => by simpa using hall i
  | cons write writes ih =>
    obtain ⟨hwrite, hrest⟩ := List.forall_mem_cons.1 hwrites
    refine ih hrest (by simpa using hlength) fun i => ?_
    by_cases hi : i = write.1
    · subst hi
      have hlt : write.1 < found.length := hlength ▸ (List.getElem?_eq_some_iff.1 hwrite).1
      exact .inr ((List.getElem?_set_self hlt).trans hwrite.symm)
    · rw [List.getElem?_set_ne (Ne.symm hi)]
      simpa [hi] using hall i

/-- Slots can be laid out in any order. -/
theorem gather_eq {order : List Nat} {ms : List Member} (h : ∀ m ∈ ms, m.slot ∈ order) :
    gather order ms = offsets (fun _ => 0) ms := by
  have hlength := length_offsets ms fun _ => 0
  refine foldl_set_eq ?_ (by simp [hlength]) fun i => ?_
  · rintro ⟨i, offset⟩ hwrite
    obtain ⟨slot, -, hmem⟩ := List.mem_flatMap.1 hwrite
    obtain ⟨m, -, -, hoffset⟩ := mem_slotWrites.1 hmem
    exact hoffset
  · cases hm : ms[i]? with
    | none =>
      -- There is no such position in any of the lists.
      have hle := List.getElem?_eq_none_iff.1 hm
      exact .inr (by rw [List.getElem?_eq_none (by simpa using hle),
        List.getElem?_eq_none (hlength.trans_le hle)])
    | some m =>
      obtain ⟨hlt, -⟩ := List.getElem?_eq_some_iff.1 hm
      obtain ⟨offset, hoffset⟩ : ∃ offset, (offsets (fun _ => 0) ms)[i]? = some offset :=
        ⟨_, List.getElem?_eq_getElem (by omega)⟩
      have hwrite : (i, offset) ∈ slotWrites ms m.slot := mem_slotWrites.2 ⟨m, hm, rfl, hoffset⟩
      have hslot : m.slot ∈ order := h m (List.mem_of_getElem? hm)
      exact .inl (List.mem_map_of_mem (f := Prod.fst) (List.mem_flatMap.2 ⟨m.slot, hslot, hwrite⟩))

end InputLayout

/-! ## Elements of members -/

/-- A member with its offset in the stream of its slot and its elements. -/
structure FedMember where
  member : Member
  base : Nat
  rows : List InputElement

namespace FedMember

/-- The bytes of one row. -/
def rowSize (f : FedMember) : Nat := f.member.type.size / f.member.type.rows

/-- There is one element for each row, fed as the member asks for. -/
structure RowByRow (f : FedMember) : Prop where
  length_eq : f.rows.length = max f.member.type.rows 1
  format_eq : ∀ e ∈ f.rows, e.format = f.member.type.format
  slot_eq : ∀ e ∈ f.rows, e.slot = f.member.register.getD 0
  perVertex : f.member.stepRate = none → ∀ e ∈ f.rows, e.stepMode = .perVertex ∧ e.stepRate = 0
  perInstance : ∀ rate, f.member.stepRate = some rate →
    ∀ e ∈ f.rows, e.stepMode = .perInstance ∧ e.stepRate = rate
  offset_eq : ∀ (r : Nat) (e : InputElement), f.rows[r]? = some e →
    e.offset = f.base + r * f.rowSize

/-- The elements, each with the bytes that it takes up. -/
def sizedRows (f : FedMember) : List (InputElement × Nat) := f.rows.map fun e => (e, f.rowSize)

end FedMember

/-- The elements of an aggregate and where its members lie in the streams of their slots. -/
structure Aggregate.FedBySlot (a : Aggregate) (fed : List FedMember) : Prop where
  members_eq : fed.map FedMember.member = a.members
  elements_eq : fed.flatMap FedMember.rows = a.inputElements
  rows : ∀ f ∈ fed, f.RowByRow
  /-- The members of a slot lie where the layout of a vertex input puts them if there are no others. -/
  bases_eq : ∀ slot, (fed.filter fun f => f.member.slot = slot).map FedMember.base =
    (InputLayout.slotLayout a.members slot).placements.map Placement.offset
  /-- The order in which slots are laid out makes no difference. -/
  gather_eq : ∀ order, (∀ m ∈ a.members, m.slot ∈ order) →
    InputLayout.gather order a.members = fed.map FedMember.base
  /-- In one slot elements lie one behind the other. -/
  ordered : (fed.flatMap FedMember.sizedRows).Pairwise fun x y => x.1.slot = y.1.slot →
    x.1.offset < y.1.offset ∧ x.1.offset + x.2 ≤ y.1.offset
  /-- A vertex input with a single slot is fed as it is laid out. -/
  own_offsets : a.kind = .vertexInput → (∀ m ∈ a.members, ∀ n ∈ a.members, m.slot = n.slot) →
    ∀ f ∈ fed, ∀ (r : Nat) (e : InputElement), f.rows[r]? = some e →
      e.offset = f.member.placement.offset + r * f.rowSize

/-! ## Rows of a member -/

theorem ShaderType.rowSize_pos (t : ShaderType) : 0 < t.size / t.rows := by
  rcases t with ⟨scalar, width⟩ | _
  · cases width <;> simp [size, rows, Width.count]
  · decide

theorem ShaderType.rows_pos (t : ShaderType) : 0 < t.rows := by cases t <;> simp [rows]

namespace InputLayout

/-- A member that lies at `base`, with its elements. -/
def feed (m : Member) (base : Nat) : FedMember := ⟨m, base, rows m base⟩

/-- Members with their offsets and elements, where `free s` is the first free byte of slot `s`. -/
def feedAll (free : Nat → Nat) (ms : List Member) : List FedMember :=
  (ms.zip (offsets free ms)).map fun p => feed p.1 p.2

theorem rowByRow_feed (m : Member) (base : Nat) : (feed m base).RowByRow := by
  have hrows := m.type.rows_pos
  have hmem {e : InputElement} (he : e ∈ (feed m base).rows) : e.format = m.type.format ∧
      e.slot = m.slot ∧ e.stepMode = (if m.stepRate.isSome then .perInstance else .perVertex) ∧
      e.stepRate = m.stepRate.getD 0 := by
    obtain ⟨r, -, rfl⟩ := List.mem_map.1 he
    exact ⟨rfl, rfl, rfl, rfl⟩
  refine ⟨?_, fun e he => (hmem he).1, fun e he => (hmem he).2.1, ?_, ?_, ?_⟩
  · simp only [feed, rows, List.length_map, List.length_range]
    omega
  · intro (hnone : m.stepRate = none) e he
    obtain ⟨-, -, hmode, hrate⟩ := hmem he
    simpa [hnone] using And.intro hmode hrate
  · intro rate (hsome : m.stepRate = some rate) e he
    obtain ⟨-, -, hmode, hrate⟩ := hmem he
    simpa [hsome] using And.intro hmode hrate
  · intro r e he
    simp only [feed, rows, List.getElem?_map, Option.map_eq_some_iff] at he
    obtain ⟨row, hrow, rfl⟩ := he
    obtain ⟨-, rfl⟩ := List.getElem?_eq_some_iff.1 hrow
    simp [feed, FedMember.rowSize]

/-- Rows lie one behind the other. -/
theorem ordered_feed (m : Member) (base : Nat) :
    (feed m base).sizedRows.Pairwise fun x y =>
      x.1.offset < y.1.offset ∧ x.1.offset + x.2 ≤ y.1.offset := by
  simp only [FedMember.sizedRows, feed, rows, List.pairwise_map]
  refine List.pairwise_lt_range.imp fun {r r'} hlt => ?_
  have hpos := m.type.rowSize_pos
  have hle : (r + 1) * (m.type.size / m.type.rows) ≤ r' * (m.type.size / m.type.rows) :=
    Nat.mul_le_mul_right _ hlt
  rw [Nat.add_mul, Nat.one_mul] at hle
  simp only [FedMember.rowSize]
  omega

/-- Rows lie inside the member. -/
theorem inside_feed {m : Member} {base : Nat} {x : InputElement × Nat}
    (hx : x ∈ (feed m base).sizedRows) : x.1.slot = m.slot ∧ base ≤ x.1.offset ∧
      x.1.offset + x.2 ≤ base + m.type.size ∧ 0 < x.2 := by
  simp only [FedMember.sizedRows, feed, rows, List.mem_map, List.mem_range] at hx
  obtain ⟨e, ⟨r, hr, rfl⟩, rfl⟩ := hx
  have hle : (r + 1) * (m.type.size / m.type.rows) ≤ m.type.size :=
    (Nat.mul_le_mul_right _ hr).trans (Nat.mul_div_le m.type.size m.type.rows)
  rw [Nat.add_mul, Nat.one_mul] at hle
  refine ⟨rfl, Nat.le_add_right _ _, ?_, m.type.rowSize_pos⟩
  simp only [FedMember.rowSize]
  omega

theorem feedAll_cons (free : Nat → Nat) (m : Member) (ms : List Member) :
    feedAll free (m :: ms) = feed m (Layout.start .vertexInput (free m.slot) m.extent) ::
      feedAll (fun s => if s = m.slot then
        Layout.start .vertexInput (free m.slot) m.extent + m.type.size else free s) ms := rfl

/-- No element lies before the first free byte of its slot. -/
theorem free_le_offset {free : Nat → Nat} {ms : List Member} {x : InputElement × Nat}
    (hx : x ∈ (feedAll free ms).flatMap FedMember.sizedRows) : free x.1.slot ≤ x.1.offset := by
  induction ms generalizing free with
  | nil => simp [feedAll] at hx
  | cons m ms ih =>
    have hstart := Layout.le_start .vertexInput (free m.slot) m.extent
    rw [feedAll_cons, List.flatMap_cons, List.mem_append] at hx
    rcases hx with hx | hx
    · obtain ⟨hslot, hle, -, -⟩ := inside_feed hx
      rw [hslot]
      omega
    · have hle := ih hx
      split_ifs at hle with hslot
      · rw [hslot]
        omega
      · exact hle

theorem ordered_feedAll (free : Nat → Nat) (ms : List Member) :
    ((feedAll free ms).flatMap FedMember.sizedRows).Pairwise fun x y => x.1.slot = y.1.slot →
      x.1.offset < y.1.offset ∧ x.1.offset + x.2 ≤ y.1.offset := by
  induction ms generalizing free with
  | nil => exact .nil
  | cons m ms ih =>
    rw [feedAll_cons, List.flatMap_cons, List.pairwise_append]
    refine ⟨List.Pairwise.imp ?_ (ordered_feed m _), ih _, ?_⟩
    · intro x y h _
      exact h
    · intro x hx y hy hslot
      obtain ⟨hxslot, -, hend, hpos⟩ := inside_feed hx
      -- The free byte of the slot has moved behind the member.
      have hfree := free_le_offset hy
      rw [if_pos (hslot.symm.trans hxslot)] at hfree
      omega

end InputLayout

/-! ## Entries of catalogs -/

namespace Catalog

/-- A catalog that is built up header by header, whether they fail or not. -/
inductive Reachable : Catalog → Prop where
  | empty : Reachable .empty
  | extend {c : Catalog} (kind : Kind) (ds : List Declaration) : Reachable c →
      Reachable (c.extend kind ds).1

theorem Reachable.laidOut {c : Catalog} (h : c.Reachable) : ∀ a ∈ c.entries, a.LaidOut := by
  induction h with
  | empty => simp [Catalog.empty]
  | extend kind ds _ ih =>
    intro a ha
    rcases mem_extend ha with ha | ⟨d, base, -, hres⟩
    · exact ih a ha
    · exact laidOut_of_resolve hres

end Catalog

/-- The members of a single slot lie there as they do in the aggregate. -/
theorem Aggregate.LaidOut.offsets_eq {a : Aggregate} (h : a.LaidOut) (hkind : a.kind = .vertexInput)
    (hslot : ∀ m ∈ a.members, ∀ n ∈ a.members, m.slot = n.slot) :
    InputLayout.offsets (fun _ => 0) a.members = a.members.map fun m => m.placement.offset := by
  have hplaced : a.members.map (fun m => m.placement.offset) =
      (Layout.place .vertexInput 0 (a.members.map Member.extent)).map Placement.offset := by
    rw [← hkind, ← h.placements, List.map_map]
    rfl
  have hlength := InputLayout.length_offsets a.members fun _ => 0
  rw [hplaced]
  cases hmembers : a.members with
  | nil => rfl
  | cons first ms =>
    have hall : ∀ m ∈ a.members, m.slot = first.slot := fun m hm =>
      hslot m hm first (by simp [hmembers])
    have hoffsets := InputLayout.offsets_of_slot first.slot a.members fun _ => 0
    have hpairs : (a.members.zip (InputLayout.offsets (fun _ => 0) a.members)).filter
        (fun p => p.1.slot = first.slot) =
          a.members.zip (InputLayout.offsets (fun _ => 0) a.members) :=
      List.filter_eq_self.2 fun p hp => by simpa using hall p.1 (List.of_mem_zip hp).1
    rw [hpairs, List.filter_eq_self.2 (by simpa using hall), List.map_snd_zip hlength.le] at hoffsets
    rw [← hmembers, hoffsets]

/-- **The elements of an aggregate lie slot by slot as the layout of a vertex input says.** This holds
of every entry of every catalog, whatever its kind and its alignment are. -/
theorem Catalog.Reachable.fedBySlot {c : Catalog} (hc : c.Reachable) {a : Aggregate}
    (ha : a ∈ c.entries) : ∃ fed, a.FedBySlot fed := by
  have hlength := InputLayout.length_offsets a.members fun _ => 0
  have hbases : (InputLayout.feedAll (fun _ => 0) a.members).map FedMember.base =
      InputLayout.offsets (fun _ => 0) a.members := by
    rw [InputLayout.feedAll, List.map_map]
    exact List.map_snd_zip hlength.le
  refine ⟨InputLayout.feedAll (fun _ => 0) a.members, ⟨?_, ?_, ?_, ?_, ?_, ?_, ?_⟩⟩
  · rw [InputLayout.feedAll, List.map_map]
    exact List.map_fst_zip hlength.ge
  · rw [InputLayout.feedAll, List.flatMap_def, List.map_map, Aggregate.inputElements,
      ← List.map_uncurry_zip_eq_zipWith]
    rfl
  · intro f hf
    obtain ⟨p, -, rfl⟩ := List.mem_map.1 hf
    exact InputLayout.rowByRow_feed p.1 p.2
  · intro slot
    rw [InputLayout.feedAll, List.filter_map, List.map_map]
    exact InputLayout.offsets_of_slot slot a.members fun _ => 0
  · intro order horder
    rw [hbases, InputLayout.gather_eq horder]
  · exact InputLayout.ordered_feedAll _ _
  · intro hkind hslot f hf r e he
    have hoffsets := (hc.laidOut a ha).offsets_eq hkind hslot
    rw [InputLayout.feedAll, hoffsets, ← List.map_prod_left_eq_zip, List.map_map] at hf
    obtain ⟨m, -, rfl⟩ := List.mem_map.1 hf
    exact (InputLayout.rowByRow_feed m m.placement.offset).offset_eq r e he

theorem Session.reachable_after {options : EmitOptions} {actions : List Action} {c : Catalog}
    (hc : (after options actions).catalog? = some c) : c.Reachable := by
  refine catalog_induction .empty ?_ hc
  intro source kind c ds c' _ ih _ hext
  have hreach := Catalog.Reachable.extend kind ds ih
  rwa [hext] at hreach

/-- Two slots that take turns, with a matrix in the second one. -/
theorem Catalog.Reachable.fedBySlot_interleaved :
    ∃ c a, (Session.after {} [.append "struct alignas(64) V { float3 p;
          matrix w REGISTER(1) INSTANCE_DATA(1); float2 t; float s REGISTER(1); };"
          .vertexInput]).catalog? = some c ∧
      a ∈ c.entries ∧ a.inputElements.map (fun e => (e.slot, e.offset)) =
        [(0, 0), (1, 0), (1, 16), (1, 32), (1, 48), (0, 16), (1, 64)] ∧
      ∃ fed, a.FedBySlot fed := by
  generalize hactions : [Session.Action.append "struct alignas(64) V { float3 p;
          matrix w REGISTER(1) INSTANCE_DATA(1); float2 t; float s REGISTER(1); };"
          .vertexInput] = actions
  have hentry : ((Session.after {} actions).catalog?.bind fun c => c.entries.head?).map
      (fun a => a.inputElements.map fun e => (e.slot, e.offset)) =
        some [(0, 0), (1, 0), (1, 16), (1, 32), (1, 48), (0, 16), (1, 64)] := by
    rw [← hactions]
    decide +kernel
  obtain ⟨a, hfirst, hvalues⟩ := Option.map_eq_some_iff.1 hentry
  obtain ⟨c, hc, hhead⟩ := Option.bind_eq_some_iff.1 hfirst
  have ha : a ∈ c.entries := List.mem_of_mem_head? hhead
  exact ⟨c, a, hc, ha, hvalues, (Session.reachable_after hc).fedBySlot ha⟩

end ShaderInterface
