import ShaderInterface.Proofs.Catalog.Entries
import ShaderInterface.Proofs.Layout.Placement
import ShaderInterface.Proofs.Session.Runs

/-!
# Layouts of catalog entries

`Placed` is the invariant of the loop that places fields: each lies behind the one before it and its
own padding, at an offset its kind allows. From it follows what the layout of an aggregate promises
(`Aggregate.SoundLayout`), and every entry of every session keeps the promise.
-/
namespace ShaderInterface

/-- Members that lie one behind the other from the offset `free` on, each at an offset its kind
allows; the byte behind the last one is `last`. -/
def Placed (kind : Kind) : (free : Nat) → List Member → (last : Nat) → Prop
  | free, [], last => last = free
  | free, m :: ms, last =>
    m.placement.offset = free + m.placement.padding ∧
      Layout.Fits kind m.extent m.placement.offset ∧
      Placed kind (m.placement.offset + m.type.size) ms last

theorem placed_placeMembers (kind : Kind) : ∀ (ms : List Member) (free : Nat),
    Placed kind free (placeMembers ms (Layout.place kind free (ms.map Member.extent)))
      (Layout.endOf kind free (ms.map Member.extent))
  | [], _ => rfl
  | m :: ms, free => by
    have hle := Layout.le_start kind free m.extent
    refine ⟨?_, Layout.start_fits kind free m.extent, placed_placeMembers kind ms _⟩
    change Layout.start kind free m.extent = free + (Layout.start kind free m.extent - free)
    omega

section
variable {kind : Kind} {free last : Nat} {ms : List Member}

/-- Members and paddings account for every byte. -/
theorem Placed.last_eq : ∀ {ms : List Member} {free : Nat}, Placed kind free ms last →
    last = free + (ms.map fun m => m.type.size).sum + (ms.map fun m => m.placement.padding).sum
  | [], _, h => by simpa [Placed] using h
  | m :: ms, free, h => by
    obtain ⟨hoffset, -, htail⟩ := h
    have := htail.last_eq
    simp only [List.map_cons, List.sum_cons]
    omega

theorem Placed.first {m : Member} (h : Placed kind free ms last) (hm : ms[0]? = some m) :
    m.placement.offset = free + m.placement.padding := by
  cases ms with
  | nil => simp at hm
  | cons m' ms =>
    obtain rfl : m' = m := by simpa using hm
    exact h.1

theorem Placed.next {m n : Member} : ∀ {ms : List Member} {free i : Nat}, Placed kind free ms last →
    ms[i]? = some m → ms[i + 1]? = some n →
    n.placement.offset = m.placement.offset + m.type.size + n.placement.padding
  | [], _, _, _, hm, _ => by simp at hm
  | m' :: ms, free, 0, h, hm, hn => by
    obtain rfl : m' = m := by simpa using hm
    exact h.2.2.first (by simpa using hn)
  | m' :: ms, free, i + 1, h, hm, hn =>
    h.2.2.next (by simpa using hm) (by simpa using hn)

theorem Placed.fits {m : Member} : ∀ {ms : List Member} {free : Nat}, Placed kind free ms last →
    m ∈ ms → free ≤ m.placement.offset ∧ Layout.Fits kind m.extent m.placement.offset
  | m' :: ms, free, h, hm => by
    obtain ⟨hoffset, hfits, htail⟩ := h
    rcases List.mem_cons.1 hm with rfl | hm
    · exact ⟨by omega, hfits⟩
    · have := htail.fits hm
      exact ⟨by omega, this.2⟩

theorem Placed.disjoint : ∀ {ms : List Member} {free : Nat}, Placed kind free ms last →
    ms.Pairwise fun m n => m.placement.offset + m.type.size ≤ n.placement.offset
  | [], _, _ => .nil
  | _ :: _, _, h => .cons (fun _ hn => (h.2.2.fits hn).1) h.2.2.disjoint

end

/-! ## What the layout of an aggregate promises -/

structure Aggregate.SoundLayout (a : Aggregate) : Prop where
  /-- Fields and padding account for every byte. -/
  size_eq : a.size = (a.members.map fun m => m.type.size).sum +
    (a.members.map fun m => m.placement.padding).sum + a.tailPadding
  first : ∀ m, a.members[0]? = some m → m.placement.offset = m.placement.padding
  next : ∀ i m n, a.members[i]? = some m → a.members[i + 1]? = some n →
    n.placement.offset = m.placement.offset + m.type.size + n.placement.padding
  disjoint : a.members.Pairwise fun m n => m.placement.offset + m.type.size ≤ n.placement.offset
  aligned : a.kind ≠ .constantBuffer → ∀ m ∈ a.members, m.type.align ∣ m.placement.offset
  no_tail : a.kind ≠ .constantBuffer → a.alignment = none → a.tailPadding = 0
  /-- In a constant buffer a field of a row or more starts a row. -/
  starts_row : a.kind = .constantBuffer → ∀ m ∈ a.members, 16 ≤ m.type.size →
    16 ∣ m.placement.offset
  /-- In a constant buffer a smaller field lies inside one row. -/
  inside_row : a.kind = .constantBuffer → ∀ m ∈ a.members, m.type.size < 16 →
    ∃ row, 16 * row ≤ m.placement.offset ∧ m.placement.offset + m.type.size ≤ 16 * (row + 1)
  whole_rows : a.kind = .constantBuffer → 16 ∣ a.size
  alignment_dvd : ∀ n, a.alignment = some n → n ∣ a.size

theorem ShaderType.align_pos (t : ShaderType) : 0 < t.align := by
  rcases t with ⟨scalar, width⟩ | _
  · cases width <;> simp [align]
  · decide

theorem Catalog.soundLayout_of_resolve {c : Catalog} {kind : Kind} {d : StructDecl} {a : Aggregate}
    (h : c.resolve kind d = .ok a) (hd : ∀ n ∈ d.alignment, n.isPowerOfTwo) : a.SoundLayout := by
  unfold Catalog.resolve at h
  split at h
  · cases h
  case h_2 members _ =>
  cases h
  have hplaced := placed_placeMembers kind members 0
  -- The tail padding is a difference, so the size must not be below the end of the last field.
  have hsize :=
    Layout.le_totalSize kind d.alignment (Layout.endOf kind 0 (members.map Member.extent))
  refine ⟨?_, ?_, fun i m n => hplaced.next, hplaced.disjoint, ?_, ?_, ?_, ?_, ?_, ?_⟩
  · have hlast := hplaced.last_eq
    simp only [Layout.ofExtents]
    omega
  · intro m hm
    simpa using hplaced.first hm
  · intro hkind m hm
    exact (hplaced.fits hm).2.align_dvd hkind m.type.align_pos
  · intro hkind (halign : d.alignment = none)
    simp [Layout.ofExtents, halign, Layout.totalSize_none hkind]
  · rintro (rfl : kind = .constantBuffer) m hm hbig
    exact (hplaced.fits hm).2.starts_row hbig
  · rintro (rfl : kind = .constantBuffer) m hm hsmall
    exact (hplaced.fits hm).2.inside_row hsmall
  · rintro (rfl : kind = .constantBuffer)
    exact Layout.rowSize_dvd_totalSize hd _
  · intro n (halign : d.alignment = some n)
    simp only [Layout.ofExtents, halign]
    exact Layout.alignment_dvd_totalSize kind (hd n halign) _

/-! ## Entries and their declarations -/

theorem Layout.length_place (kind : Kind) : ∀ (fields : List Extent) (free : Nat),
    (place kind free fields).length = fields.length
  | [], _ => rfl
  | f :: fs, free => by simp [place, length_place kind fs]

/-- Placing members changes nothing but their places. -/
theorem map_placeMembers {β : Type} (f : Member → β)
    (hf : ∀ (m : Member) (p : Placement), f { m with placement := p } = f m) :
    ∀ {ms : List Member} {ps : List Placement}, ms.length = ps.length →
      (placeMembers ms ps).map f = ms.map f
  | [], _, _ => by simp [placeMembers]
  | m :: ms, p :: ps, h => by
    have htail : (placeMembers ms ps).map f = ms.map f := map_placeMembers f hf (by simpa using h)
    simpa [placeMembers, hf] using htail

theorem Catalog.resolve_declared {c : Catalog} {kind : Kind} {d : StructDecl} {a : Aggregate}
    (h : c.resolve kind d = .ok a) :
    a.alignment = d.alignment ∧ a.members.map Member.name = d.fields.map FieldDecl.name := by
  unfold Catalog.resolve at h
  split at h
  · cases h
  case h_2 members hmembers =>
  cases h
  refine ⟨rfl, ?_⟩
  rw [← resolveFields_names hmembers]
  refine map_placeMembers Member.name (fun _ _ => rfl) ?_
  simp [Layout.ofExtents, Layout.length_place]

/-- Members lie where the layout of their types puts them. -/
structure Aggregate.LaidOut (a : Aggregate) : Prop where
  placements : a.members.map Member.placement =
    Layout.place a.kind 0 (a.members.map Member.extent)
  size : a.size =
    Layout.totalSize a.kind a.alignment (Layout.endOf a.kind 0 (a.members.map Member.extent))

theorem map_placement_placeMembers : ∀ {ms : List Member} {ps : List Placement},
    ms.length = ps.length → (placeMembers ms ps).map Member.placement = ps
  | [], [], _ => rfl
  | m :: ms, p :: ps, h => by
    have htail : (placeMembers ms ps).map Member.placement = ps :=
      map_placement_placeMembers (by simpa using h)
    exact congrArg (p :: ·) htail

theorem Catalog.laidOut_of_resolve {c : Catalog} {kind : Kind} {d : StructDecl} {a : Aggregate}
    (h : c.resolve kind d = .ok a) : a.LaidOut := by
  obtain ⟨members, -, rfl⟩ := resolve_eq_ok_iff.1 h
  have hlength : members.length = (Layout.place kind 0 (members.map Member.extent)).length := by
    rw [Layout.length_place, List.length_map]
  have hextents : (placeMembers members (Layout.place kind 0 (members.map Member.extent))).map
      Member.extent = members.map Member.extent :=
    map_placeMembers Member.extent (fun _ _ => rfl) hlength
  refine ⟨?_, ?_⟩
  · exact (map_placement_placeMembers hlength).trans (congrArg _ hextents.symm)
  · exact congrArg (fun es => Layout.totalSize kind d.alignment (Layout.endOf kind 0 es)) hextents.symm

namespace Session

/-- `a` is a struct of a header that was given, with its alignment and its fields in order. -/
def Declared (actions : List Action) (a : Aggregate) : Prop :=
  ∃ source ds d, Given actions source ∧ readHeader source = .ok ds ∧ .aggregate d ∈ ds ∧
    a.alignment = d.alignment ∧ a.members.map Member.name = d.fields.map FieldDecl.name

/-- **Every entry of every session is a declared struct and keeps what its layout promises.** -/
theorem soundLayout_after (options : EmitOptions) (actions : List Action) {c : Catalog}
    (hc : (after options actions).catalog? = some c) {a : Aggregate} (ha : a ∈ c.entries) :
    Declared actions a ∧ a.SoundLayout := by
  have hall : ∀ a ∈ c.entries, Declared actions a ∧ a.SoundLayout := by
    refine catalog_induction (P := fun c => ∀ a ∈ c.entries, Declared actions a ∧ a.SoundLayout)
      ?_ ?_ hc
    · simp [Catalog.empty]
    · intro source kind c ds c' hgiven ih hread hext a ha
      have ha : a ∈ (c.extend kind ds).1.entries := by rwa [hext]
      rcases Catalog.mem_extend ha with ha | ⟨d, base, hd, hres⟩
      · exact ih a ha
      · obtain ⟨halign, hnames⟩ := Catalog.resolve_declared hres
        refine ⟨⟨source, ds, d, hgiven, hread, hd, halign, hnames⟩, ?_⟩
        exact Catalog.soundLayout_of_resolve hres (alignment_of_readHeader hread hd)
  exact hall a ha

/-- A constant buffer whose fields end at byte 100 and that is aligned to 32, added behind a header
that fails. -/
theorem soundLayout_after_alignas :
    ∃ c a, (after {} [.append "struct {}" .vertexInput,
        .append "struct alignas(32) S { float3 a; float2 b; float4x4 c; float d; };"
          .constantBuffer,
        .generate .constantBuffer]).catalog? = some c ∧
      a ∈ c.entries ∧ a.alignment = some 32 ∧ a.size = 128 ∧ a.tailPadding = 28 ∧
      a.SoundLayout := by
  generalize hactions : [Action.append "struct {}" .vertexInput,
    .append "struct alignas(32) S { float3 a; float2 b; float4x4 c; float d; };"
      .constantBuffer,
    .generate .constantBuffer] = actions
  have hentry : ((after {} actions).catalog?.bind fun c => c.entries.head?).map
      (fun a => (a.alignment, a.size, a.tailPadding)) = some (some 32, 128, 28) := by
    rw [← hactions]
    decide +kernel
  obtain ⟨a, hfirst, hvalues⟩ := Option.map_eq_some_iff.1 hentry
  obtain ⟨c, hc, hhead⟩ := Option.bind_eq_some_iff.1 hfirst
  have ha : a ∈ c.entries := List.mem_of_mem_head? hhead
  simp only [Prod.mk.injEq] at hvalues
  exact ⟨c, a, hc, ha, hvalues.1, hvalues.2.1, hvalues.2.2, (soundLayout_after {} actions hc ha).2⟩

end Session

end ShaderInterface
