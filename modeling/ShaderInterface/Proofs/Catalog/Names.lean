import ShaderInterface.Proofs.Catalog.Entries
import ShaderInterface.Proofs.Declaration.Headers
import Mathlib.Data.List.TakeWhile

/-!
# Names and positions of catalog entries

Every entry of a catalog is found by its short and by its qualified name, and by no other entry's
names. One table holds both sorts of names and only the short name is looked up before an entry is
added, so the argument is about which names can coincide: a short name has no colon, hence it is what
stands behind the last colon of either name (`Aggregate.Called.lastSegment`), and two entries with
a common name would have the same short name.

`Catalog.Kept` is what holds between two declarations. Adding a declaration keeps it, whether the
header it belongs to is added in full or fails further on.
-/
namespace ShaderInterface

/-! ## Short and qualified names -/

/-- What stands behind the last colon of a name. -/
def lastSegment (name : String) : List Char :=
  (name.toList.reverse.takeWhile (· != ':')).reverse

/-- In front of the short name of a qualified one is nothing, or something that ends in a colon. -/
theorem toList_qualify (path : List String) (name : String) :
    (qualify path name).toList = name.toList ∨
      ∃ front, (qualify path name).toList = front ++ ':' :: name.toList := by
  induction path with
  | nil => exact .inl rfl
  | cons s path ih =>
    have hjoin : qualify (s :: path) name = s ++ "::" ++ qualify path name := by
      cases path <;> rfl
    rw [hjoin]
    rcases ih with hname | ⟨front, hfront⟩
    · exact .inr ⟨s.toList ++ [':'], by simp [hname]⟩
    · exact .inr ⟨s.toList ++ [':', ':'] ++ front, by simp [hfront]⟩

theorem lastSegment_qualify (path : List String) {name : String} (h : ':' ∉ name.toList) :
    lastSegment (qualify path name) = name.toList := by
  have hname : ∀ c ∈ name.toList.reverse, (c != ':') = true := by
    intro c hc
    have hne : c ≠ ':' := by
      rintro rfl
      exact h (List.mem_reverse.1 hc)
    simpa using hne
  unfold lastSegment
  rcases toList_qualify path name with hchars | ⟨front, hchars⟩
  · rw [hchars, List.takeWhile_eq_self_iff.2 hname, List.reverse_reverse]
  · rw [hchars, List.reverse_append, List.reverse_cons, List.append_assoc,
      List.takeWhile_append_of_pos hname]
    simp

namespace Aggregate

/-- `s` is the short or the qualified name of the aggregate. -/
def Called (a : Aggregate) (s : String) : Prop := s = a.name ∨ s = a.qualified

/-- The short name has no colon, and the qualified name is the short name behind a path. -/
def WellNamed (a : Aggregate) : Prop :=
  ':' ∉ a.name.toList ∧ ∃ path, a.qualified = qualify path a.name

/-- Both names of an aggregate give away its short name. -/
theorem Called.lastSegment {a : Aggregate} {s : String} (h : a.Called s) (hnamed : a.WellNamed) :
    lastSegment s = a.name.toList := by
  obtain ⟨hcolon, path, hpath⟩ := hnamed
  rcases h with rfl | rfl
  · exact lastSegment_qualify [] hcolon
  · rw [hpath]
    exact lastSegment_qualify path hcolon

theorem name_eq_of_called {a b : Aggregate} {s : String} (ha : a.WellNamed) (hb : b.WellNamed)
    (has : a.Called s) (hbs : b.Called s) : a.name = b.name := by
  have := (has.lastSegment ha).symm.trans (hbs.lastSegment hb)
  exact String.toList_inj.1 this

end Aggregate

/-! ## The table of names -/

namespace Catalog

/-- What holds of a catalog between two declarations. -/
structure Kept (c : Catalog) : Prop where
  tag_eq : ∀ (i : Nat) (a : Aggregate), c.entries[i]? = some a → a.tag = i
  wellNamed : ∀ a ∈ c.entries, a.WellNamed
  nodup : (c.entries.map Aggregate.name).Nodup
  /-- A name leads to a position if the entry there is called so. -/
  lookup_iff : ∀ (s : String) (i : Nat),
    c.names.lookup s = some i ↔ ∃ a, c.entries[i]? = some a ∧ a.Called s

theorem kept_empty : empty.Kept where
  tag_eq := by simp [empty]
  wellNamed := by simp [empty]
  nodup := by simp [empty]
  lookup_iff := by simp [empty]

section
variable {c : Catalog}

theorem Kept.find?_eq_some_iff (h : c.Kept) {s : String} {a : Aggregate} :
    c.find? s = some a ↔ a ∈ c.entries ∧ a.Called s := by
  unfold find?
  rw [Option.bind_eq_some_iff]
  constructor
  · rintro ⟨i, hi, ha⟩
    obtain ⟨b, hb, hcalled⟩ := (h.lookup_iff s i).1 hi
    obtain rfl : b = a := by simpa [hb] using ha
    exact ⟨List.mem_of_getElem? ha, hcalled⟩
  · rintro ⟨ha, hcalled⟩
    obtain ⟨i, hi⟩ := List.mem_iff_getElem?.1 ha
    exact ⟨i, (h.lookup_iff s i).2 ⟨a, hi, hcalled⟩, hi⟩

/-- No two positions hold entries with a common name. -/
theorem Kept.called_unique (h : c.Kept) {s : String} {i j : Nat} {a b : Aggregate}
    (ha : c.entries[i]? = some a) (hb : c.entries[j]? = some b) (has : a.Called s)
    (hbs : b.Called s) : i = j := by
  have hname := Aggregate.name_eq_of_called (h.wellNamed a (List.mem_of_getElem? ha))
    (h.wellNamed b (List.mem_of_getElem? hb)) has hbs
  have hi : i < (c.entries.map Aggregate.name).length := by
    obtain ⟨hi, -⟩ := List.getElem?_eq_some_iff.1 ha
    simpa using hi
  refine (List.getElem?_inj hi h.nodup).1 ?_
  simp [List.getElem?_map, ha, hb, hname]

theorem Kept.ofTag?_eq (h : c.Kept) (i : Nat) : c.ofTag? i = c.entries[i]? := by
  unfold ofTag?
  cases hi : c.entries[i]? with
  | none => rfl
  | some a => simp [Option.filter, h.tag_eq i a hi]

/-- A short name leads to the entry with this short name, also if it is found by its qualified
name. -/
theorem Kept.name_of_find? (h : c.Kept) {s : String} (hs : ':' ∉ s.toList) {a : Aggregate}
    (hfind : c.find? s = some a) : a ∈ c.entries ∧ a.name = s := by
  obtain ⟨ha, hcalled⟩ := h.find?_eq_some_iff.1 hfind
  refine ⟨ha, String.toList_inj.1 ?_⟩
  rw [← hcalled.lastSegment (h.wellNamed a ha)]
  exact lastSegment_qualify [] hs

/-- A name that leads nowhere is the short name of no entry. -/
theorem Kept.name_ne (h : c.Kept) {s : String} (hs : c.find? s = none) :
    ∀ a ∈ c.entries, a.name ≠ s := by
  rintro a ha rfl
  have := h.find?_eq_some_iff.2 ⟨ha, .inl rfl⟩
  simp [hs] at this

/-- A short name that no entry has leads nowhere. -/
theorem Kept.find?_eq_none (h : c.Kept) {s : String} (hs : ':' ∉ s.toList)
    (hnew : s ∉ c.entries.map Aggregate.name) : c.find? s = none := by
  cases hfind : c.find? s with
  | none => rfl
  | some a =>
    obtain ⟨ha, rfl⟩ := h.name_of_find? hs hfind
    exact absurd (List.mem_map_of_mem ha) hnew

theorem getElem?_push_entries {a b : Aggregate} {i : Nat} :
    (c.push a).entries[i]? = some b ↔ c.entries[i]? = some b ∨ i = c.size ∧ b = a := by
  change (c.entries ++ [a])[i]? = some b ↔ _
  rw [List.getElem?_append, size]
  split_ifs with hi
  · have : i ≠ c.entries.length := by omega
    simp [this]
  · have hnone : c.entries[i]? = none := List.getElem?_eq_none (by omega)
    by_cases hsize : i = c.entries.length
    · simp [hsize, eq_comm]
    · have hpast : [a][i - c.entries.length]? = none :=
        List.getElem?_eq_none (by simp; omega)
      simp [hnone, hsize, hpast]

theorem lookup_push {a : Aggregate} {s : String} {i : Nat} :
    (c.push a).names.lookup s = some i ↔
      a.Called s ∧ i = c.size ∨ ¬a.Called s ∧ c.names.lookup s = some i := by
  change List.lookup s ((a.qualified, c.size) :: (a.name, c.size) :: c.names) = some i ↔ _
  unfold Aggregate.Called
  by_cases hqualified : s = a.qualified
  · simp [hqualified, eq_comm]
  · have hbeq : (s == a.qualified) = false := by simpa using hqualified
    rw [List.lookup_cons, hbeq]
    by_cases hname : s = a.name
    · simp [hname, eq_comm]
    · have hbeq : (s == a.name) = false := by simpa using hname
      simp [List.lookup_cons, hbeq, hqualified, hname]

/-- Adding an entry under a new short name. Its qualified name is new as well, because what is called
by it has the same short name. -/
theorem Kept.push (h : c.Kept) {a : Aggregate} (htag : a.tag = c.size) (hnamed : a.WellNamed)
    (hnew : c.find? a.name = none) : (c.push a).Kept := by
  have hne := h.name_ne hnew
  refine ⟨?_, ?_, ?_, ?_⟩
  · intro i b hb
    rcases getElem?_push_entries.1 hb with hb | ⟨rfl, rfl⟩
    · exact h.tag_eq i b hb
    · exact htag
  · intro b hb
    rcases List.mem_append.1 hb with hb | hb
    · exact h.wellNamed b hb
    · obtain rfl : b = a := by simpa using hb
      exact hnamed
  · change ((c.entries ++ [a]).map Aggregate.name).Nodup
    rw [List.map_append, List.nodup_append]
    refine ⟨h.nodup, by simp, ?_⟩
    intro x hx y hy
    obtain ⟨b, hb, rfl⟩ := List.mem_map.1 hx
    obtain rfl : y = a.name := by simpa using hy
    exact hne b hb
  · intro s i
    -- A name of `a` is no name of an entry before it.
    have hold : a.Called s → ∀ b ∈ c.entries, ¬b.Called s := by
      intro has b hb hbs
      exact hne b hb (Aggregate.name_eq_of_called (h.wellNamed b hb) hnamed hbs has)
    rw [lookup_push]
    constructor
    · rintro (⟨has, rfl⟩ | ⟨-, hi⟩)
      · exact ⟨a, getElem?_push_entries.2 (.inr ⟨rfl, rfl⟩), has⟩
      · obtain ⟨b, hb, hbs⟩ := (h.lookup_iff s i).1 hi
        exact ⟨b, getElem?_push_entries.2 (.inl hb), hbs⟩
    · rintro ⟨b, hb, hbs⟩
      rcases getElem?_push_entries.1 hb with hb | ⟨rfl, rfl⟩
      · have has : ¬a.Called s := fun has => hold has b (List.mem_of_getElem? hb) hbs
        exact .inr ⟨has, (h.lookup_iff s i).2 ⟨b, hb, hbs⟩⟩
      · exact .inl ⟨hbs, rfl⟩

end

/-! ## Adding declarations -/

section
variable {c mid : Catalog} {kind : Kind} {ds : List Declaration}

theorem Kept.declare (h : c.Kept) {d : Declaration}
    (hd : ∀ decl, d = .aggregate decl → ':' ∉ decl.name.toList) {c' : Catalog}
    (hdecl : c.declare kind d = .ok c') : c'.Kept := by
  obtain ⟨_, _, aliases, -, -, rfl⟩ | ⟨decl, a, rfl, hres, hnew, rfl⟩ := declare_cases hdecl
  · exact ⟨h.tag_eq, h.wellNamed, h.nodup, h.lookup_iff⟩
  · obtain ⟨members, -, rfl⟩ := resolve_eq_ok_iff.1 hres
    exact h.push rfl ⟨hd decl rfl, decl.path, rfl⟩ hnew

theorem Kept.reaches (h : c.Kept) (hreach : Reaches kind c ds mid)
    (hds : ∀ d, .aggregate d ∈ ds → ':' ∉ d.name.toList) : mid.Kept := by
  induction hreach with
  | nil => exact h
  | cons hdecl _ ih =>
    refine ih (h.declare ?_ hdecl) fun d hd => hds d (List.mem_cons_of_mem _ hd)
    rintro d rfl
    exact hds d List.mem_cons_self

/-- Adding a header keeps the catalog in order, also if the header fails further on. -/
theorem Kept.extend (h : c.Kept) (hds : ∀ d, .aggregate d ∈ ds → ':' ∉ d.name.toList) :
    (c.extend kind ds).1.Kept := by
  rcases extend_cases kind ds c with
    ⟨mid, hreach, hext⟩ | ⟨before, d, behind, mid, e, rfl, hreach, -, hext⟩
  · have hmid := h.reaches hreach hds
    rw [hext]
    exact ⟨hmid.tag_eq, hmid.wellNamed, hmid.nodup, hmid.lookup_iff⟩
  · rw [hext]
    exact h.reaches hreach fun d hd => hds d (List.mem_append_left _ hd)

theorem Reaches.entries_prefix (h : Reaches kind c ds mid) : c.entries <+: mid.entries := by
  obtain ⟨added, hentries, -⟩ := h.entries_eq
  exact ⟨added, hentries.symm⟩

/-- Entries stay where they are. -/
theorem entries_prefix_extend (c : Catalog) (kind : Kind) (ds : List Declaration) :
    c.entries <+: (c.extend kind ds).1.entries := by
  rcases extend_cases kind ds c with
    ⟨mid, hreach, hext⟩ | ⟨before, d, behind, mid, e, rfl, hreach, -, hext⟩
  · rw [hext]
    exact hreach.entries_prefix
  · rw [hext]
    exact hreach.entries_prefix

end

end Catalog

/-- The type of a field is known, and its semantic can be written if it needs one. -/
def FieldDecl.Resolves (aliases : AliasTable) (kind : Kind) (f : FieldDecl) : Prop :=
  ∃ name type, aliases.resolve? f.type = some name ∧ ShaderType.ofName? name = some type ∧
    (kind = .vertexInput → Semantic.isUsable (f.semantic?.getD (Semantic.derive f.name)) = true)

theorem resolveFields_of_resolves {aliases : AliasTable} {kind : Kind} (aggregate : String) :
    ∀ {fs : List FieldDecl}, (∀ f ∈ fs, f.Resolves aliases kind) →
      ∃ ms, resolveFields aliases kind aggregate fs = .ok ms
  | [], _ => ⟨[], rfl⟩
  | f :: fs, h => by
    obtain ⟨name, type, hname, htype, hsemantic⟩ := h f List.mem_cons_self
    obtain ⟨ms, hms⟩ := resolveFields_of_resolves aggregate fun g hg =>
      h g (List.mem_cons_of_mem f hg)
    have hm : ∃ m, f.resolve aliases kind aggregate = .ok m := by
      unfold FieldDecl.resolve
      simp only [hname, htype]
      rw [if_neg]
      · exact ⟨_, rfl⟩
      · rintro ⟨hkind, hunusable⟩
        simp [Member.semantic, hsemantic hkind] at hunusable
    obtain ⟨m, hm⟩ := hm
    exact ⟨m :: ms, by simp [resolveFields, hm, hms]⟩

namespace Catalog

theorem insert_of_find?_some {c : Catalog} {a first : Aggregate} (h : c.find? a.name = some first) :
    c.insert a = .error (.duplicateType a.name a.location first.location) := by
  simp [insert, h]

theorem insert_of_find?_none {c : Catalog} {a : Aggregate} (h : c.find? a.name = none) :
    c.insert a = .ok (c.push a) := by
  simp [insert, h]

/-- A struct that is reached and whose fields resolve fails if its short name is taken, and is added
otherwise. -/
theorem Kept.extend_aggregate {c mid : Catalog} {kind : Kind} {before behind : List Declaration}
    {d : StructDecl} (hmid : mid.Kept) (hd : ':' ∉ d.name.toList)
    (hreach : Reaches kind c before mid) (hfields : ∀ f ∈ d.fields, f.Resolves mid.aliases kind) :
    (∃ first ∈ mid.entries, first.name = d.name ∧ c.extend kind (before ++ .aggregate d :: behind) =
      (mid, some (.duplicateType d.name d.location first.location))) ∨
    (∀ a ∈ mid.entries, a.name ≠ d.name) ∧ ∃ a, mid.resolve kind d = .ok a ∧
      c.extend kind (before ++ .aggregate d :: behind) = (mid.push a).extend kind behind := by
  obtain ⟨members, hmembers⟩ := resolveFields_of_resolves d.name hfields
  generalize ha : mid.aggregateOf kind d members = a
  have hres : mid.resolve kind d = .ok a := resolve_eq_ok_iff.2 ⟨members, hmembers, ha.symm⟩
  have hname : a.name = d.name := ha ▸ rfl
  have hlocation : a.location = d.location := ha ▸ rfl
  rw [hreach.extend, ← hname, ← hlocation]
  cases hfind : mid.find? a.name with
  | some first =>
    obtain ⟨hfirst, hsame⟩ := hmid.name_of_find? (hname ▸ hd) hfind
    refine .inl ⟨first, hfirst, hsame, ?_⟩
    simp [Catalog.extend, Catalog.declare, hres, insert_of_find?_some hfind]
  | none =>
    refine .inr ⟨hmid.name_ne hfind, a, hres, ?_⟩
    simp [Catalog.extend, Catalog.declare, hres, insert_of_find?_none hfind]

/-! ## Headers one after the other -/

/-- The catalog after a header was added; what was added before a declaration failed stays. -/
def addHeader (c : Catalog) (header : String × Kind) : Catalog :=
  match readHeader header.1 with
  | .error _ => c
  | .ok ds => (c.extend header.2 ds).1

/-- The catalog after headers were added to an empty one, each for its kind. -/
def ofHeaders (headers : List (String × Kind)) : Catalog := headers.foldl addHeader empty

theorem colon_not_mem_name {source : String} {ds : List Declaration} {d : StructDecl}
    (hread : readHeader source = .ok ds) (hd : .aggregate d ∈ ds) : ':' ∉ d.name.toList := by
  intro hcolon
  have hname := (identifierAt_of_readHeader hread hd).1.isName
  have : Text.isWordChar ':' = true := isWordChar_of_isName hname ':' hcolon
  exact absurd this (by decide)

theorem Kept.addHeader {c : Catalog} (h : c.Kept) (header : String × Kind) :
    (c.addHeader header).Kept := by
  unfold Catalog.addHeader
  split
  · exact h
  · next ds hread => exact h.extend fun d hd => colon_not_mem_name hread hd

theorem kept_ofHeaders (headers : List (String × Kind)) : (ofHeaders headers).Kept :=
  List.foldlRecOn headers addHeader kept_empty fun _ h header _ => h.addHeader header

/-- Names and positions lead to entries, each to its own. -/
structure Indexed (c : Catalog) : Prop where
  tag_eq : ∀ (i : Nat) (a : Aggregate), c.entries[i]? = some a → a.tag = i
  names_nodup : (c.entries.map Aggregate.name).Nodup
  find?_iff : ∀ (s : String) (a : Aggregate), c.find? s = some a ↔
    a ∈ c.entries ∧ (s = a.name ∨ s = a.qualified)
  /-- At most one position holds an entry with a given name. -/
  unique : ∀ (s : String) (i j : Nat) (a b : Aggregate), c.entries[i]? = some a →
    c.entries[j]? = some b → (s = a.name ∨ s = a.qualified) → (s = b.name ∨ s = b.qualified) → i = j
  ofTag?_eq : ∀ i : Nat, c.ofTag? i = c.entries[i]?

/-- **However headers are added, names and positions of entries stay in order.** An entry is never
changed or moved, and a struct whose fields resolve fails exactly if its short name is taken. -/
theorem indexed_ofHeaders (headers : List (String × Kind)) :
    (ofHeaders headers).Indexed ∧
    (∀ kind ds, (ofHeaders headers).entries <+: ((ofHeaders headers).extend kind ds).1.entries) ∧
    ∀ source kind before d behind mid, readHeader source = .ok (before ++ .aggregate d :: behind) →
      Reaches kind (ofHeaders headers) before mid →
      (∀ f ∈ d.fields, f.Resolves mid.aliases kind) →
      (∃ first ∈ mid.entries, first.name = d.name ∧
        (ofHeaders headers).extend kind (before ++ .aggregate d :: behind) =
          (mid, some (.duplicateType d.name d.location first.location))) ∨
      (∀ a ∈ mid.entries, a.name ≠ d.name) ∧ ∃ a, mid.resolve kind d = .ok a ∧
        (ofHeaders headers).extend kind (before ++ .aggregate d :: behind) =
          (mid.push a).extend kind behind := by
  have h := kept_ofHeaders headers
  refine ⟨⟨h.tag_eq, h.nodup, ?_, ?_, h.ofTag?_eq⟩, ?_, ?_⟩
  · intro s a
    exact h.find?_eq_some_iff
  · intro s i j a b ha hb has hbs
    exact h.called_unique ha hb has hbs
  · intro kind ds
    exact entries_prefix_extend _ kind ds
  · intro source kind before d behind mid hread hreach hfields
    have hmid : mid.Kept := by
      refine h.reaches hreach fun d' hd' => colon_not_mem_name hread ?_
      exact List.mem_append_left _ hd'
    have hd : ':' ∉ d.name.toList := colon_not_mem_name hread (by simp)
    exact hmid.extend_aggregate hd hreach hfields

/-- A struct in a namespace, kept although its header fails behind it, stands in the way of another
struct with its short name. -/
theorem indexed_ofHeaders_duplicate :
    let c := ofHeaders
      [("namespace N { struct A { float x; }; } struct B { T y; };", .vertexInput)]
    let d : StructDecl :=
      ⟨"A", [], none, none, [⟨"z", ⟨["float"], ⟨11, 1, 12⟩⟩, [], ⟨17, 1, 18⟩⟩], ⟨7, 1, 8⟩⟩
    readHeader "struct A { float z; };" = .ok [.aggregate d] ∧
    ∃ first ∈ c.entries, first.location = ⟨21, 1, 22⟩ ∧ c.find? "N::A" = some first ∧
      c.extend .constantBuffer [.aggregate d] =
        (c, some (.duplicateType "A" ⟨7, 1, 8⟩ first.location)) := by
  intro c d
  have hread : readHeader "struct A { float z; };" = .ok [.aggregate d] := by decide +kernel
  have hentries : c.entries.map (fun a => (a.name, a.qualified, a.location)) =
      [("A", "N::A", ⟨21, 1, 22⟩)] := by
    decide +kernel
  have hfields : ∀ f ∈ d.fields, f.Resolves c.aliases .constantBuffer := by
    intro f hf
    obtain rfl : f = ⟨"z", ⟨["float"], ⟨11, 1, 12⟩⟩, [], ⟨17, 1, 18⟩⟩ := by simpa [d] using hf
    exact ⟨"float", .vector .float .one, by decide +kernel, by decide +kernel, by simp⟩
  obtain ⟨hindexed, -, hstruct⟩ := indexed_ofHeaders
    [("namespace N { struct A { float x; }; } struct B { T y; };", .vertexInput)]
  refine ⟨hread, ?_⟩
  rcases hstruct _ .constantBuffer [] d [] c hread .nil hfields with
    ⟨first, hfirst, -, hext⟩ | ⟨hnone, -⟩
  · have hvalues : (first.name, first.qualified, first.location) = ("A", "N::A", ⟨21, 1, 22⟩) := by
      have := List.mem_map_of_mem (f := fun a : Aggregate => (a.name, a.qualified, a.location)) hfirst
      rw [hentries] at this
      exact List.mem_singleton.1 this
    simp only [Prod.mk.injEq] at hvalues
    obtain ⟨-, hqualified, hlocation⟩ := hvalues
    exact ⟨first, hfirst, hlocation,
      (hindexed.find?_iff "N::A" first).2 ⟨hfirst, .inr hqualified.symm⟩, hext⟩
  · have hmem : ("A", "N::A", (⟨21, 1, 22⟩ : Location)) ∈
        c.entries.map fun a => (a.name, a.qualified, a.location) := by
      rw [hentries]
      exact List.mem_singleton_self _
    obtain ⟨a, ha, hvalues⟩ := List.mem_map.1 hmem
    exact absurd (congrArg Prod.fst hvalues) (hnone a ha)

end Catalog

end ShaderInterface
