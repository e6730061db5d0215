import ShaderInterface.Proofs.Catalog.Aliases
import Mathlib.Data.Finset.Card
import Mathlib.Data.Finset.Dedup

/-!
# A table of aliases and its history

A table keeps for each spelling what it stands for now. The history of definitions keeps more: every
definition that succeeded, with the name its target had at that moment. What a type stands for can
be looked up in the history, from the latest definition back, and the table gives the same answer
(`AliasTable.ofRequests_eq_history`). `Mirrors` is what ties the two together; one definition keeps
it (`Mirrors.request`), and so does any number of them.
-/
namespace ShaderInterface

namespace AliasTable

/-! ## Definitions and their history -/

/-- A definition that is asked for. -/
structure Request where
  short : String
  qualified : String
  target : TypeName
deriving DecidableEq, Repr

/-- A definition that succeeded, and the name that its target had then. -/
structure Record where
  short : String
  qualified : String
  name : String
deriving DecidableEq, Repr

/-- The definitions that succeeded, the latest first. -/
abbrev History := List Record

namespace History

/-- The name in the latest definition of a spelling. -/
def recorded? (h : History) (spelling : String) : Option String :=
  (h.find? fun r => r.short == spelling || r.qualified == spelling).map Record.name

/-- What a type stands for: the latest definition of its qualified spelling decides, else the latest
one of its last segment; a type without a definition stands for itself if it is a shader type. -/
def meaning? (h : History) (type : TypeName) : Option String :=
  (h.recorded? type.qualified).or ((h.recorded? type.base).or
    (if (ShaderType.ofName? type.qualified).isSome then some type.qualified else none))

/-- The history behind a request: it grows if the target stands for something. -/
def request (h : History) (q : Request) : History :=
  match h.meaning? q.target with
  | some name => ⟨q.short, q.qualified, name⟩ :: h
  | none => h

/-- The history of requests, in their order. -/
def ofRequests (qs : List Request) : History := qs.foldl request []

/-- Every spelling of every definition. -/
def spellings (h : History) : List String := h.flatMap fun r => [r.short, r.qualified]

theorem recorded?_cons (r : Record) (h : History) (s : String) :
    recorded? (r :: h) s =
      if s = r.qualified ∨ s = r.short then some r.name else h.recorded? s := by
  by_cases hs : s = r.qualified ∨ s = r.short
  · have hfound : (r.short == s || r.qualified == s) = true := by
      rcases hs with rfl | rfl <;> simp
    simp [recorded?, hs, hfound]
  · have hother : (r.short == s || r.qualified == s) = false := by
      simp only [not_or] at hs
      simp [Ne.symm hs.1, Ne.symm hs.2]
    simp [recorded?, hs, hother]

theorem isSome_recorded?_iff (h : History) (s : String) :
    (h.recorded? s).isSome ↔ s ∈ h.spellings := by
  induction h with
  | nil => simp [recorded?, spellings]
  | cons r h ih =>
    have hcons : spellings (r :: h) = r.short :: r.qualified :: spellings h := rfl
    rw [recorded?_cons, hcons, List.mem_cons, List.mem_cons, ← ih]
    split_ifs with hs
    · simp [hs.symm, ← or_assoc]
    · simp only [not_or] at hs
      simp [hs.1, hs.2]

end History

/-- The table behind a request. -/
def request (t : AliasTable) (q : Request) : AliasTable :=
  match t.define? q.short q.qualified q.target with
  | some (_, t') => t'
  | none => t

/-- The table of requests, in their order. -/
def ofRequests (qs : List Request) : AliasTable := qs.foldl request empty

/-! ## Spellings of a table -/

/-- The spellings that a table has, each with one name. -/
def spellings (t : AliasTable) : List String := t.entries.map Prod.fst

theorem isSome_get?_iff (t : AliasTable) (s : String) : (t.get? s).isSome ↔ s ∈ t.spellings := by
  simp [get?, spellings]

theorem nodup_spellings_insert {t : AliasTable} (h : t.spellings.Nodup) (spelling name : String) :
    (t.insert spelling name).spellings.Nodup := by
  have hothers : ((t.entries.filter fun e => e.1 != spelling).map Prod.fst).Nodup :=
    h.sublist (List.filter_sublist.map Prod.fst)
  refine List.nodup_cons.2 ⟨?_, hothers⟩
  simp

/-! ## The table mirrors the history -/

/-- The table answers from the history, has no spelling twice, and names shader types only. -/
structure Mirrors (h : History) (t : AliasTable) : Prop where
  get? : ∀ s, t.get? s = h.recorded? s
  nodup : t.spellings.Nodup
  known : ∀ r ∈ h, (ShaderType.ofName? r.name).isSome

section
variable {h : History} {t : AliasTable}

theorem mirrors_empty : Mirrors [] empty where
  get? _ := rfl
  nodup := List.nodup_nil
  known := by simp

theorem Mirrors.resolve? (hm : Mirrors h t) (type : TypeName) :
    t.resolve? type = h.meaning? type := by
  unfold AliasTable.resolve? History.meaning?
  rw [hm.get?, hm.get?]
  cases h.recorded? type.qualified with
  | some name => rfl
  | none =>
    cases h.recorded? type.base with
    | some name => rfl
    | none => rfl

theorem Mirrors.known_table (hm : Mirrors h t) : t.Known := by
  intro s name hs
  rw [hm.get?] at hs
  obtain ⟨r, hr, rfl⟩ := Option.map_eq_some_iff.1 hs
  exact hm.known r (List.mem_of_find?_eq_some hr)

theorem Mirrors.size (hm : Mirrors h t) : t.size = h.spellings.toFinset.card := by
  have hsame : t.spellings.toFinset = h.spellings.toFinset := by
    ext s
    rw [List.mem_toFinset, List.mem_toFinset, ← isSome_get?_iff, hm.get?, h.isSome_recorded?_iff]
  rw [← hsame, List.toFinset_card_of_nodup hm.nodup, spellings, List.length_map]
  rfl

/-- One definition. -/
theorem Mirrors.request (hm : Mirrors h t) (q : Request) : Mirrors (h.request q) (t.request q) := by
  have hresolve := hm.resolve? q.target
  cases hname : h.meaning? q.target with
  | none =>
    have hdef : t.define? q.short q.qualified q.target = none := by
      rw [define?, hresolve, hname, Option.map_none]
    simpa only [History.request, AliasTable.request, hname, hdef] using hm
  | some name =>
    have hdef : t.define? q.short q.qualified q.target =
        some (name, (t.insert q.short name).insert q.qualified name) := by
      rw [define?, hresolve, hname, Option.map_some]
    simp only [History.request, AliasTable.request, hname, hdef]
    refine ⟨fun s => ?_, ?_, ?_⟩
    · rw [(define?_cases hdef).2 s, History.recorded?_cons, hm.get?]
    · exact nodup_spellings_insert (nodup_spellings_insert hm.nodup _ _) _ _
    · intro r hr
      rcases List.mem_cons.1 hr with rfl | hr
      · exact hm.known_table.resolve? (hresolve.trans hname)
      · exact hm.known r hr

end

/-- Any number of definitions. -/
theorem mirrors_ofRequests (qs : List Request) : Mirrors (.ofRequests qs) (ofRequests qs) := by
  induction qs using List.reverseRecOn with
  | nil => exact mirrors_empty
  | append_singleton qs q ih =>
    rw [History.ofRequests, ofRequests, List.foldl_append, List.foldl_append]
    exact ih.request q

end AliasTable

/-! ## Fields of unknown type -/

/-- The field `f` has a type that stands for nothing, and all fields before it resolve. -/
def FirstUnknown (aliases : AliasTable) (kind : Kind) (fs : List FieldDecl) (f : FieldDecl) :
    Prop :=
  ∃ before behind, fs = before ++ f :: behind ∧ (∀ g ∈ before, g.Resolves aliases kind) ∧
    aliases.resolve? f.type = none

section
variable {aliases : AliasTable} {kind : Kind} {aggregate : String}

theorem firstUnknown_cons {f g : FieldDecl} {fs : List FieldDecl} :
    FirstUnknown aliases kind (g :: fs) f ↔
      g = f ∧ aliases.resolve? g.type = none ∨
        g.Resolves aliases kind ∧ FirstUnknown aliases kind fs f := by
  constructor
  · rintro ⟨_ | ⟨b, before⟩, behind, hsplit, hbefore, hf⟩
    · obtain ⟨rfl, rfl⟩ := List.cons.inj hsplit
      exact .inl ⟨rfl, hf⟩
    · obtain ⟨rfl, rfl⟩ := List.cons.inj hsplit
      obtain ⟨hg, hbefore⟩ := List.forall_mem_cons.1 hbefore
      exact .inr ⟨hg, before, behind, rfl, hbefore, hf⟩
  · rintro (⟨rfl, hg⟩ | ⟨hg, before, behind, rfl, hbefore, hf⟩)
    · exact ⟨[], fs, rfl, by simp, hg⟩
    · exact ⟨g :: before, behind, rfl, List.forall_mem_cons.2 ⟨hg, hbefore⟩, hf⟩

theorem FieldDecl.Resolves.ne_none {f : FieldDecl} (h : f.Resolves aliases kind) :
    aliases.resolve? f.type ≠ none := by
  obtain ⟨name, -, hname, -⟩ := h
  simp [hname]

/-- If every alias stands for a shader type, a field fails because its type stands for nothing, or
because of its semantic, or not at all. -/
theorem FieldDecl.resolve_cases_of_known (hknown : aliases.Known) (kind : Kind) (aggregate : String)
    (f : FieldDecl) :
    (aliases.resolve? f.type = none ∧ f.resolve aliases kind aggregate =
      .error (.unknownType f.type.qualified f.name aggregate f.type.location)) ∨
    (aliases.resolve? f.type ≠ none ∧ ¬f.Resolves aliases kind ∧ ∃ semantic,
      f.resolve aliases kind aggregate =
        .error (.invalidSemantic f.name aggregate semantic f.location)) ∨
    f.Resolves aliases kind ∧ ∃ m, f.resolve aliases kind aggregate = .ok m := by
  cases hname : aliases.resolve? f.type with
  | none => exact .inl ⟨rfl, by simp [FieldDecl.resolve, hname]⟩
  | some name =>
    obtain ⟨type, htype⟩ := Option.isSome_iff_exists.1 (hknown.resolve? hname)
    by_cases hsemantic : kind = .vertexInput ∧
        !Semantic.isUsable (f.semantic?.getD (Semantic.derive f.name))
    · refine .inr (.inl ⟨by simp, ?_, f.semantic?.getD (Semantic.derive f.name), ?_⟩)
      · rintro ⟨_, _, -, -, husable⟩
        simp [husable hsemantic.1] at hsemantic
      · simp only [FieldDecl.resolve, hname, htype]
        exact if_pos hsemantic
    · refine .inr (.inr ⟨⟨name, type, hname, htype, by simpa using hsemantic⟩, ?_⟩)
      simp only [FieldDecl.resolve, hname, htype]
      exact ⟨_, if_neg hsemantic⟩

/-- Fields fail for an unknown type exactly at the first unknown one. -/
theorem resolveFields_eq_unknownType_iff (hknown : aliases.Known) {type field owner : String}
    {location : Location} {fs : List FieldDecl} :
    resolveFields aliases kind aggregate fs = .error (.unknownType type field owner location) ↔
      ∃ f, FirstUnknown aliases kind fs f ∧ type = f.type.qualified ∧ field = f.name ∧
        owner = aggregate ∧ location = f.type.location := by
  induction fs with
  | nil => simp [resolveFields, FirstUnknown]
  | cons g fs ih =>
    simp only [firstUnknown_cons]
    rcases g.resolve_cases_of_known hknown kind aggregate with
      ⟨hnone, hg⟩ | ⟨hsome, hunresolved, semantic, hg⟩ | ⟨hresolves, m, hg⟩
    · have hunresolved : ¬g.Resolves aliases kind := fun h => h.ne_none hnone
      simp only [resolveFields, hg, hnone, hunresolved, and_true, false_and, or_false,
        exists_eq_left', Except.error.injEq, CompileError.unknownType.injEq, eq_comm]
    · simp [resolveFields, hg, hsome, hunresolved]
    · have hsome := hresolves.ne_none
      simp only [resolveFields, hg, hsome, hresolves, and_false, true_and, false_or, ← ih]
      cases resolveFields aliases kind aggregate fs with
      | error e => simp
      | ok ms => simp

theorem Catalog.resolve_eq_error_iff {c : Catalog} {d : StructDecl} {e : CompileError} :
    c.resolve kind d = .error e ↔ resolveFields c.aliases kind d.name d.fields = .error e := by
  unfold Catalog.resolve
  cases resolveFields c.aliases kind d.name d.fields with
  | error e => simp
  | ok members => simp

end

namespace AliasTable

/-- **The table is the history of its definitions.** Behind any definitions, whether they succeed or
fail, a type resolves to what it stands for in the history of those that succeeded. Whatever is
recorded or resolved is the name of a shader type, so a struct fails for an unknown type exactly at
the first field whose type resolves to nothing. A definition gives what its target stands for; one
that fails changes neither the table nor the catalog it belongs to. The table has as many entries as
the history has spellings. -/
theorem ofRequests_eq_history (qs : List Request) :
    let t := ofRequests qs
    let h := History.ofRequests qs
    (∀ type, t.resolve? type = h.meaning? type) ∧
    (∀ r ∈ h, (ShaderType.ofName? r.name).isSome) ∧
    (∀ type name, t.resolve? type = some name → (ShaderType.ofName? name).isSome) ∧
    (∀ (c : Catalog) (kind : Kind), c.aliases = t →
      ∀ d type field owner location,
        c.resolve kind d = .error (.unknownType type field owner location) ↔
          ∃ f, FirstUnknown t kind d.fields f ∧ type = f.type.qualified ∧ field = f.name ∧
            owner = d.name ∧ location = f.type.location) ∧
    (∀ q, (t.define? q.short q.qualified q.target).map Prod.fst = h.meaning? q.target ∧
      (h.meaning? q.target = none → ofRequests (qs ++ [q]) = t)) ∧
    (∀ (c : Catalog) (kind : Kind), c.aliases = t →
      ∀ d ds, h.meaning? d.target = none → c.extend kind (.typeAlias d :: ds) =
        (c, some (.unresolvedAlias d.name d.target.qualified d.location))) ∧
    t.size = h.spellings.toFinset.card := by
  intro t h
  have hm : Mirrors h t := mirrors_ofRequests qs
  have hdef (short qualified : String) (target : TypeName) :
      (t.define? short qualified target).map Prod.fst = h.meaning? target := by
    rw [define?, Option.map_map, ← hm.resolve?]
    exact Option.map_id'
  have hfails (short qualified : String) (target : TypeName) (hnone : h.meaning? target = none) :
      t.define? short qualified target = none :=
    Option.map_eq_none_iff.1 ((hdef short qualified target).trans hnone)
  refine ⟨hm.resolve?, hm.known, fun type name => hm.known_table.resolve?, ?_, ?_, ?_, hm.size⟩
  · intro c kind hc d type field owner location
    rw [Catalog.resolve_eq_error_iff, hc, resolveFields_eq_unknownType_iff hm.known_table]
  · refine fun q => ⟨hdef q.short q.qualified q.target, fun hq => ?_⟩
    have hnext : ofRequests (qs ++ [q]) = t.request q := List.foldl_append
    rw [hnext, request, hfails q.short q.qualified q.target hq]
  · intro c kind hc d ds hd
    simp [Catalog.extend, Catalog.declare, hc, hfails d.name d.qualified d.target hd]

end AliasTable

end ShaderInterface
