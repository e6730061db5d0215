import ShaderInterface.Proofs.Catalog.Names
import ShaderInterface.Proofs.Session.Splitting

/-!
# Types spelled by an alias

Behind `using a = T;` in a namespace, a field can be given the type `T`, `a` or the qualified name of
`a`, and nothing but the spelling kept with the field differs (`Catalog.resolve_respelled`). The target
itself may be looked up differently than before: the new alias can have its spelling or its last
segment. But then it leads to the name that the target had resolved to, because that is what the alias
stands for (`AliasTable.resolve?_target`).
-/
namespace ShaderInterface

/-- Two results that agree behind `f` are the same error, or two values that agree behind `f`. -/
theorem eq_error_or_eq_ok_of_map_eq {ε α β : Type} {f : α → β} {x y : Except ε α}
    (h : x.map f = y.map f) :
    (∃ e, x = .error e ∧ y = .error e) ∨ ∃ a b, x = .ok a ∧ y = .ok b ∧ f a = f b := by
  cases x with
  | error e =>
    cases y with
    | error e' =>
      obtain rfl : e = e' := by simpa [Except.map] using h
      exact .inl ⟨e, rfl, rfl⟩
    | ok b => simp [Except.map] at h
  | ok a =>
    cases y with
    | error e' => simp [Except.map] at h
    | ok b => exact .inr ⟨a, b, rfl, rfl, by simpa [Except.map] using h⟩

/-! ## Look-ups behind a definition -/

namespace AliasTable

theorem get?_insert (t : AliasTable) (spelling name query : String) :
    (t.insert spelling name).get? query = if query = spelling then some name else t.get? query := by
  unfold get? insert
  by_cases hquery : query = spelling
  · simp [hquery]
  · have hbeq : (spelling == query) = false := by simpa using Ne.symm hquery
    have hfilter : (fun e : String × String => decide ((e.1 != spelling) = true ∧
        (e.1 == query) = true)) = fun e => e.1 == query := by
      funext e
      by_cases he : e.1 = query
      · simp [he, hquery]
      · simp [he]
    simp only [List.find?_cons, hbeq, List.find?_filter, hfilter, if_neg hquery]

/-- A definition stores the name its target resolves to under both spellings, and nothing else. -/
theorem define?_cases {t t' : AliasTable} {short qualified name : String} {target : TypeName}
    (h : t.define? short qualified target = some (name, t')) :
    t.resolve? target = some name ∧
      ∀ s, t'.get? s = if s = qualified ∨ s = short then some name else t.get? s := by
  obtain ⟨resolved, hresolved, heq⟩ := Option.map_eq_some_iff.1 h
  obtain ⟨rfl, rfl⟩ := Prod.mk.inj heq
  refine ⟨hresolved, fun s => ?_⟩
  rw [get?_insert, get?_insert]
  by_cases hqualified : s = qualified
  · simp [hqualified]
  · simp [hqualified]

theorem resolve?_of_get? {t : AliasTable} {type : TypeName} {name : String}
    (h : t.get? type.qualified = some name) : t.resolve? type = some name := by
  simp [resolve?, h]

/-- The target of an alias resolves behind it as it did before. -/
theorem resolve?_target {t t' : AliasTable} {short qualified name : String} {target : TypeName}
    (h : t.define? short qualified target = some (name, t')) : t'.resolve? target = some name := by
  obtain ⟨hresolve, hget⟩ := define?_cases h
  unfold resolve? at hresolve ⊢
  rw [hget target.qualified, hget target.base]
  -- A spelling that the alias takes over leads to `name`; one that it leaves alone leads where it
  -- led before, which is to `name` as well.
  by_cases hqualified : target.qualified = qualified ∨ target.qualified = short
  · simp [hqualified]
  rw [if_neg hqualified]
  cases hfirst : t.get? target.qualified with
  | some found => simpa [hfirst] using hresolve
  | none =>
    by_cases hbase : target.base = qualified ∨ target.base = short
    · simp [hbase]
    · simpa [hfirst, hbase] using hresolve

/-- Every alias stands for the name of a shader type. -/
def Known (t : AliasTable) : Prop :=
  ∀ s name, t.get? s = some name → (ShaderType.ofName? name).isSome

theorem known_empty : empty.Known := by
  intro s name h
  simp [empty, get?] at h

theorem Known.resolve? {t : AliasTable} (ht : t.Known) {type : TypeName} {name : String}
    (h : t.resolve? type = some name) : (ShaderType.ofName? name).isSome := by
  unfold AliasTable.resolve? at h
  split at h
  · next found hfound =>
    obtain rfl : found = name := by simpa using h
    exact ht _ _ hfound
  · split at h
    · next found hfound =>
      obtain rfl : found = name := by simpa using h
      exact ht _ _ hfound
    · split_ifs at h with hname
      obtain rfl : type.qualified = name := by simpa using h
      exact hname

theorem Known.define? {t t' : AliasTable} (ht : t.Known) {short qualified name : String}
    {target : TypeName} (h : t.define? short qualified target = some (name, t')) : t'.Known := by
  obtain ⟨hresolve, hget⟩ := define?_cases h
  intro s found hs
  rw [hget s] at hs
  split_ifs at hs with hnew
  · obtain rfl : name = found := by simpa using hs
    exact ht.resolve? hresolve
  · exact ht s found hs

end AliasTable

namespace Catalog

variable {c c' mid : Catalog} {kind : Kind} {ds : List Declaration}

theorem known_declare (h : c.aliases.Known) {d : Declaration} (hdecl : c.declare kind d = .ok c') :
    c'.aliases.Known := by
  obtain ⟨_, _, aliases, -, hdef, rfl⟩ | ⟨decl, a, -, -, -, rfl⟩ := declare_cases hdecl
  · exact h.define? hdef
  · exact h

theorem Reaches.known (hreach : Reaches kind c ds mid) (h : c.aliases.Known) : mid.aliases.Known := by
  induction hreach with
  | nil => exact h
  | cons hdecl _ ih => exact ih (known_declare h hdecl)

theorem known_extend (h : c.aliases.Known) (kind : Kind) (ds : List Declaration) :
    (c.extend kind ds).1.aliases.Known := by
  rcases extend_cases kind ds c with
    ⟨mid, hreach, hext⟩ | ⟨before, d, behind, mid, e, -, hreach, -, hext⟩
  · rw [hext]
    exact hreach.known h
  · rw [hext]
    exact hreach.known h

/-- However headers are added, an alias stands for the name of a shader type. -/
theorem known_ofHeaders (headers : List (String × Kind)) : (ofHeaders headers).aliases.Known := by
  refine List.foldlRecOn (motive := fun c : Catalog => c.aliases.Known) headers addHeader
    AliasTable.known_empty ?_
  intro c h header _
  unfold addHeader
  split
  · exact h
  · exact known_extend h _ _

end Catalog

/-! ## Fields spelled in another way -/

/-- The field `f` as it is, or with the short or the qualified name of the alias `u` as its type if
that was spelled like the target of `u`. -/
inductive FieldDecl.Respelled (u : AliasDecl) (f : FieldDecl) : FieldDecl → Prop where
  | same : Respelled u f f
  | byAlias {segments : List String} {location : Location} : f.type.segments = u.target.segments →
      segments = [u.name] ∨ segments = u.path ++ [u.name] →
      Respelled u f { f with type := ⟨segments, location⟩ }

def Member.undeclared (m : Member) : Member := { m with declared := "" }

/-- The aggregate without the types of its members as they are written. -/
def Aggregate.undeclared (a : Aggregate) : Aggregate :=
  { a with members := a.members.map Member.undeclared }

section
variable {aliases : AliasTable} {kind : Kind} {aggregate : String}

/-- Without the type as it is written, a resolved field shows only what its type resolves to. -/
theorem FieldDecl.resolve_with_type {f : FieldDecl} {type : TypeName} {name : String}
    (hname : aliases.resolve? f.type = some name) (hother : aliases.resolve? type = some name)
    (hknown : (ShaderType.ofName? name).isSome) :
    (FieldDecl.resolve aliases kind aggregate { f with type := type }).map Member.undeclared =
      (f.resolve aliases kind aggregate).map Member.undeclared := by
  obtain ⟨shaderType, htype⟩ := Option.isSome_iff_exists.1 hknown
  let semantic := f.semantic?.getD (Semantic.derive f.name)
  have hresolve {t : TypeName} (ht : aliases.resolve? t = some name) :
      FieldDecl.resolve aliases kind aggregate { f with type := t } =
        if kind = .vertexInput ∧ !Semantic.isUsable semantic then
          .error (.invalidSemantic f.name aggregate semantic f.location)
        else .ok ⟨f.name, t.qualified, name, shaderType, ⟨0, 0⟩, f.semantic?, f.register?, f.stepRate?,
          f.location⟩ := by
    simp only [FieldDecl.resolve, ht, htype]
    rfl
  have hsame : f = { f with type := f.type } := rfl
  rw [hsame, hresolve hname, hresolve hother]
  split_ifs
  · rfl
  · rfl

/-- Behind an alias, a field resolves alike however it is spelled. -/
theorem FieldDecl.Respelled.resolve {t : AliasTable} (ht : t.Known) {u : AliasDecl} {name : String}
    (hdef : t.define? u.name u.qualified u.target = some (name, aliases)) {f g : FieldDecl}
    (h : f.Respelled u g) :
    (g.resolve aliases kind aggregate).map Member.undeclared =
      (f.resolve aliases kind aggregate).map Member.undeclared := by
  obtain ⟨hresolve, hget⟩ := AliasTable.define?_cases hdef
  cases h with
  | same => rfl
  | @byAlias segments location htarget hsegments =>
    have hfield : aliases.resolve? f.type = some name := by
      have := AliasTable.resolve?_target hdef
      unfold AliasTable.resolve? TypeName.qualified TypeName.base at this ⊢
      rwa [htarget]
    have halias : aliases.resolve? ⟨segments, location⟩ = some name := by
      apply AliasTable.resolve?_of_get?
      rw [hget]
      apply if_pos
      rcases hsegments with rfl | rfl
      · exact .inr rfl
      · exact .inl rfl
    exact FieldDecl.resolve_with_type hfield halias (ht.resolve? hresolve)

theorem resolveFields_cons_undeclared (f : FieldDecl) (fs : List FieldDecl) :
    (resolveFields aliases kind aggregate (f :: fs)).map (List.map Member.undeclared) =
      ((f.resolve aliases kind aggregate).map Member.undeclared).bind fun m =>
        ((resolveFields aliases kind aggregate fs).map (List.map Member.undeclared)).map (m :: ·) := by
  rw [resolveFields]
  cases f.resolve aliases kind aggregate with
  | error e => rfl
  | ok m =>
    cases resolveFields aliases kind aggregate fs with
    | error e => rfl
    | ok ms => rfl

theorem resolveFields_undeclared {fs gs : List FieldDecl}
    (h : List.Forall₂ (fun f g => (FieldDecl.resolve aliases kind aggregate g).map Member.undeclared =
      (FieldDecl.resolve aliases kind aggregate f).map Member.undeclared) fs gs) :
    (resolveFields aliases kind aggregate gs).map (List.map Member.undeclared) =
      (resolveFields aliases kind aggregate fs).map (List.map Member.undeclared) := by
  induction h with
  | nil => rfl
  | cons hfg _ ih => rw [resolveFields_cons_undeclared, resolveFields_cons_undeclared, hfg, ih]

end

theorem placeMembers_undeclared (ms : List Member) (ps : List Placement) :
    placeMembers (ms.map Member.undeclared) ps = (placeMembers ms ps).map Member.undeclared := by
  rw [placeMembers, placeMembers, List.zipWith_map_left, List.map_zipWith]
  rfl

namespace Catalog

theorem aggregateOf_undeclared (c : Catalog) (kind : Kind) (d : StructDecl) (fields : List FieldDecl)
    (ms : List Member) :
    (c.aggregateOf kind { d with fields := fields } ms).undeclared =
      c.aggregateOf kind d (ms.map Member.undeclared) := by
  have hextents : (ms.map Member.undeclared).map Member.extent = ms.map Member.extent := by
    rw [List.map_map]
    rfl
  simp only [aggregateOf, Aggregate.undeclared, hextents, placeMembers_undeclared]
  rfl

theorem resolve_undeclared (c : Catalog) (kind : Kind) (d : StructDecl) (fields : List FieldDecl) :
    (c.resolve kind { d with fields := fields }).map Aggregate.undeclared =
      ((resolveFields c.aliases kind d.name fields).map (List.map Member.undeclared)).map
        (c.aggregateOf kind d) := by
  unfold resolve
  cases resolveFields c.aliases kind d.name fields with
  | error e => rfl
  | ok ms => exact congrArg Except.ok (c.aggregateOf_undeclared kind d fields ms)

/-! ## Catalogs without spellings -/

/-- The catalog without the types of members as they are written. -/
def undeclared (c : Catalog) : Catalog := { c with entries := c.entries.map Aggregate.undeclared }

theorem find?_undeclared (c : Catalog) (name : String) :
    c.undeclared.find? name = (c.find? name).map Aggregate.undeclared := by
  simp only [find?, undeclared, List.getElem?_map, Option.map_bind]
  rfl

theorem insert_undeclared (c : Catalog) (a : Aggregate) :
    (c.insert a).map undeclared = c.undeclared.insert a.undeclared := by
  have hfind : c.undeclared.find? a.undeclared.name = (c.find? a.name).map Aggregate.undeclared :=
    c.find?_undeclared a.name
  unfold insert
  rw [hfind]
  cases c.find? a.name with
  | some first => rfl
  | none => simp [Except.map, undeclared, push, size, Aggregate.undeclared]

theorem declare_typeAlias_undeclared (c : Catalog) (kind : Kind) (d : AliasDecl) :
    (c.declare kind (.typeAlias d)).map undeclared = c.undeclared.declare kind (.typeAlias d) := by
  have haliases : c.undeclared.aliases = c.aliases := rfl
  simp only [declare, haliases]
  cases c.aliases.define? d.name d.qualified d.target with
  | none => rfl
  | some defined => rfl

theorem declare_aggregate_undeclared (c : Catalog) (kind : Kind) (d : StructDecl) :
    (c.declare kind (.aggregate d)).map undeclared =
      ((c.resolve kind d).map Aggregate.undeclared).bind c.undeclared.insert := by
  simp only [declare]
  cases c.resolve kind d with
  | error e => rfl
  | ok a => exact c.insert_undeclared a

theorem undeclared_resolve (c : Catalog) (kind : Kind) (d : StructDecl) :
    c.undeclared.resolve kind d = c.resolve kind d := by
  have hsize : c.undeclared.size = c.size := List.length_map _
  simp only [resolve, hsize]
  rfl

section
variable {c₁ c₂ : Catalog}

theorem declare_congr (h : c₁.undeclared = c₂.undeclared) (kind : Kind) (d : Declaration) :
    (c₁.declare kind d).map undeclared = (c₂.declare kind d).map undeclared := by
  cases d with
  | typeAlias d => rw [declare_typeAlias_undeclared, declare_typeAlias_undeclared, h]
  | aggregate d =>
    rw [declare_aggregate_undeclared, declare_aggregate_undeclared, ← undeclared_resolve, h,
      undeclared_resolve]

/-- The first declaration of a header, when what it does and what the others do agree. -/
theorem extend_cons_congr {kind : Kind} {d₁ d₂ : Declaration} {ds : List Declaration}
    (h : c₁.undeclared = c₂.undeclared)
    (hd : (c₁.declare kind d₁).map undeclared = (c₂.declare kind d₂).map undeclared)
    (hds : ∀ {c₁ c₂ : Catalog}, c₁.undeclared = c₂.undeclared →
      Prod.map undeclared id (c₁.extend kind ds) = Prod.map undeclared id (c₂.extend kind ds)) :
    Prod.map undeclared id (c₁.extend kind (d₁ :: ds)) =
      Prod.map undeclared id (c₂.extend kind (d₂ :: ds)) := by
  rcases eq_error_or_eq_ok_of_map_eq hd with ⟨e, h₁, h₂⟩ | ⟨c₁', c₂', h₁, h₂, hnext⟩
  · simp [extend, h₁, h₂, h]
  · simp only [extend, h₁, h₂]
    exact hds hnext

/-- Catalogs that agree but for spellings agree behind every header. -/
theorem extend_congr (h : c₁.undeclared = c₂.undeclared) (kind : Kind) (ds : List Declaration) :
    Prod.map undeclared id (c₁.extend kind ds) = Prod.map undeclared id (c₂.extend kind ds) := by
  induction ds generalizing c₁ c₂ with
  | nil =>
    have hcount : undeclared { c₁ with sources := c₁.sources + 1 } =
        undeclared { c₂ with sources := c₂.sources + 1 } :=
      congrArg (fun c : Catalog => { c with sources := c.sources + 1 }) h
    simp [extend, hcount]
  | cons d ds ih => exact extend_cons_congr h (declare_congr h kind d) ih

end

end Catalog

/-! ## What is made of a catalog -/

theorem Aggregate.unseen_undeclared : Unseen undeclared id where
  kind _ := rfl
  register _ := rfl
  block kind indent a := by
    have hmembers : a.undeclared.members.map (Emission.memberLine kind indent) =
        a.members.map (Emission.memberLine kind indent) := by
      simp only [undeclared, List.map_map]
      rfl
    rw [Emission.block, hmembers]
    rfl
  conflict _ _ _ _ := rfl

theorem InputLayout.offsets_undeclared (free : Nat → Nat) (ms : List Member) :
    offsets free (ms.map Member.undeclared) = offsets free ms := by
  induction ms generalizing free with
  | nil => rfl
  | cons m ms ih =>
    rw [List.map_cons, offsets, offsets, ih]
    rfl

theorem Aggregate.inputElements_undeclared (a : Aggregate) :
    a.undeclared.inputElements = a.inputElements := by
  simp only [inputElements, undeclared, InputLayout.offsets_undeclared, List.zipWith_map_left]
  rfl

namespace Session

variable {c₁ c₂ : Catalog} (s : Session)

theorem generate_congr (h : c₁.undeclared = c₂.undeclared) (kind : Kind) :
    ((s.withCatalog c₁).generate kind).2 = ((s.withCatalog c₂).generate kind).2 := by
  have htext (c : Catalog) : textOf s.options c.undeclared kind = textOf s.options c kind := by
    refine (Aggregate.unseen_undeclared.textOf s.options c kind).trans ?_
    cases textOf s.options c kind <;> rfl
  rw [generate_withCatalog, generate_withCatalog, ← htext c₁, h, htext]

theorem inputElements_congr (h : c₁.undeclared = c₂.undeclared) (name : String) :
    (s.withCatalog c₁).inputElements name = (s.withCatalog c₂).inputElements name := by
  have helements (c : Catalog) : (s.withCatalog c.undeclared).inputElements name =
      (s.withCatalog c).inputElements name := by
    simp only [inputElements, catalog, withCatalog, Except.map, c.find?_undeclared]
    cases c.find? name with
    | none => rfl
    | some a =>
      have hkind : a.undeclared.kind = a.kind := rfl
      by_cases hvertex : a.kind = .vertexInput
      · simp [hkind, hvertex, Option.filter, a.inputElements_undeclared]
      · simp [hkind, hvertex, Option.filter]
  rw [← helements c₁, h, helements]

end Session

namespace Catalog

/-- **Aliases are transparent.** Behind an accepted alias, fields whose type is spelled like its target
can be spelled with the alias instead, by its short or its qualified name, any of them and whatever
names the alias hides. The struct then fails in the same way or gives the same aggregate but for the
spelled types, and all that follows it goes on to give the same texts and the same input elements. -/
theorem resolve_respelled (headers : List (String × Kind)) {k : Kind} {before : List Declaration}
    {c c' : Catalog} (hreach : Reaches k (ofHeaders headers) before c) {u : AliasDecl}
    (hu : c.declare k (.typeAlias u) = .ok c') {d : StructDecl} {fields : List FieldDecl}
    (hfields : List.Forall₂ (FieldDecl.Respelled u) d.fields fields) (kind : Kind) :
    ((∃ e, c'.resolve kind d = .error e ∧ c'.resolve kind { d with fields := fields } = .error e) ∨
      ∃ a a', c'.resolve kind d = .ok a ∧ c'.resolve kind { d with fields := fields } = .ok a' ∧
        a'.undeclared = a.undeclared ∧ a'.inputElements = a.inputElements) ∧
    ∀ behind, ∃ c₁ c₂ e, c'.extend kind (.aggregate d :: behind) = (c₁, e) ∧
      c'.extend kind (.aggregate { d with fields := fields } :: behind) = (c₂, e) ∧
      ∀ s : Session,
        (∀ out, ((s.withCatalog c₂).generate out).2 = ((s.withCatalog c₁).generate out).2) ∧
        ∀ name, (s.withCatalog c₂).inputElements name = (s.withCatalog c₁).inputElements name := by
  obtain ⟨decl, name, aliases, hdecl, hdef, rfl⟩ | ⟨_, _, hdecl, -⟩ := declare_cases hu
  case inr => cases hdecl
  obtain rfl : u = decl := by simpa using hdecl
  have hknown : c.aliases.Known := hreach.known (known_ofHeaders headers)
  have hmembers : (resolveFields aliases kind d.name fields).map (List.map Member.undeclared) =
      (resolveFields aliases kind d.name d.fields).map (List.map Member.undeclared) :=
    resolveFields_undeclared (hfields.imp fun _ _ h => h.resolve hknown hdef)
  set c' : Catalog := { c with aliases := aliases }
  have hresolve : (c'.resolve kind { d with fields := fields }).map Aggregate.undeclared =
      (c'.resolve kind d).map Aggregate.undeclared := by
    rw [resolve_undeclared, c'.resolve_undeclared kind d d.fields]
    exact congrArg _ hmembers
  refine ⟨?_, fun behind => ?_⟩
  · rcases eq_error_or_eq_ok_of_map_eq hresolve with ⟨e, ha', ha⟩ | ⟨a', a, ha', ha, hsame⟩
    · exact .inl ⟨e, ha, ha'⟩
    · refine .inr ⟨a, a', ha, ha', hsame, ?_⟩
      rw [← a'.inputElements_undeclared, hsame, a.inputElements_undeclared]
  · have hdeclare : (c'.declare kind (.aggregate { d with fields := fields })).map undeclared =
        (c'.declare kind (.aggregate d)).map undeclared := by
      rw [declare_aggregate_undeclared, declare_aggregate_undeclared, hresolve]
    have hextend := extend_cons_congr rfl hdeclare fun h => extend_congr h kind behind
    have hcatalog := congrArg Prod.fst hextend
    have herror := congrArg Prod.snd hextend
    exact ⟨_, _, _, rfl, Prod.ext rfl herror, fun s =>
      ⟨fun out => s.generate_congr hcatalog out, fun name => s.inputElements_congr hcatalog name⟩⟩

/-- An alias of an alias that hides it, which is the last segment of its own target. -/
theorem resolve_respelled_hiding :
    let c := ofHeaders [("using B = float3;", .vertexInput)]
    let u : AliasDecl := ⟨"B", ["N"], ⟨["X", "B"], ⟨24, 1, 25⟩⟩, ⟨20, 1, 21⟩⟩
    let field (name : String) (type : List String) : FieldDecl :=
      ⟨name, ⟨type, ⟨0, 1, 1⟩⟩, [], ⟨0, 1, 1⟩⟩
    let d : StructDecl := ⟨"S", [], none, none,
      [field "p" ["X", "B"], field "q" ["X", "B"], field "r" ["float"]], ⟨0, 1, 1⟩⟩
    let d' := { d with fields := [field "p" ["N", "B"], field "q" ["B"], field "r" ["float"]] }
    ∃ c' a a', c.declare .vertexInput (.typeAlias u) = .ok c' ∧ c'.resolve .vertexInput d = .ok a ∧
      c'.resolve .vertexInput d' = .ok a' ∧ a.members.map Member.declared = ["X::B", "X::B", "float"] ∧
      a'.members.map Member.declared = ["N::B", "B", "float"] ∧ a'.undeclared = a.undeclared := by
  intro c u field d d'
  let c' : Catalog := { c with aliases := ⟨[("N::B", "float3"), ("B", "float3")]⟩ }
  have hu : c.declare .vertexInput (.typeAlias u) = .ok c' := by decide +kernel
  have hfields : List.Forall₂ (FieldDecl.Respelled u) d.fields d'.fields :=
    .cons (.byAlias rfl (.inr rfl)) (.cons (.byAlias rfl (.inl rfl)) (.cons .same .nil))
  have hdeclared : (c'.resolve .vertexInput d).map (fun a => a.members.map Member.declared) =
      .ok ["X::B", "X::B", "float"] := by
    decide +kernel
  have hdeclared' : (c'.resolve .vertexInput d').map (fun a => a.members.map Member.declared) =
      .ok ["N::B", "B", "float"] := by
    decide +kernel
  obtain ⟨⟨e, he, -⟩ | ⟨a, a', ha, ha', hsame, -⟩, -⟩ :=
    resolve_respelled [("using B = float3;", .vertexInput)] .nil hu hfields .vertexInput
  · rw [he] at hdeclared
    cases hdeclared
  · rw [ha] at hdeclared
    change c'.resolve .vertexInput d' = .ok a' at ha'
    rw [ha'] at hdeclared'
    exact ⟨c', a, a', hu, ha, ha', Except.ok.inj hdeclared, Except.ok.inj hdeclared', hsame⟩

end Catalog

end ShaderInterface
