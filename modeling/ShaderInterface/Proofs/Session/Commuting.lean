import ShaderInterface.Proofs.Emission.RoundTrip
import ShaderInterface.Proofs.Session.Provenance
import ShaderInterface.Proofs.Session.Splitting

/-!
# Headers in either order

Two headers without aliases and for different kinds can be added in either order. What a struct makes
depends on the aliases of the catalog alone (`StructDecl.Makes`), and whether it can be added depends
on the short names that are taken, so both orders succeed or both fail. The catalogs then hold the same
aggregates, those of one kind in the same order. What differs are their numbers, which no text shows
(`Session.append_append_comm`).
-/
namespace ShaderInterface

/-! ## Aggregates without numbers -/

/-- The aggregate without its tag and without the number of its header. -/
def Aggregate.unnumbered (a : Aggregate) : Aggregate := { a with tag := 0, sourceIndex := 0 }

/-- The error without the number of a header. -/
def CompileError.unnumbered : CompileError → CompileError
  | .registerConflict kind register first second location _ =>
    .registerConflict kind register first second location 0
  | e => e

theorem Aggregate.unseen_unnumbered : Unseen unnumbered CompileError.unnumbered where
  kind _ := rfl
  register _ := rfl
  block _ _ _ := rfl
  conflict _ _ _ _ := rfl

/-- What a struct makes as an entry of a catalog, but for its numbers there. -/
def StructDecl.Makes (aliases : AliasTable) (kind : Kind) (d : StructDecl) (a : Aggregate) : Prop :=
  ∃ members, resolveFields aliases kind d.name d.fields = .ok members ∧
    a = Catalog.empty.aggregateOf kind d members

namespace StructDecl.Makes

variable {aliases : AliasTable} {kind : Kind} {d : StructDecl} {a b : Aggregate}

theorem unique (ha : d.Makes aliases kind a) (hb : d.Makes aliases kind b) : a = b := by
  obtain ⟨members, hmembers, rfl⟩ := ha
  obtain ⟨members', hmembers', rfl⟩ := hb
  obtain rfl : members = members' := Except.ok.inj (hmembers.symm.trans hmembers')
  rfl

theorem name_eq (h : d.Makes aliases kind a) : a.name = d.name := by
  obtain ⟨members, -, rfl⟩ := h
  rfl

theorem kind_eq (h : d.Makes aliases kind a) : a.kind = kind := by
  obtain ⟨members, -, rfl⟩ := h
  rfl

theorem of_resolve {c : Catalog} (h : c.resolve kind d = .ok a) :
    d.Makes c.aliases kind a.unnumbered := by
  obtain ⟨members, hmembers, rfl⟩ := Catalog.resolve_eq_ok_iff.1 h
  exact ⟨members, hmembers, rfl⟩

theorem resolve {c : Catalog} (h : d.Makes c.aliases kind a) :
    ∃ b, c.resolve kind d = .ok b ∧ b.unnumbered = a := by
  obtain ⟨members, hmembers, rfl⟩ := h
  exact ⟨_, Catalog.resolve_eq_ok_iff.2 ⟨members, hmembers, rfl⟩, rfl⟩

end StructDecl.Makes

section
variable {aliases : AliasTable} {kind : Kind} {ds : List StructDecl} {as : List Aggregate}

theorem map_name_of_makes (h : List.Forall₂ (StructDecl.Makes aliases kind) ds as) :
    as.map Aggregate.name = ds.map StructDecl.name := by
  induction h with
  | nil => rfl
  | cons hd _ ih => rw [List.map_cons, List.map_cons, hd.name_eq, ih]

theorem kind_of_makes (h : List.Forall₂ (StructDecl.Makes aliases kind) ds as) :
    ∀ a ∈ as, a.kind = kind := by
  induction h with
  | nil => simp
  | cons hd _ ih =>
    intro a ha
    rcases List.mem_cons.1 ha with rfl | ha
    · exact hd.kind_eq
    · exact ih a ha

end

/-! ## Catalogs that grow by structs -/

namespace Catalog

/-- The catalog `c'` is `c` with what structs make at its end. -/
structure Grows (kind : Kind) (ds : List StructDecl) (as : List Aggregate) (c c' : Catalog) : Prop where
  makes : List.Forall₂ (StructDecl.Makes c.aliases kind) ds as
  kept : c'.Kept
  aliases : c'.aliases = c.aliases
  entries : c'.entries.map Aggregate.unnumbered = c.entries.map Aggregate.unnumbered ++ as

section
variable {kind : Kind} {c c' : Catalog} {ds : List StructDecl} {as : List Aggregate}

theorem Grows.names (h : Grows kind ds as c c') :
    c'.entries.map Aggregate.name = c.entries.map Aggregate.name ++ ds.map StructDecl.name := by
  have hentries := congrArg (List.map Aggregate.name) h.entries
  rw [List.map_append, List.map_map, List.map_map, map_name_of_makes h.makes] at hentries
  exact hentries

/-- The aggregates of the kind of the structs grow, those of other kinds stay. -/
theorem Grows.ofKind (h : Grows kind ds as c c') (k : Kind) :
    (c'.ofKind k).map Aggregate.unnumbered =
      (c.ofKind k).map Aggregate.unnumbered ++ if kind = k then as else [] := by
  have hkind := kind_of_makes h.makes
  have hfilter : as.filter (fun a => a.kind == k) = if kind = k then as else [] := by
    split
    · next heq => exact List.filter_eq_self.2 fun a ha => by simp [hkind a ha, heq]
    · next hne => exact List.filter_eq_nil_iff.2 fun a ha => by simp [hkind a ha, hne]
  have hunseen := Aggregate.unseen_unnumbered.filter_kind k
  rw [Catalog.ofKind, Catalog.ofKind, ← hunseen, ← hunseen, h.entries, List.filter_append, hfilter]

end

section
variable {c c' mid : Catalog} {kind : Kind} {ds : List Declaration}

theorem Reaches.aliases_eq (h : Reaches kind c ds mid) (hds : ∀ d, .typeAlias d ∉ ds) :
    mid.aliases = c.aliases := by
  induction h with
  | nil => rfl
  | cons hdecl _ ih =>
    rw [ih fun d hd => hds d (List.mem_cons_of_mem _ hd)]
    obtain ⟨decl, _, aliases, rfl, -, -⟩ | ⟨decl, a, rfl, -, -, rfl⟩ := declare_cases hdecl
    · exact absurd List.mem_cons_self (hds decl)
    · rfl

/-- A header without aliases that is added makes the catalog grow by its structs. -/
theorem Kept.grows (hc : c.Kept) (hds : ∀ d, .typeAlias d ∉ ds)
    (hnames : ∀ d, .aggregate d ∈ ds → ':' ∉ d.name.toList) (h : c.extend kind ds = (c', none)) :
    ∃ as, Grows kind (structsOf ds) as c c' := by
  have hkept : c'.Kept := by
    have hextend : (c.extend kind ds).1.Kept := hc.extend hnames
    rwa [h] at hextend
  rcases extend_cases kind ds c with ⟨mid, hreach, hext⟩ | ⟨_, _, _, _, e, -, -, -, hfail⟩
  case inr => simp [h] at hfail
  obtain rfl : c' = { mid with sources := mid.sources + 1 } := by simpa [h] using hext
  obtain ⟨added, hentries, hadded⟩ := hreach.entries_eq
  refine ⟨added.map Aggregate.unnumbered, ?_, hkept, hreach.aliases_eq hds, ?_⟩
  · refine List.forall₂_map_right_iff.2 (hadded.imp ?_)
    rintro d a ⟨before, base, hbefore, hbase, hres⟩
    -- The declarations before the struct have no alias either.
    have haliases := hbase.aliases_eq fun d hd => hds d (hbefore.subset hd)
    exact haliases ▸ .of_resolve hres
  · change mid.entries.map _ = _
    rw [hentries, List.map_append]

/-- Structs whose fields resolve can be added if their names are new and differ from each other. -/
theorem Kept.extend_of_makes (hc : c.Kept) (hds : ∀ d, .typeAlias d ∉ ds)
    (hnames : ∀ d, .aggregate d ∈ ds → ':' ∉ d.name.toList) {as : List Aggregate}
    (hmakes : List.Forall₂ (StructDecl.Makes c.aliases kind) (structsOf ds) as)
    (hnodup : (c.entries.map Aggregate.name ++ (structsOf ds).map StructDecl.name).Nodup) :
    ∃ c', c.extend kind ds = (c', none) := by
  induction ds generalizing c as with
  | nil => exact ⟨_, rfl⟩
  | cons d ds ih =>
    cases d with
    | typeAlias d => exact absurd List.mem_cons_self (hds d)
    | aggregate d =>
      have hstructs : structsOf (.aggregate d :: ds) = d :: structsOf ds := rfl
      rw [hstructs] at hmakes hnodup
      cases hmakes with
      | cons hd hrest =>
        obtain ⟨a, hres, rfl⟩ := hd.resolve
        have hname : a.name = d.name := hd.name_eq
        have hcolon : ':' ∉ d.name.toList := hnames d List.mem_cons_self
        have hnew : d.name ∉ c.entries.map Aggregate.name := by
          intro hmem
          exact (List.nodup_append.1 hnodup).2.2 d.name hmem d.name List.mem_cons_self rfl
        have hdecl : c.declare kind (.aggregate d) = .ok (c.push a) := by
          have hfree : c.find? a.name = none := hname ▸ hc.find?_eq_none hcolon hnew
          simp [Catalog.declare, hres, insert_of_find?_none hfree]
        have hpush : (c.push a).Kept := by
          refine hc.declare ?_ hdecl
          rintro decl hsame
          cases hsame
          exact hcolon
        have hnodup' : ((c.push a).entries.map Aggregate.name ++
            (structsOf ds).map StructDecl.name).Nodup := by
          simpa [Catalog.push, hname] using hnodup
        obtain ⟨c', hext⟩ := ih hpush (fun d' hd' => hds d' (List.mem_cons_of_mem _ hd'))
          (fun d' hd' => hnames d' (List.mem_cons_of_mem _ hd')) hrest hnodup'
        exact ⟨c', by simp [Catalog.extend, hdecl, hext]⟩

/-- Two headers without aliases can be added in the other order, and make the same aggregates. -/
theorem Kept.extend_comm {c₁ c₁₂ : Catalog} {k₁ k₂ : Kind} {es : List Declaration} (hc : c.Kept)
    (hds : ∀ d, .typeAlias d ∉ ds) (hes : ∀ d, .typeAlias d ∉ es)
    (hdnames : ∀ d, .aggregate d ∈ ds → ':' ∉ d.name.toList)
    (henames : ∀ d, .aggregate d ∈ es → ':' ∉ d.name.toList)
    (h₁ : c.extend k₁ ds = (c₁, none)) (h₂ : c₁.extend k₂ es = (c₁₂, none)) :
    ∃ as bs c₂ c₂₁, Grows k₁ (structsOf ds) as c c₁ ∧ Grows k₂ (structsOf es) bs c₁ c₁₂ ∧
      c.extend k₂ es = (c₂, none) ∧ c₂.extend k₁ ds = (c₂₁, none) ∧
      Grows k₂ (structsOf es) bs c c₂ ∧ Grows k₁ (structsOf ds) as c₂ c₂₁ := by
  obtain ⟨as, hgrow₁⟩ := hc.grows hds hdnames h₁
  obtain ⟨bs, hgrow₁₂⟩ := hgrow₁.kept.grows hes henames h₂
  -- All names differ, and that does not depend on their order.
  have hall : (c.entries.map Aggregate.name ++ (structsOf es).map StructDecl.name ++
      (structsOf ds).map StructDecl.name).Nodup := by
    have hnodup := hgrow₁₂.kept.nodup
    rw [hgrow₁₂.names, hgrow₁.names] at hnodup
    refine (List.Perm.nodup_iff ?_).1 hnodup
    rw [List.append_assoc, List.append_assoc]
    exact List.perm_append_comm.append_left _
  have hmakes₂ := hgrow₁.aliases ▸ hgrow₁₂.makes
  obtain ⟨c₂, hext₂⟩ := hc.extend_of_makes hes henames hmakes₂ (List.nodup_append.1 hall).1
  obtain ⟨bs', hgrow₂⟩ := hc.grows hes henames hext₂
  have hmakes₁ := hgrow₂.aliases.symm ▸ hgrow₁.makes
  obtain ⟨c₂₁, hext₂₁⟩ := hgrow₂.kept.extend_of_makes hds hdnames hmakes₁ (hgrow₂.names ▸ hall)
  obtain ⟨as', hgrow₂₁⟩ := hgrow₂.kept.grows hds hdnames hext₂₁
  have hunique {aliases : AliasTable} {kind : Kind} :
      Relator.RightUnique (StructDecl.Makes aliases kind) := fun _ _ _ ha hb => ha.unique hb
  obtain rfl : bs = bs' := List.right_unique_forall₂' hunique hmakes₂ hgrow₂.makes
  obtain rfl : as = as' := List.right_unique_forall₂' hunique hmakes₁ hgrow₂₁.makes
  exact ⟨as, bs, c₂, c₂₁, hgrow₁, hgrow₁₂, hext₂, hext₂₁, hgrow₂, hgrow₂₁⟩

end

/-! ## Catalogs that differ in numbers -/

/-- Both catalogs hold the same aggregates of every kind, in the same order, up to their numbers. -/
def SameKinds (c c' : Catalog) : Prop :=
  ∀ k, (c.ofKind k).map Aggregate.unnumbered = (c'.ofKind k).map Aggregate.unnumbered

section
variable {c c' : Catalog}

theorem SameKinds.find?_eq_some (h : c.SameKinds c') (hc : c.Kept) (hc' : c'.Kept) {name : String}
    {a : Aggregate} (hfind : c.find? name = some a) :
    (c'.find? name).map Aggregate.unnumbered = some a.unnumbered := by
  obtain ⟨ha, hcalled⟩ := hc.find?_eq_some_iff.1 hfind
  have hmem : a.unnumbered ∈ (c'.ofKind a.kind).map Aggregate.unnumbered := by
    rw [← h a.kind]
    exact List.mem_map_of_mem (List.mem_filter.2 ⟨ha, by simp⟩)
  obtain ⟨b, hb, hsame⟩ := List.mem_map.1 hmem
  have hcalled' : b.unnumbered.Called name := hsame ▸ hcalled
  have hfind' : c'.find? name = some b :=
    hc'.find?_eq_some_iff.2 ⟨List.mem_of_mem_filter hb, hcalled'⟩
  rw [hfind', Option.map_some, hsame]

/-- Names lead to the same aggregates. -/
theorem SameKinds.find?_eq (h : c.SameKinds c') (hc : c.Kept) (hc' : c'.Kept) (name : String) :
    (c.find? name).map Aggregate.unnumbered = (c'.find? name).map Aggregate.unnumbered := by
  cases hfind : c.find? name with
  | some a => exact (h.find?_eq_some hc hc' hfind).symm
  | none =>
    cases hfind' : c'.find? name with
    | none => rfl
    | some b =>
      have hback := SameKinds.find?_eq_some (fun k => (h k).symm) hc' hc hfind'
      simp [hfind] at hback

end

end Catalog

namespace Session

/-- Both answers are the same text, or conflicts of the kind between the same aggregates. -/
def SameAnswer (kind : Kind) (x y : Except CompileError String) : Prop :=
  (∃ text, x = .ok text ∧ y = .ok text) ∨
    ∃ register first second location i j,
      x = .error (.registerConflict kind register first second location i) ∧
      y = .error (.registerConflict kind register first second location j)

theorem sameAnswer_textOf {c c' : Catalog} (h : c.SameKinds c') (options : EmitOptions) (kind : Kind) :
    SameAnswer kind (textOf options c kind) (textOf options c' kind) := by
  have hunseen := Aggregate.unseen_unnumbered
  have hsame : (textOf options c kind).mapError CompileError.unnumbered =
      (textOf options c' kind).mapError CompileError.unnumbered := by
    have hofKind := ((hunseen.filter_kind kind c.entries).trans (h kind)).trans
      (hunseen.filter_kind kind c'.entries).symm
    rw [← hunseen.textOf, ← hunseen.textOf, textOf, textOf, Catalog.ofKind, Catalog.ofKind, hofKind]
  cases htext : textOf options c kind with
  | ok text =>
    cases htext' : textOf options c' kind with
    | ok text' =>
      obtain rfl : text = text' := by simpa [htext, htext', Except.mapError] using hsame
      exact .inl ⟨text, rfl, rfl⟩
    | error e => simp [htext, htext', Except.mapError] at hsame
  | error e =>
    cases htext' : textOf options c' kind with
    | ok text => simp [htext, htext', Except.mapError] at hsame
    | error e' =>
      obtain ⟨a, -, register, first, rfl⟩ := textOf_conflict htext
      obtain ⟨b, -, register', first', rfl⟩ := textOf_conflict htext'
      simp only [htext, htext', Except.mapError, CompileError.unnumbered, Except.error.injEq,
        CompileError.registerConflict.injEq, true_and, and_true] at hsame
      obtain ⟨rfl, rfl, hsecond, hlocation⟩ := hsame
      exact .inr ⟨register, first, a.qualified, a.location, a.sourceIndex, b.sourceIndex, rfl,
        by rw [hsecond, hlocation]⟩

/-! ## Sessions -/

/-- If the header can be read, it declares no alias. -/
def DeclaresNoAlias (source : String) : Prop :=
  ∀ ds, readHeader source = .ok ds → ∀ d, .typeAlias d ∉ ds

theorem declaresNoAlias_iff {source : String} : DeclaresNoAlias source ↔
    ∀ d ∈ (readHeader source).toOption.getD [], d.struct?.isSome = true := by
  unfold DeclaresNoAlias
  cases readHeader source with
  | error e => simp [Except.toOption]
  | ok ds =>
    simp only [Except.ok.injEq, Except.toOption, Option.getD_some, forall_eq']
    constructor
    · intro h d hd
      cases d with
      | aggregate d => rfl
      | typeAlias d => exact absurd hd (h d)
    · intro h d hd
      exact absurd (h (.typeAlias d) hd) (by simp [Declaration.struct?])

instance (source : String) : Decidable (DeclaresNoAlias source) :=
  decidable_of_iff _ declaresNoAlias_iff.symm

/-- Headers that were added can be added in the other order, with the same aggregates of every kind. -/
theorem append_append_swap {s : Session} (hs : (s.catalog?.getD .empty).Kept) {first second : String}
    {k₁ k₂ : Kind} (hfirst : DeclaresNoAlias first) (hsecond : DeclaresNoAlias second)
    (hkinds : k₁ ≠ k₂) (h₁ : (s.append first k₁).2 = none)
    (h₂ : ((s.append first k₁).1.append second k₂).2 = none) :
    ∃ c₁₂ c₂₁, (s.append first k₁).1.append second k₂ = (s.withCatalog c₁₂, none) ∧
      (s.append second k₂).2 = none ∧
      (s.append second k₂).1.append first k₁ = (s.withCatalog c₂₁, none) ∧
      c₁₂.Kept ∧ c₂₁.Kept ∧ c₁₂.SameKinds c₂₁ := by
  have hadd₁ : s.append first k₁ = ((s.append first k₁).1, none) := Prod.ext rfl h₁
  obtain ⟨ds, c₁, hread₁, hext₁, hs₁⟩ := append_eq_ok hadd₁
  generalize (s.append first k₁).1 = s₁ at *
  have hadd₁₂ : s₁.append second k₂ = ((s₁.append second k₂).1, none) := Prod.ext rfl h₂
  obtain ⟨es, c₁₂, hread₂, hext₁₂, hs₁₂⟩ := append_eq_ok hadd₁₂
  subst hs₁
  obtain ⟨as, bs, c₂, c₂₁, hgrow₁, hgrow₁₂, hext₂, hext₂₁, hgrow₂, hgrow₂₁⟩ :=
    hs.extend_comm (hfirst ds hread₁) (hsecond es hread₂)
      (fun d hd => Catalog.colon_not_mem_name hread₁ hd)
      (fun d hd => Catalog.colon_not_mem_name hread₂ hd) hext₁ hext₁₂
  refine ⟨c₁₂, c₂₁, append_of_extend hread₂ hext₁₂, ?_, ?_, hgrow₁₂.kept, hgrow₂₁.kept, ?_⟩
  · rw [append_of_extend hread₂ hext₂]
  · rw [append_of_extend hread₂ hext₂]
    exact append_of_extend hread₁ hext₂₁
  · intro k
    rw [hgrow₁₂.ofKind, hgrow₁.ofKind, hgrow₂₁.ofKind, hgrow₂.ofKind]
    -- No kind gets aggregates from both headers.
    by_cases hk₁ : k₁ = k
    · have hk₂ : k₂ ≠ k := fun hk₂ => hkinds (hk₁.trans hk₂.symm)
      simp [hk₁, hk₂]
    · simp [hk₁]

theorem kept_after (options : EmitOptions) (actions : List Action) :
    ((after options actions).catalog?.getD .empty).Kept := by
  cases hc : (after options actions).catalog? with
  | none => exact Catalog.kept_empty
  | some c => exact (entries_after hc).1

/-- **Headers of different kinds commute.** Whatever a session has been given, two headers without
aliases and for different kinds can both be added in one order if and only if they can in the other.
Then every kind has the same text in both sessions, or a conflict of the same aggregates about the same
register, and every name leads to the same aggregate up to its tag and the number of its header. -/
theorem append_append_comm (options : EmitOptions) (actions : List Action) {first second : String}
    {k₁ k₂ : Kind} (hfirst : DeclaresNoAlias first) (hsecond : DeclaresNoAlias second)
    (hkinds : k₁ ≠ k₂) :
    let s := after options actions
    let one := (s.append first k₁).1.append second k₂
    let other := (s.append second k₂).1.append first k₁
    ((s.append first k₁).2 = none ∧ one.2 = none ↔
      (s.append second k₂).2 = none ∧ other.2 = none) ∧
    ((s.append first k₁).2 = none ∧ one.2 = none →
      (∀ k, SameAnswer k (one.1.generate k).2 (other.1.generate k).2) ∧
      ∀ name, (one.1.find? name).map Aggregate.unnumbered =
        (other.1.find? name).map Aggregate.unnumbered) := by
  intro s one other
  have hs := kept_after options actions
  refine ⟨⟨?_, ?_⟩, ?_⟩
  · rintro ⟨h₁, h₂⟩
    obtain ⟨_, _, -, hadd, hother, -⟩ := append_append_swap hs hfirst hsecond hkinds h₁ h₂
    exact ⟨hadd, congrArg Prod.snd hother⟩
  · rintro ⟨h₁, h₂⟩
    obtain ⟨_, _, -, hadd, hone, -⟩ := append_append_swap hs hsecond hfirst hkinds.symm h₁ h₂
    exact ⟨hadd, congrArg Prod.snd hone⟩
  · rintro ⟨h₁, h₂⟩
    obtain ⟨c₁₂, c₂₁, hone, -, hother, hkept, hkept', hsame⟩ :=
      append_append_swap hs hfirst hsecond hkinds h₁ h₂
    have hone : one.1 = s.withCatalog c₁₂ := congrArg Prod.fst hone
    have hother : other.1 = s.withCatalog c₂₁ := congrArg Prod.fst hother
    rw [hone, hother]
    refine ⟨fun k => ?_, fun name => ?_⟩
    · rw [generate_withCatalog, generate_withCatalog]
      exact sameAnswer_textOf hsame s.options k
    · exact hsame.find?_eq hkept hkept' name

/-- Behind a header with an alias, two constant buffers with a conflict and a vertex input. -/
theorem append_append_comm_conflict :
    let s := after {} [.append "using T = int;" .structuredBuffer]
    let first := "struct A REGISTER(1) { T x; }; struct B REGISTER(1) {};"
    let second := "struct V { T p; };"
    let one := (s.append first .constantBuffer).1.append second .vertexInput
    let other := (s.append second .vertexInput).1.append first .constantBuffer
    DeclaresNoAlias first ∧ DeclaresNoAlias second ∧ one.2 = none ∧ other.2 = none ∧
      (one.1.generate .constantBuffer).2 =
        .error (.registerConflict .constantBuffer ⟨'b', 1⟩ "A" "B" ⟨38, 1, 39⟩ 1) ∧
      (other.1.generate .constantBuffer).2 =
        .error (.registerConflict .constantBuffer ⟨'b', 1⟩ "A" "B" ⟨38, 1, 39⟩ 2) ∧
      (∀ k, SameAnswer k (one.1.generate k).2 (other.1.generate k).2) ∧
      ∀ name, (one.1.find? name).map Aggregate.unnumbered =
        (other.1.find? name).map Aggregate.unnumbered := by
  intro s first second one other
  have hkinds : Kind.constantBuffer ≠ .vertexInput := by decide
  obtain ⟨hfirst, hsecond, hone, hconflict, hconflict'⟩ :
      DeclaresNoAlias first ∧ DeclaresNoAlias second ∧
        ((s.append first .constantBuffer).2 = none ∧ one.2 = none) ∧
        (one.1.generate .constantBuffer).2 =
          .error (.registerConflict .constantBuffer ⟨'b', 1⟩ "A" "B" ⟨38, 1, 39⟩ 1) ∧
        (other.1.generate .constantBuffer).2 =
          .error (.registerConflict .constantBuffer ⟨'b', 1⟩ "A" "B" ⟨38, 1, 39⟩ 2) := by
    decide +kernel
  obtain ⟨horder, hsame⟩ := append_append_comm {} [.append "using T = int;" .structuredBuffer]
    hfirst hsecond hkinds
  exact ⟨hfirst, hsecond, hone.2, (horder.1 hone).2, hconflict, hconflict', hsame hone⟩

end Session

end ShaderInterface
