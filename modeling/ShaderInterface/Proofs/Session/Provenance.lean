import ShaderInterface.Proofs.Catalog.Entries
import ShaderInterface.Proofs.Declaration.Locations
import ShaderInterface.Proofs.Session.Runs

/-!
# Where entries and errors come from

A session numbers the headers of its catalog. Whatever has been done to it, every entry and every
field stands where its name stands in the header that the entry counts as one of, and the location of
an error lies in the header that it is about: in the one that was being added, or for a conflict of
registers in the one that the error names (`Session.provenance`).
-/
namespace ShaderInterface

/-! ## Errors about declarations -/

/-- The error stands at one of the locations, in the header that is being added. -/
def CompileError.At (ls : List Location) (e : CompileError) : Prop :=
  e.sourceIndex? = none ∧ ∃ l ∈ ls, e.location? = some l

theorem CompileError.At.mono {ls ms : List Location} {e : CompileError} (h : e.At ls)
    (hsub : ls ⊆ ms) : e.At ms := by
  obtain ⟨hindex, l, hl, hlocation⟩ := h
  exact ⟨hindex, l, hsub hl, hlocation⟩

section
variable {aliases : AliasTable} {kind : Kind} {aggregate : String} {e : CompileError}

theorem FieldDecl.resolve_error {f : FieldDecl} (h : f.resolve aliases kind aggregate = .error e) :
    e.At f.locations := by
  unfold FieldDecl.resolve at h
  split at h
  · cases h
    exact ⟨rfl, f.type.location, by simp [locations], rfl⟩
  split at h
  · cases h
    exact ⟨rfl, f.type.location, by simp [locations], rfl⟩
  dsimp only at h
  split_ifs at h
  cases h
  exact ⟨rfl, f.location, by simp [locations], rfl⟩

theorem resolveFields_error : ∀ {fs : List FieldDecl},
    resolveFields aliases kind aggregate fs = .error e → e.At (fs.flatMap FieldDecl.locations)
  | [], h => by cases h
  | f :: fs, h => by
    unfold resolveFields at h
    split at h
    · next e' hfield =>
      cases h
      exact (FieldDecl.resolve_error hfield).mono (List.subset_append_left _ _)
    split at h
    · next e' hrest =>
      cases h
      exact (resolveFields_error hrest).mono (List.subset_append_right _ _)
    · cases h

namespace Catalog
variable {c : Catalog}

theorem declare_error {d : Declaration} (h : c.declare kind d = .error e) : e.At d.locations := by
  cases d with
  | typeAlias d =>
    simp only [declare] at h
    split at h
    · cases h
    · cases h
      exact ⟨rfl, d.location, List.mem_cons_self, rfl⟩
  | aggregate d =>
    simp only [declare] at h
    split at h
    · next e' hres =>
      cases h
      unfold resolve at hres
      split at hres
      · next e'' hfields =>
        cases hres
        exact (resolveFields_error hfields).mono (List.subset_cons_self _ _)
      · cases hres
    · next a hres =>
      obtain ⟨members, -, rfl⟩ := resolve_eq_ok_iff.1 hres
      unfold insert at h
      split at h
      · cases h
        exact ⟨rfl, d.location, List.mem_cons_self, rfl⟩
      · cases h

theorem extend_error {ds : List Declaration} (h : (c.extend kind ds).2 = some e) :
    ∃ d ∈ ds, e.At d.locations := by
  rcases extend_cases kind ds c with ⟨mid, -, hext⟩ | ⟨before, d, behind, mid, e', rfl, -, he, hext⟩
  · simp [hext] at h
  · obtain rfl : e' = e := by simpa [hext] using h
    exact ⟨d, by simp, declare_error he⟩

end Catalog

end

/-! ## Entries -/

/-- The aggregate and its fields stand where their names stand in the text. -/
structure Aggregate.StandsIn (text : String) (a : Aggregate) : Prop where
  name : IdentifierAt text a.name a.location
  member : ∀ m ∈ a.members, IdentifierAt text m.name m.location

theorem Aggregate.StandsIn.split {text : String} {a : Aggregate} (h : a.StandsIn text) :
    a.location.LiesIn text := h.name.split

namespace Catalog

theorem standsIn_of_resolve {source : String} {ds : List Declaration} {d : StructDecl}
    (hread : readHeader source = .ok ds) (hd : .aggregate d ∈ ds) {c : Catalog} {kind : Kind}
    {a : Aggregate} (h : c.resolve kind d = .ok a) : a.StandsIn source := by
  obtain ⟨hname, hfields⟩ := identifierAt_of_readHeader hread hd
  constructor
  · obtain ⟨members, -, rfl⟩ := resolve_eq_ok_iff.1 h
    exact hname
  · intro m hm
    obtain ⟨f, hf, m', p, hres, rfl⟩ := field_of_resolve h hm
    obtain ⟨_, _, -, -, rfl, -⟩ := FieldDecl.resolve_cases hres
    exact hfields f hf

/-- Every entry stands in the header that it counts as one of. -/
def FromHeaders (texts : List String) (c : Catalog) : Prop :=
  c.sources = texts.length ∧ ∀ a ∈ c.entries, ∃ text, texts[a.sourceIndex]? = some text ∧
    a.StandsIn text

theorem fromHeaders_empty : empty.FromHeaders [] := ⟨rfl, by simp [empty]⟩

theorem FromHeaders.extend {texts : List String} {c c' : Catalog} (h : c.FromHeaders texts)
    {source : String} {kind : Kind} {ds : List Declaration} (hread : readHeader source = .ok ds)
    (hext : c.extend kind ds = (c', none)) : c'.FromHeaders (texts ++ [source]) := by
  rcases extend_cases kind ds c with ⟨mid, hreach, hmid⟩ | ⟨_, _, _, mid, e, -, -, -, hmid⟩
  · obtain rfl : { mid with sources := mid.sources + 1 } = c' := by
      rw [hmid] at hext
      exact (Prod.mk.inj hext).1
    refine ⟨by simp [hreach.sources_eq, h.1], ?_⟩
    intro a ha
    rcases hreach.mem_entries ha with ha | ⟨d, base, hd, hres, hbase⟩
    · obtain ⟨text, htext, hat⟩ := h.2 a ha
      obtain ⟨hlt, -⟩ := List.getElem?_eq_some_iff.1 htext
      exact ⟨text, by rw [List.getElem?_append_left hlt, htext], hat⟩
    · refine ⟨source, ?_, standsIn_of_resolve hread hd hres⟩
      obtain ⟨members, -, rfl⟩ := resolve_eq_ok_iff.1 hres
      change (texts ++ [source])[base.sources]? = some source
      rw [hbase, h.1]
      simp
  · rw [hmid] at hext
    simp at hext

end Catalog

/-! ## Conflicts of registers -/

theorem checkClaims_error {kind : Kind} {letter : Char} {claimed as : List Aggregate}
    {e : CompileError} (h : checkClaims kind letter claimed as = .error e) :
    ∃ a ∈ as, ∃ slot first, e = .registerConflict kind ⟨letter, slot⟩ first a.qualified a.location
      a.sourceIndex := by
  induction as generalizing claimed with
  | nil => simp [checkClaims] at h
  | cons a as ih =>
    -- Unless `a` itself is refused, the error comes from behind it.
    have hlater {claimed : List Aggregate} (h : checkClaims kind letter claimed as = .error e) :
        ∃ b ∈ a :: as, ∃ slot first, e = .registerConflict kind ⟨letter, slot⟩ first b.qualified
          b.location b.sourceIndex := by
      obtain ⟨b, hb, hconflict⟩ := ih h
      exact ⟨b, List.mem_cons_of_mem a hb, hconflict⟩
    unfold checkClaims at h
    split at h
    · exact hlater h
    · next slot hslot =>
      split at h
      · next first hfirst =>
        cases h
        exact ⟨a, List.mem_cons_self, slot, first.qualified, rfl⟩
      · exact hlater h

namespace Session

/-- The text of a kind fails only for an entry of the catalog that claims a register of another, and
the error says where this entry stands. -/
theorem textOf_conflict {options : EmitOptions} {c : Catalog} {kind : Kind} {e : CompileError}
    (h : textOf options c kind = .error e) :
    ∃ a ∈ c.entries, ∃ register first,
      e = .registerConflict kind register first a.qualified a.location a.sourceIndex := by
  unfold textOf checkRegisters at h
  cases hletter : kind.registerLetter? with
  | none => simp [hletter] at h
  | some letter =>
    simp only [hletter] at h
    split at h
    · next e' hcheck =>
      cases h
      obtain ⟨a, ha, slot, first, rfl⟩ := checkClaims_error hcheck
      refine ⟨a, ?_, ⟨letter, slot⟩, first, rfl⟩
      simp only [Catalog.ofKind, List.mem_filter] at ha
      exact ha.1.1
    · cases h

/-- A generation fails without a catalog, or for an entry of the catalog. -/
theorem generate_error_cases {s : Session} {kind : Kind} {e : CompileError}
    (h : (s.generate kind).2 = .error e) :
    e = .noCatalog ∨ ∃ a ∈ (s.catalog?.getD .empty).entries, e.location? = some a.location ∧
      e.sourceIndex? = some a.sourceIndex := by
  unfold generate at h
  cases hc : s.catalog? with
  | none =>
    simp only [hc] at h
    exact .inl (Except.error.inj h).symm
  | some c =>
    cases htext : s.text? kind with
    | some text => simp [hc, htext] at h
    | none =>
      cases hnew : textOf s.options c kind with
      | ok text => simp [hc, htext, hnew] at h
      | error e' =>
        obtain rfl : e' = e := by simpa [hc, htext, hnew] using h
        obtain ⟨a, ha, register, first, rfl⟩ := textOf_conflict hnew
        exact .inr ⟨a, ha, rfl, rfl⟩

/-- A conflict is about an entry of the catalog, and says where it stands. -/
theorem generate_conflict {s : Session} {kind k : Kind} {register : Register}
    {first second : String} {location : Location} {i : Nat}
    (h : (s.generate kind).2 = .error (.registerConflict k register first second location i)) :
    ∃ a ∈ (s.catalog?.getD .empty).entries, a.location = location ∧ a.sourceIndex = i := by
  rcases generate_error_cases h with hnone | ⟨a, ha, hlocation, hindex⟩
  · cases hnone
  · exact ⟨a, ha, (Option.some.inj hlocation).symm, (Option.some.inj hindex).symm⟩

/-! ## Headers of a run -/

theorem load_error {s : Session} {c : Catalog} {source : String} {kind : Kind} {e : CompileError}
    (h : (s.load c source kind).2 = some e) : e.StandsIn source := by
  unfold load at h
  cases hread : readHeader source with
  | error e' =>
    obtain rfl : e' = e := by simpa [hread] using h
    exact standsIn_of_readHeader hread
  | ok ds =>
    rcases hext : c.extend kind ds with ⟨c', _ | e'⟩
    · simp [hread, hext] at h
    · obtain rfl : e' = e := by simpa [hread, hext] using h
      obtain ⟨d, hd, hindex, l, hl, hlocation⟩ := Catalog.extend_error (congrArg Prod.snd hext)
      exact ⟨hindex, l, hlocation, liesIn_of_readHeader hread d hd l hl⟩

/-- The headers of the catalog behind an action, where those before it are `texts`. -/
def headersBehind (s : Session) (texts : List String) : Action → List String
  | .parse source kind => if (s.parse source kind).2 = none then [source] else []
  | .append source kind => if (s.append source kind).2 = none then texts ++ [source] else []
  | .reset => []
  | .generate _ | .query => texts

/-- The headers that the catalog of a run was made from: those added since it was started. -/
def headersOf (options : EmitOptions) (actions : List Action) : List String :=
  (actions.foldl (fun (s, texts) a => (s.perform a, s.headersBehind texts a)) (new options, [])).2

/-- The catalog of the session is made from the texts. -/
def MadeFrom (texts : List String) (s : Session) : Prop :=
  (s.catalog?.getD .empty).FromHeaders texts

theorem madeFrom_reset (s : Session) : s.reset.MadeFrom [] := Catalog.fromHeaders_empty

theorem madeFrom_load {s : Session} {texts : List String} {c : Catalog} (h : c.FromHeaders texts)
    (source : String) (kind : Kind) :
    (s.load c source kind).1.MadeFrom
      (if (s.load c source kind).2 = none then texts ++ [source] else []) := by
  rcases s.load_cases c source kind with ⟨e, hload⟩ | ⟨ds, c', hread, hext, hload⟩
  · rw [hload]
    exact s.madeFrom_reset
  · rw [hload]
    exact h.extend hread hext

/-- What an action leaves is made from the headers behind it. -/
theorem MadeFrom.perform {s : Session} {texts : List String} (h : s.MadeFrom texts) (a : Action) :
    (s.perform a).MadeFrom (s.headersBehind texts a) := by
  cases a with
  | parse source kind => exact madeFrom_load Catalog.fromHeaders_empty source kind
  | append source kind => exact madeFrom_load h source kind
  | generate kind =>
    show ((s.generate kind).1.catalog?.getD .empty).FromHeaders texts
    rw [generate_catalog?]
    exact h
  | reset => exact s.madeFrom_reset
  | query => exact h

theorem madeFrom_run (actions : List Action) {s : Session} {texts : List String}
    (h : s.MadeFrom texts) :
    (actions.foldl perform s).MadeFrom
      (actions.foldl (fun (s, texts) a => (s.perform a, s.headersBehind texts a)) (s, texts)).2 := by
  induction actions generalizing s texts with
  | nil => exact h
  | cons a actions ih => exact ih (h.perform a)

/-- **Every location belongs to the header it is reported for.** After every run, an entry of the
catalog stands where its name is an identifier of the header with its number, and so do its fields.
Whatever header is read next, an error stands in this header. A located error of a generation names
one of the headers of the catalog and stands in it. -/
theorem provenance (options : EmitOptions) (actions : List Action) :
    let s := after options actions
    let texts := headersOf options actions
    (∀ c, s.catalog? = some c → c.sources = texts.length ∧
      ∀ a ∈ c.entries, ∃ text, texts[a.sourceIndex]? = some text ∧
        IdentifierAt text a.name a.location ∧
        ∀ m ∈ a.members, IdentifierAt text m.name m.location) ∧
    (∀ source kind e, (s.parse source kind).2 = some e ∨ (s.append source kind).2 = some e →
      e.sourceIndex? = none ∧ ∃ l, e.location? = some l ∧ l.LiesIn source) ∧
    ∀ kind e l, (s.generate kind).2 = .error e → e.location? = some l →
      ∃ i text, e.sourceIndex? = some i ∧ texts[i]? = some text ∧ l.LiesIn text := by
  intro s texts
  have hmade : s.MadeFrom texts := madeFrom_run actions Catalog.fromHeaders_empty
  refine ⟨?_, ?_, ?_⟩
  · intro c hc
    rw [MadeFrom, hc] at hmade
    refine ⟨hmade.1, fun a ha => ?_⟩
    obtain ⟨text, htext, hstands⟩ := hmade.2 a ha
    exact ⟨text, htext, hstands.name, hstands.member⟩
  · intro source kind e he
    rcases he with he | he
    · exact load_error he
    · exact load_error he
  · intro kind e l he hl
    rcases generate_error_cases he with rfl | ⟨a, ha, hlocation, hindex⟩
    · cases hl
    · obtain ⟨text, htext, hstands⟩ := hmade.2 a ha
      obtain rfl : a.location = l := Option.some.inj (hlocation.symm.trans hl)
      exact ⟨a.sourceIndex, text, hindex, htext, hstands.split⟩

/-- Headers are counted from the last one that failed, and a conflict is reported for the second of
the two behind it. -/
theorem provenance_conflict :
    let first := "struct A REGISTER(1) { int x; };"
    let second := "/* ü */\nstruct B REGISTER(1) { int x; };"
    let actions := [Action.append first .constantBuffer, .append "struct {}" .constantBuffer,
      .append first .constantBuffer, .generate .constantBuffer, .append second .constantBuffer]
    let e := CompileError.registerConflict .constantBuffer ⟨'b', 1⟩ "A" "B" ⟨16, 2, 8⟩ 1
    ((after {} actions).generate .constantBuffer).2 = .error e ∧
      headersOf {} actions = [first, second] ∧ Location.LiesIn second ⟨16, 2, 8⟩ := by
  intro first second actions e
  obtain ⟨he, htexts⟩ : ((after {} actions).generate .constantBuffer).2 = .error e ∧
      headersOf {} actions = [first, second] := by
    decide +kernel
  obtain ⟨-, -, hgenerate⟩ := provenance {} actions
  obtain ⟨i, text, hi, htext, hlies⟩ := hgenerate .constantBuffer e _ he rfl
  obtain rfl : 1 = i := Option.some.inj hi
  rw [htexts] at htext
  obtain rfl : second = text := Option.some.inj htext
  exact ⟨he, htexts, hlies⟩

end Session

end ShaderInterface
