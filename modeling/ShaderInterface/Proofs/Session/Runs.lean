import ShaderInterface.Session

/-!
# Runs of a session

An `Action` is one thing that can be done to a session; a run does any number of them, one after
the other, from a new session on. What holds of a new session and survives every action holds after
every run, and what holds of the empty catalog and survives every header holds of the catalog of a
run.
-/
namespace ShaderInterface.Session

inductive Action where
  | parse (source : String) (kind : Kind)
  | append (source : String) (kind : Kind)
  | generate (kind : Kind)
  | reset
  /-- Any question about the session. -/
  | query
deriving DecidableEq, Repr

/-- The header that an action reads. -/
def Action.source? : Action → Option String
  | .parse source _ | .append source _ => some source
  | _ => none

/-- The session after an action, whether it succeeds or not. -/
def perform (s : Session) : Action → Session
  | .parse source kind => (s.parse source kind).1
  | .append source kind => (s.append source kind).1
  | .generate kind => (s.generate kind).1
  | .reset => s.reset
  | .query => s

/-- The session after actions on a new one. -/
def after (options : EmitOptions) (actions : List Action) : Session :=
  actions.foldl perform (new options)

/-! ## What an action does -/

theorem load_cases (s : Session) (c : Catalog) (source : String) (kind : Kind) :
    (∃ e, s.load c source kind = (s.reset, some e)) ∨
      ∃ ds c', readHeader source = .ok ds ∧ c.extend kind ds = (c', none) ∧
        s.load c source kind = (s.withCatalog c', none) := by
  unfold load
  cases hread : readHeader source with
  | error e => exact .inl ⟨e, rfl⟩
  | ok ds =>
    rcases hext : c.extend kind ds with ⟨c', _ | e⟩
    · exact .inr ⟨ds, c', rfl, hext, by simp [hext]⟩
    · exact .inl ⟨e, by simp [hext]⟩

/-- A header is added if it can be read and extends the catalog, which then takes the place of the
one before. -/
theorem load_eq_ok_iff {s s' : Session} {c : Catalog} {source : String} {kind : Kind} :
    s.load c source kind = (s', none) ↔ ∃ ds c', readHeader source = .ok ds ∧
      c.extend kind ds = (c', none) ∧ s' = s.withCatalog c' := by
  constructor
  · intro h
    rcases s.load_cases c source kind with ⟨e, hload⟩ | ⟨ds, c', hread, hext, hload⟩
    · rw [hload] at h
      simp at h
    · rw [hload] at h
      exact ⟨ds, c', hread, hext, (Prod.mk.inj h).1.symm⟩
  · rintro ⟨ds, c', hread, hext, rfl⟩
    simp only [load, hread, hext]

theorem append_eq_ok {s s' : Session} {source : String} {kind : Kind}
    (h : s.append source kind = (s', none)) :
    ∃ ds c, readHeader source = .ok ds ∧
      (s.catalog?.getD .empty).extend kind ds = (c, none) ∧ s' = s.withCatalog c :=
  load_eq_ok_iff.1 h

theorem append_of_extend {s : Session} {source : String} {kind : Kind} {ds : List Declaration}
    {c : Catalog} (hread : readHeader source = .ok ds)
    (hext : (s.catalog?.getD .empty).extend kind ds = (c, none)) :
    s.append source kind = (s.withCatalog c, none) :=
  load_eq_ok_iff.2 ⟨ds, c, hread, hext, rfl⟩

theorem generate_cases (s : Session) (kind : Kind) :
    (∃ e, s.generate kind = (s, .error e)) ∨
    (∃ text, s.text? kind = some text ∧
      s.generate kind = ({ s with stage := .generated kind }, .ok text)) ∨
    ∃ c text, s.catalog? = some c ∧ textOf s.options c kind = .ok text ∧
      s.generate kind =
        ({ s with texts := (kind, text) :: s.texts, stage := .generated kind }, .ok text) := by
  unfold generate
  cases hc : s.catalog? with
  | none => exact .inl ⟨_, rfl⟩
  | some c =>
    cases ht : s.text? kind with
    | some text => exact .inr (.inl ⟨text, rfl, rfl⟩)
    | none =>
      cases hnew : textOf s.options c kind with
      | error e => exact .inl ⟨e, by simp [hnew]⟩
      | ok text => exact .inr (.inr ⟨c, text, rfl, hnew, by simp [hnew]⟩)

/-- Generating never touches the catalog. -/
theorem generate_catalog? (s : Session) (kind : Kind) :
    (s.generate kind).1.catalog? = s.catalog? := by
  rcases s.generate_cases kind with ⟨e, h⟩ | ⟨text, -, h⟩ | ⟨c, text, -, -, h⟩ <;> rw [h]

/-- Behind a header, a text is made from the catalog. -/
theorem generate_withCatalog (s : Session) (c : Catalog) (kind : Kind) :
    ((s.withCatalog c).generate kind).2 = textOf s.options c kind := by
  simp only [withCatalog, generate, text?]
  cases textOf s.options c kind <;> rfl

/-! ## What a run keeps -/

section
variable {options : EmitOptions} {actions : List Action}

theorem after_induction {P : Session → Prop} (hnew : P (new options))
    (hperform : ∀ s, ∀ a ∈ actions, P s → P (s.perform a)) : P (after options actions) := by
  -- The actions still to come shrink, the run they belong to does not.
  have go (as : List Action) (hsub : ∀ a ∈ as, a ∈ actions) (s : Session) (hs : P s) :
      P (as.foldl perform s) := by
    induction as generalizing s with
    | nil => exact hs
    | cons a as ih =>
      have ha : a ∈ actions := hsub a (by simp)
      exact ih (fun b hb => hsub b (by simp [hb])) _ (hperform s a ha hs)
  exact go actions (fun _ ha => ha) _ hnew

/-- The headers that a run is given. -/
def Given (actions : List Action) (source : String) : Prop := ∃ a ∈ actions, a.source? = some source

theorem catalog_induction {P : Catalog → Prop} (hempty : P .empty)
    (hextend : ∀ source kind c ds c', Given actions source → P c → readHeader source = .ok ds →
      Catalog.extend c kind ds = (c', none) → P c') {c : Catalog}
    (hc : (after options actions).catalog? = some c) : P c := by
  -- Parsing loads into the empty catalog, appending into the one that is there.
  have hload (s : Session) (source : String) (kind : Kind) (hgiven : Given actions source)
      (base : Catalog) (hbase : P base) : ∀ c ∈ (s.load base source kind).1.catalog?, P c := by
    rcases s.load_cases base source kind with ⟨e, h⟩ | ⟨ds, c', hread, hext, h⟩
    · simp [h, reset, new]
    · simpa [h, withCatalog] using hextend source kind base ds c' hgiven hbase hread hext
  have hall : ∀ c ∈ (after options actions).catalog?, P c := by
    refine after_induction (P := fun s => ∀ c ∈ s.catalog?, P c) (by simp [new]) ?_
    intro s a ha hs
    cases a with
    | parse source kind => exact hload s source kind ⟨_, ha, rfl⟩ .empty hempty
    | append source kind =>
      refine hload s source kind ⟨_, ha, rfl⟩ (s.catalog?.getD .empty) ?_
      cases hbase : s.catalog? with
      | none => exact hempty
      | some base => exact hs base hbase
    | generate kind => rwa [perform, generate_catalog?]
    | reset => simp [perform, reset, new]
    | query => exact hs
  exact hall c hc

end

end ShaderInterface.Session
