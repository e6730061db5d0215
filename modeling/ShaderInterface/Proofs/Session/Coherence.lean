import ShaderInterface.Proofs.Session.Runs

/-!
# Remembered texts belong to the catalog

The stage of a session, its catalog and its remembered texts always fit together (`Coherent`), and a
remembered text is the one that the catalog of this moment gives. So generating gives what it would
give without remembering (`fresh`).
-/
namespace ShaderInterface.Session

/-- What a session looks like between two actions. -/
structure Coherent (options : EmitOptions) (s : Session) : Prop where
  options_eq : s.options = options
  empty_iff : s.stage = .empty ↔ s.catalog? = none
  empty : s.stage = .empty → ∀ k, s.text? k = none
  parsed : s.stage = .parsed → (∃ c, s.catalog? = some c) ∧ ∀ k, s.text? k = none
  generated : ∀ k, s.stage = .generated k →
    (∃ c, s.catalog? = some c) ∧ ∃ text, s.text? k = some text
  /-- A remembered text is that of the catalog, whose registers pass the check. -/
  remembered : ∀ k text, s.text? k = some text → ∃ c, s.catalog? = some c ∧
    checkRegisters k (c.ofKind k) = .ok () ∧ text = emit k (c.ofKind k) options

/-- The text of a kind, checked and written from the catalog without a look at remembered texts. -/
def fresh (s : Session) (kind : Kind) : Except CompileError String := do
  let c ← s.catalog
  checkRegisters kind (c.ofKind kind)
  return emit kind (c.ofKind kind) s.options

theorem textOf_eq_ok {options : EmitOptions} {c : Catalog} {kind : Kind} {text : String}
    (h : textOf options c kind = .ok text) :
    checkRegisters kind (c.ofKind kind) = .ok () ∧ text = emit kind (c.ofKind kind) options := by
  unfold textOf at h
  split at h
  · cases h
  case h_2 hcheck =>
    cases h
    exact ⟨hcheck, rfl⟩

/-- The text of a kind comes from the catalog alone. -/
theorem fresh_of_catalog {s : Session} {c : Catalog} (hc : s.catalog? = some c) (kind : Kind) :
    s.fresh kind = textOf s.options c kind := by
  unfold fresh catalog textOf
  rw [hc]
  change (checkRegisters kind (c.ofKind kind) >>= fun _ =>
    .ok (emit kind (c.ofKind kind) s.options)) = _
  cases checkRegisters kind (c.ofKind kind) with
  | error e => rfl
  | ok _ => rfl

/-- Behind a new text, a kind has this text or the one it had before. -/
theorem text?_cons (s : Session) (kind k : Kind) (text : String) (stage : Stage) :
    text? { s with texts := (kind, text) :: s.texts, stage := stage } k =
      if kind = k then some text else s.text? k := by
  by_cases hk : kind = k <;> simp [text?, hk]

/-- An answer comes from the catalog, the options and the text that the session holds. -/
theorem generate_answer (s : Session) (kind : Kind) : (s.generate kind).2 =
    match s.catalog?, s.text? kind with
    | none, _ => .error .noCatalog
    | some _, some text => .ok text
    | some c, none => textOf s.options c kind := by
  cases hc : s.catalog? with
  | none => simp only [generate, hc]
  | some c =>
    cases htext : s.text? kind with
    | some text => simp only [generate, hc, htext]
    | none =>
      simp only [generate, hc, htext]
      cases textOf s.options c kind <;> rfl

/-- What was generated before does not change an answer. -/
theorem generate_generate (s : Session) (before kind : Kind) :
    ((s.generate before).1.generate kind).2 = (s.generate kind).2 := by
  rcases s.generate_cases before with ⟨e, hgen⟩ | ⟨text, -, hgen⟩ | ⟨c, text, hc, htext, hgen⟩
  · rw [hgen]
  · rw [hgen, generate_answer, generate_answer]
    rfl
  · by_cases hkind : before = kind
    · -- The text is held now, and it is the answer that was given.
      subst hkind
      rw [hgen, generate_answer, text?_cons, if_pos rfl, hc]
    · rw [hgen, generate_answer, generate_answer, text?_cons, if_neg hkind]

/-! ## One action -/

section
variable {options : EmitOptions} {s : Session}

theorem coherent_new (options : EmitOptions) : Coherent options (new options) where
  options_eq := rfl
  empty_iff := by simp [new]
  empty := by simp [new, text?]
  parsed := by simp [new]
  generated := by simp [new]
  remembered := by simp [new, text?]

theorem Coherent.withCatalog (h : Coherent options s) (c : Catalog) :
    Coherent options (s.withCatalog c) where
  options_eq := h.options_eq
  empty_iff := by simp [Session.withCatalog]
  empty := by simp [Session.withCatalog]
  parsed := fun _ => ⟨⟨c, rfl⟩, by simp [Session.withCatalog, text?]⟩
  generated := by simp [Session.withCatalog]
  remembered := by simp [Session.withCatalog, text?]

theorem Coherent.reset_eq (h : Coherent options s) : s.reset = new options := by
  rw [reset, h.options_eq]

theorem Coherent.load (h : Coherent options s) (c : Catalog) (source : String) (kind : Kind) :
    Coherent options (s.load c source kind).1 := by
  rcases s.load_cases c source kind with ⟨e, heq⟩ | ⟨ds, c', -, -, heq⟩
  · rw [heq, h.reset_eq]
    exact coherent_new options
  · rw [heq]
    exact h.withCatalog c'

theorem Coherent.generate (h : Coherent options s) (kind : Kind) :
    Coherent options (s.generate kind).1 := by
  rcases s.generate_cases kind with ⟨e, heq⟩ | ⟨text, htext, heq⟩ | ⟨c, text, hc, htext, heq⟩
  all_goals rw [heq]
  · exact h
  · -- the stage moves to a kind that has a text already
    obtain ⟨c, hc, -⟩ := h.remembered kind text htext
    refine ⟨h.options_eq, by simp [hc], by simp, by simp, ?_, h.remembered⟩
    intro k hk
    cases hk
    exact ⟨⟨c, hc⟩, text, htext⟩
  · -- a text is added, and it is that of the catalog
    obtain ⟨hcheck, hemit⟩ := textOf_eq_ok htext
    refine ⟨h.options_eq, by simp [hc], by simp, by simp, ?_, ?_⟩
    · intro k hk
      cases hk
      exact ⟨⟨c, hc⟩, text, by simp [text?_cons]⟩
    · intro k text' hk
      rw [text?_cons] at hk
      by_cases hkind : kind = k
      · subst hkind
        obtain rfl : text = text' := by simpa using hk
        exact ⟨c, hc, hcheck, by rw [hemit, h.options_eq]⟩
      · exact h.remembered k text' (by simpa [hkind] using hk)

theorem Coherent.perform (h : Coherent options s) (a : Action) :
    Coherent options (s.perform a) := by
  cases a with
  | parse source kind => exact h.load _ source kind
  | append source kind => exact h.load _ source kind
  | generate kind => exact h.generate kind
  | reset =>
    rw [Session.perform, h.reset_eq]
    exact coherent_new options
  | query => exact h

/-! ## What generating and failing give -/

theorem Coherent.generate_eq_fresh (h : Coherent options s) (kind : Kind) :
    (s.generate kind).2 = s.fresh kind := by
  cases hc : s.catalog? with
  | none =>
    simp only [Session.generate, hc, fresh, catalog]
    rfl
  | some c =>
    rw [fresh_of_catalog hc]
    cases ht : s.text? kind with
    | none =>
      simp only [Session.generate, hc, ht]
      cases htext : textOf s.options c kind with
      | error e => rfl
      | ok text => rfl
    | some text =>
      -- The remembered text is what the catalog gives now.
      obtain ⟨c', hc', hcheck, rfl⟩ := h.remembered kind text ht
      obtain rfl : c = c' := by simpa [hc] using hc'
      simp [Session.generate, hc, ht, textOf, hcheck, h.options_eq]

theorem generate_error {kind : Kind} {e : CompileError} (h : (s.generate kind).2 = .error e) :
    (s.generate kind).1 = s := by
  rcases s.generate_cases kind with ⟨e', heq⟩ | ⟨text, -, heq⟩ | ⟨c, text, -, -, heq⟩
  · rw [heq]
  · simp [heq] at h
  · simp [heq] at h

theorem Coherent.load_failed (h : Coherent options s) {c : Catalog} {source : String} {kind : Kind}
    {e : CompileError} (he : (s.load c source kind).2 = some e) :
    (s.load c source kind).1 = new options := by
  rcases s.load_cases c source kind with ⟨e', heq⟩ | ⟨ds, c', -, -, heq⟩
  · rw [heq]
    exact h.reset_eq
  · simp [heq] at he

/-- Behind a header that is added, a session has the extended catalog and no texts. -/
theorem Coherent.load_eq_ok_iff (h : Coherent options s) {s' : Session} {c : Catalog}
    {source : String} {kind : Kind} :
    s.load c source kind = (s', none) ↔ ∃ ds c', readHeader source = .ok ds ∧
      c.extend kind ds = (c', none) ∧ s' = ⟨some c', [], options, .parsed⟩ := by
  rw [Session.load_eq_ok_iff, ← h.options_eq]
  rfl

end

/-- **After every run the session is coherent.** Generating gives what it would give without
remembered texts, a failing generation changes nothing, and a failing header leaves a new
session. A header that can be read and added to the catalog, to an empty one if it is parsed, leaves
a session with the catalog that this gives, and with no text. -/
theorem coherent_after (options : EmitOptions) (actions : List Action) :
    Coherent options (after options actions) ∧
    (∀ kind, ((after options actions).generate kind).2 = (after options actions).fresh kind) ∧
    (∀ kind e, ((after options actions).generate kind).2 = .error e →
      ((after options actions).generate kind).1 = after options actions) ∧
    (∀ source kind e, ((after options actions).parse source kind).2 = some e →
      ((after options actions).parse source kind).1 = new options) ∧
    (∀ source kind e, ((after options actions).append source kind).2 = some e →
      ((after options actions).append source kind).1 = new options) ∧
    (∀ source kind s, (after options actions).parse source kind = (s, none) ↔
      ∃ ds c, readHeader source = .ok ds ∧ Catalog.empty.extend kind ds = (c, none) ∧
        s = ⟨some c, [], options, .parsed⟩) ∧
    (∀ source kind s, (after options actions).append source kind = (s, none) ↔
      ∃ ds c, readHeader source = .ok ds ∧
        ((after options actions).catalog?.getD .empty).extend kind ds = (c, none) ∧
        s = ⟨some c, [], options, .parsed⟩) := by
  have h : Coherent options (after options actions) :=
    after_induction (coherent_new options) fun s a _ hs => hs.perform a
  exact ⟨h, h.generate_eq_fresh, fun _ _ he => generate_error he, fun _ _ _ he => h.load_failed he,
    fun _ _ _ he => h.load_failed he, fun _ _ _ => h.load_eq_ok_iff, fun _ _ _ => h.load_eq_ok_iff⟩

end ShaderInterface.Session
