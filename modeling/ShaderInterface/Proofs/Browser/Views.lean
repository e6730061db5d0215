import ShaderInterface.Browser.Frame
import ShaderInterface.Proofs.Browser.ErrorLine

/-!
# What a browser shows

Between two choices of a kind nothing that the browser shows about the kind changes, and a choice
shows what a new browser of this kind would show: what was generated before, with success or not,
leaves no trace. So only the last choice counts (`Browser.view_after`).
-/
namespace ShaderInterface.Browser

/-- What the browser shows about its kind. -/
structure View where
  kind : Kind
  types : List Aggregate
  output : Option String
  errorLine : Option Nat
  status : String
  isError : Bool
deriving DecidableEq, Repr

def view (b : Browser) : View := ⟨b.kind, b.types, b.output, b.errorLine, b.status, b.isError⟩

/-! ## Events -/

/-- What can happen to a browser. -/
inductive Event where
  | key (key : Key)
  | draw (width height : Nat)
deriving DecidableEq, Repr

/-- The browser after an event. -/
def handle (b : Browser) : Event → Browser
  | .key key => b.press key
  | .draw width height => (b.draw width height).1

/-- The kind that an event asks for. -/
def Event.choice? : Event → Option Kind
  | .key (.char '1') => some .vertexInput
  | .key (.char '2') => some .constantBuffer
  | .key (.char '3') => some .structuredBuffer
  | _ => none

/-- The kind asked for last, and `kind` if none was. -/
def lastChoice (kind : Kind) (events : List Event) : Kind :=
  (events.filterMap Event.choice?).getLast?.getD kind

@[simp] theorem lastChoice_append (kind : Kind) (events : List Event) (e : Event) :
    lastChoice kind (events ++ [e]) = e.choice?.getD (lastChoice kind events) := by
  unfold lastChoice
  cases hchoice : e.choice? <;> simp [hchoice]

/-! ## Choosing a kind -/

/-- The view of a kind whose text is the answer of a session. -/
def viewOf (s : Session) (starts : List Nat) (kind : Kind) : View :=
  { kind := kind
    types := (s.catalog?.map fun c => c.ofKind kind).getD []
    output := (s.generate kind).2.toOption
    errorLine := answerLine starts (s.generate kind).2
    status := match (s.generate kind).2 with
      | .ok _ => "Generated " ++ kind.message
      | .error e => e.message
    isError := (s.generate kind).2.toOption.isNone }

theorem view_select (b : Browser) (kind : Kind) :
    (b.select kind).view = viewOf b.session b.lineStarts kind := by
  unfold select viewOf Session.ofKind Session.catalog
  cases b.session.catalog? <;> rcases b.session.generate kind with ⟨session, _ | _⟩ <;> rfl

theorem session_select (b : Browser) (kind : Kind) :
    (b.select kind).session = (b.session.generate kind).1 := by
  unfold select
  rcases b.session.generate kind with ⟨session, _ | _⟩ <;> rfl

theorem lineStarts_select (b : Browser) (kind : Kind) : (b.select kind).lineStarts = b.lineStarts := by
  unfold select
  rcases b.session.generate kind with ⟨session, _ | _⟩ <;> rfl

/-- The browser is one of the session `s`, up to texts that were generated, and shows `kind`. -/
structure Shows (s : Session) (starts : List Nat) (kind : Kind) (b : Browser) : Prop where
  catalog? : b.session.catalog? = s.catalog?
  answer : ∀ k, (b.session.generate k).2 = (s.generate k).2
  lineStarts : b.lineStarts = starts
  view : b.view = viewOf s starts kind

section
variable {s : Session} {starts : List Nat} {b : Browser}

/-- Choosing a kind shows it, whatever was generated before. -/
theorem shows_select (hcatalog : b.session.catalog? = s.catalog?)
    (hanswer : ∀ k, (b.session.generate k).2 = (s.generate k).2) (hlines : b.lineStarts = starts)
    (kind : Kind) : (b.select kind).Shows s starts kind where
  catalog? := by rw [session_select, Session.generate_catalog?, hcatalog]
  answer k := by rw [session_select, Session.generate_generate, hanswer]
  lineStarts := by rw [lineStarts_select, hlines]
  view := by rw [view_select, viewOf, viewOf, hanswer, hcatalog, hlines]

theorem shows_new (s : Session) (sources : List String) (kind : Kind) :
    (new s sources kind).Shows s (countLines 0 sources) kind :=
  shows_select (by rfl) (fun _ => by rfl) (by rfl) kind

/-- An event chooses a kind, or touches neither the session nor what is shown about the kind. -/
theorem handle_cases (b : Browser) (e : Event) :
    (∃ k, e.choice? = some k ∧ b.handle e = b.select k) ∨
      e.choice? = none ∧ (b.handle e).session = b.session ∧
        (b.handle e).lineStarts = b.lineStarts ∧ (b.handle e).view = b.view := by
  cases e with
  | draw width height => exact .inr ⟨rfl, rfl, rfl, rfl⟩
  | key key =>
    have hhandle : b.handle (.key key) = b.press key := rfl
    rw [hhandle]
    unfold press
    split
    case h_4 => exact .inl ⟨.vertexInput, rfl, rfl⟩
    case h_5 => exact .inl ⟨.constantBuffer, rfl, rfl⟩
    case h_6 => exact .inl ⟨.structuredBuffer, rfl, rfl⟩
    case h_13 c _ _ _ _ _ =>
      have hchoice : (Event.key (.char c)).choice? = none := by
        unfold Event.choice?
        split <;> simp_all
      exact .inr ⟨hchoice, rfl, rfl, rfl⟩
    -- No other key chooses a kind.
    all_goals exact .inr ⟨rfl, rfl, rfl, rfl⟩

/-- One event. -/
theorem Shows.handle {kind : Kind} (h : b.Shows s starts kind) (e : Event) :
    (b.handle e).Shows s starts (e.choice?.getD kind) := by
  obtain ⟨k, hchoice, hselect⟩ | ⟨hchoice, hsession, hlines, hview⟩ := b.handle_cases e
  · rw [hchoice, hselect]
    exact shows_select h.catalog? h.answer h.lineStarts k
  · rw [hchoice]
    refine ⟨?_, ?_, ?_, ?_⟩
    · rw [hsession, h.catalog?]
    · intro k
      rw [hsession, h.answer]
    · rw [hlines, h.lineStarts]
    · exact hview.trans h.view

end

/-- Any number of events. -/
theorem shows_events (s : Session) (sources : List String) (kind : Kind) (events : List Event) :
    (events.foldl handle (new s sources kind)).Shows s (countLines 0 sources)
      (lastChoice kind events) := by
  induction events using List.reverseRecOn with
  | nil => exact shows_new s sources kind
  | append_singleton events e ih =>
    rw [List.foldl_append, lastChoice_append]
    exact ih.handle e

/-- **Only the last choice counts.** However keys and draws follow each other, the browser shows what
a new browser of the kind chosen last shows. It shows an error if and only if it has no text, which is
when the session cannot generate one, with or without texts that it remembers. Its types are those of
the catalog, which stays as it was. -/
theorem view_after (s : Session) (sources : List String) (kind : Kind) (events : List Event) :
    let b := events.foldl handle (new s sources kind)
    let chosen := lastChoice kind events
    b.view = (new s sources chosen).view ∧ b.kind = chosen ∧
      (b.isError = true ↔ b.output = none) ∧
      (b.output = none ↔ ∃ e, (s.generate chosen).2 = .error e) ∧
      (∀ options, s.Coherent options → (b.output = none ↔ ∃ e, s.fresh chosen = .error e)) ∧
      b.types = (s.catalog?.map fun c => c.ofKind chosen).getD [] ∧
      b.session.catalog? = s.catalog? := by
  intro b chosen
  have h : b.Shows s (countLines 0 sources) chosen := shows_events s sources kind events
  have hoption (answer : Except CompileError String) :
      answer.toOption = none ↔ ∃ e, answer = .error e := by
    cases answer <;> simp [Except.toOption]
  have hkind : b.kind = chosen := congrArg View.kind h.view
  have houtput : b.output = (s.generate chosen).2.toOption := congrArg View.output h.view
  have herror : b.isError = (s.generate chosen).2.toOption.isNone := congrArg View.isError h.view
  refine ⟨?_, hkind, ?_, ?_, ?_, congrArg View.types h.view, h.catalog?⟩
  · rw [h.view, (shows_new s sources chosen).view]
  · rw [herror, houtput, Option.isNone_iff_eq_none]
  · rw [houtput, hoption]
  · intro options hcoherent
    rw [houtput, hcoherent.generate_eq_fresh, hoption]

end ShaderInterface.Browser
