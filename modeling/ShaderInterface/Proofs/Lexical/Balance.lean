import ShaderInterface.Proofs.Lexical.Insertion

/-!
# Balance of groups

`WellNested` says which tokens are balanced, without a stack: every opener has its closer behind it and
what stands between the two is balanced again. `LeavesOpen` says the same of tokens that may leave groups
open. Cutting a text into tokens without looking at groups (`LexicalRules.tokenizeFlat`) decides both, and
`LexicalRules.tokenize_balance` says exactly when and where the check of groups adds an error. That it
does not matter whether groups are checked behind the cutting or during it is
`LexicalRules.tokenize_eq_run`.
-/
namespace ShaderInterface

/-! ## Balanced tokens -/

namespace RawToken

def IsOpen (t : RawToken) : Prop := ∃ opener closer, t.shape = .groupOpen opener closer

def IsClose (t : RawToken) : Prop := ∃ closer, t.shape = .groupClose closer

/-- The first character of the text; a grouping character has no other one. -/
def char? (t : RawToken) : Option Char := t.text.toList.head?

/-- The closer of the first group in the table that an opener opens. -/
def closer? (rules : LexicalRules) (t : RawToken) : Option Char := t.char?.bind rules.closerOf

end RawToken

/-- Tokens in which every group is closed, with the closer of its opener. -/
inductive WellNested (rules : LexicalRules) : List RawToken → Prop where
  | nil : WellNested rules []
  | other {t : RawToken} {ts : List RawToken} : ¬t.IsOpen → ¬t.IsClose → WellNested rules ts →
      WellNested rules (t :: ts)
  | group {o c : RawToken} {inner ts : List RawToken} {closer : Char} : o.IsOpen → c.IsClose →
      o.closer? rules = some closer → c.char? = some closer → WellNested rules inner →
      WellNested rules ts → WellNested rules (o :: inner ++ c :: ts)

/-- Tokens in which every close closes the innermost group; `opens` are the openers of the groups that
are still open behind them, the innermost first. -/
inductive LeavesOpen (rules : LexicalRules) : List RawToken → (opens : List RawToken) → Prop where
  | nested {ts : List RawToken} : WellNested rules ts → LeavesOpen rules ts []
  | group {ts us opens : List RawToken} {o : RawToken} : LeavesOpen rules ts opens → o.IsOpen →
      WellNested rules us → LeavesOpen rules (ts ++ o :: us) (o :: opens)

section
variable {rules : LexicalRules} {ts us opens : List RawToken} {t o : RawToken}

theorem WellNested.append (h : WellNested rules ts) (h' : WellNested rules us) :
    WellNested rules (ts ++ us) := by
  induction h with
  | nil => exact h'
  | other hopen hclose _ ih => exact .other hopen hclose ih
  | group hopen hclose hcloser hchar hinner _ _ ih =>
    simpa using WellNested.group hopen hclose hcloser hchar hinner ih

theorem LeavesOpen.append (h : LeavesOpen rules ts opens) (h' : WellNested rules us) :
    LeavesOpen rules (ts ++ us) opens := by
  cases h with
  | nested h => exact .nested (h.append h')
  | group h hopen hinner => simpa using LeavesOpen.group h hopen (hinner.append h')

theorem LeavesOpen.close {closer : Char} (h : LeavesOpen rules ts (o :: opens)) (hclose : t.IsClose)
    (hcloser : o.closer? rules = some closer) (hchar : t.char? = some closer) :
    LeavesOpen rules (ts ++ [t]) opens := by
  cases h with
  | group h hopen hinner =>
    simpa using h.append (.group hopen hclose hcloser hchar hinner .nil)

theorem wellNested_iff : WellNested rules ts ↔ LeavesOpen rules ts [] := by
  constructor
  · exact .nested
  · intro h
    cases h with
    | nested h => exact h

end

/-! ## One token after the other -/

/-- The openers of the groups that are open behind a token; `none` if it closes another group. -/
def RawToken.nest (rules : LexicalRules) (opens : List RawToken) (t : RawToken) :
    Option (List RawToken) :=
  match t.shape with
  | .groupOpen _ _ => some (t :: opens)
  | .groupClose _ =>
    match opens with
    | [] => none
    | o :: outer => if o.closer? rules = t.char? then some outer else none
  | _ => some opens

/-- The openers of the groups that are open behind some tokens. -/
def nestTokens (rules : LexicalRules) (opens ts : List RawToken) : Option (List RawToken) :=
  ts.foldlM (RawToken.nest rules) opens

/-- The character of a grouping token is in its text, and the closer of an opener in the table. -/
def RawToken.Grouped (rules : LexicalRules) (t : RawToken) : Prop :=
  match t.shape with
  | .groupOpen opener closer => t.char? = some opener ∧ rules.closerOf opener = some closer
  | .groupClose closer => t.char? = some closer ∧ 0 < t.length
  | _ => True

section
variable {rules : LexicalRules} {ts us opens opens' : List RawToken} {t : RawToken}

theorem nestTokens_append (opens ts us : List RawToken) : nestTokens rules opens (ts ++ us) =
    (nestTokens rules opens ts).bind fun inner => nestTokens rules inner us :=
  List.foldlM_append

theorem nestTokens_cons (opens ts : List RawToken) (t : RawToken) :
    nestTokens rules opens (t :: ts) =
      (t.nest rules opens).bind fun inner => nestTokens rules inner ts :=
  List.foldlM_cons

theorem WellNested.nestTokens_eq (h : WellNested rules ts) (opens : List RawToken) :
    nestTokens rules opens ts = some opens := by
  induction h generalizing opens with
  | nil => rfl
  | @other t ts hopen hclose _ ih =>
    have hnest : t.nest rules opens = some opens := by
      unfold RawToken.nest
      split
      · exact absurd ⟨_, _, ‹_›⟩ hopen
      · exact absurd ⟨_, ‹_›⟩ hclose
      · rfl
    rw [nestTokens_cons, hnest]
    exact ih opens
  | @group o c inner ts closer hopen hclose hcloser hchar _ _ ihinner ih =>
    obtain ⟨_, _, hopen⟩ := hopen
    obtain ⟨_, hclose⟩ := hclose
    have ho : o.nest rules opens = some (o :: opens) := by simp [RawToken.nest, hopen]
    have hc : c.nest rules (o :: opens) = some opens := by
      simp [RawToken.nest, hclose, hcloser, hchar]
    rw [List.cons_append, nestTokens_cons, ho]
    change nestTokens rules (o :: opens) (inner ++ c :: ts) = some opens
    rw [nestTokens_append, ihinner, Option.bind_some, nestTokens_cons, hc]
    exact ih opens

theorem LeavesOpen.nestTokens_eq (h : LeavesOpen rules ts opens) :
    nestTokens rules [] ts = some opens := by
  induction h with
  | nested h => exact h.nestTokens_eq []
  | @group ts us opens o _ hopen hinner ih =>
    obtain ⟨_, _, hopen⟩ := hopen
    have ho : o.nest rules opens = some (o :: opens) := by simp [RawToken.nest, hopen]
    rw [nestTokens_append, ih, Option.bind_some, nestTokens_cons, ho]
    exact hinner.nestTokens_eq _

/-- Tokens leave the same groups open however they are taken apart. -/
theorem LeavesOpen.unique (h : LeavesOpen rules ts opens) (h' : LeavesOpen rules ts opens') :
    opens = opens' :=
  Option.some.inj (h.nestTokens_eq.symm.trans h'.nestTokens_eq)

/-- What one token does to the open groups. -/
theorem LeavesOpen.nest (h : LeavesOpen rules ts opens) (ht : t.Grouped rules)
    (hnest : t.nest rules opens = some opens') : LeavesOpen rules (ts ++ [t]) opens' := by
  unfold RawToken.nest at hnest
  split at hnest
  · next hshape =>
    cases hnest
    exact .group h ⟨_, _, hshape⟩ .nil
  · next closer hshape =>
    cases opens with
    | nil => cases hnest
    | cons o outer =>
      have hchar : t.char? = some closer := by
        rw [RawToken.Grouped, hshape] at ht
        exact ht.1
      obtain ⟨hcloser, rfl⟩ : o.closer? rules = t.char? ∧ outer = opens' := by simpa using hnest
      exact h.close ⟨closer, hshape⟩ (hcloser.trans hchar) hchar
  · next hopen hclose =>
    cases hnest
    refine h.append (.other ?_ ?_ .nil)
    · rintro ⟨opener, closer, hshape⟩
      exact hopen opener closer hshape
    · rintro ⟨closer, hshape⟩
      exact hclose closer hshape

theorem LeavesOpen.extend (h : LeavesOpen rules ts opens) (hus : ∀ t ∈ us, t.Grouped rules)
    (hnest : nestTokens rules opens us = some opens') : LeavesOpen rules (ts ++ us) opens' := by
  induction us generalizing ts opens with
  | nil =>
    obtain rfl := Option.some.inj hnest
    simpa using h
  | cons t us ih =>
    obtain ⟨ht, hus⟩ := List.forall_mem_cons.1 hus
    rw [nestTokens_cons, Option.bind_eq_some_iff] at hnest
    obtain ⟨inner, hfirst, hrest⟩ := hnest
    simpa using ih (h.nest ht hfirst) hus hrest

theorem leavesOpen_iff (hts : ∀ t ∈ ts, t.Grouped rules) :
    LeavesOpen rules ts opens ↔ nestTokens rules [] ts = some opens :=
  ⟨LeavesOpen.nestTokens_eq, fun h => (LeavesOpen.nested .nil).extend hts h⟩

end

/-! ## Pieces and their tokens -/

/-- The group was opened by the token. -/
structure OpenGroup.OpenedBy (rules : LexicalRules) (g : OpenGroup) (o : RawToken) : Prop where
  char : o.char? = some g.opener
  closer : o.closer? rules = some g.expected
  start : o.start = g.offset

/-- What the check of groups says about the tokens `ts`, in front of which the groups of `opens` are
open. -/
def NestingShows (rules : LexicalRules) (opens ts : List RawToken) :
    Except UnexpectedClose (List OpenGroup) → Prop
  | .ok groups => ∃ opens', nestTokens rules opens ts = some opens' ∧
      List.Forall₂ (OpenGroup.OpenedBy rules) groups opens'
  | .error e => ∃ before t behind opens', ts = before ++ t :: behind ∧
      nestTokens rules opens before = some opens' ∧ t.IsClose ∧ t.char? = some e.found ∧
      t.start = e.offset ∧ e.expected = opens'.head?.bind (RawToken.closer? rules) ∧
      t.nest rules opens' = none

theorem NestingShows.cons {rules : LexicalRules} {opens opens' ts : List RawToken} {t : RawToken}
    {result : Except UnexpectedClose (List OpenGroup)} (ht : t.nest rules opens = some opens')
    (h : NestingShows rules opens' ts result) : NestingShows rules opens (t :: ts) result := by
  cases result with
  | ok groups =>
    obtain ⟨inner, hnest, hgroups⟩ := h
    exact ⟨inner, by rw [nestTokens_cons, ht]; exact hnest, hgroups⟩
  | error e =>
    obtain ⟨before, u, behind, inner, rfl, hnest, hrest⟩ := h
    exact ⟨t :: before, u, behind, inner, rfl, by rw [nestTokens_cons, ht]; exact hnest, hrest⟩

theorem nestingShows_checkNesting {rules : LexicalRules} {ps : List PlacedPiece}
    {stack : List OpenGroup} {opens : List RawToken}
    (hps : ∀ t ∈ ps.filterMap (PlacedPiece.token? rules.escape), t.Grouped rules)
    (hstack : List.Forall₂ (OpenGroup.OpenedBy rules) stack opens) :
    NestingShows rules opens (ps.filterMap (PlacedPiece.token? rules.escape))
      (checkNesting stack ps) := by
  induction ps generalizing stack opens with
  | nil => exact ⟨opens, rfl, hstack⟩
  | cons p ps ih =>
    obtain ⟨start, ⟨kind, chars⟩⟩ := p
    cases kind with
    | token shape =>
      obtain ⟨ht, hrest⟩ := List.forall_mem_cons.1 hps
      cases shape with
      | groupOpen opener closer =>
        obtain ⟨hchar, hcloser⟩ := ht
        refine .cons rfl (ih hrest (.cons ⟨hchar, ?_, rfl⟩ hstack))
        rw [RawToken.closer?, hchar]
        exact hcloser
      | groupClose closer =>
        cases hstack with
        | nil => exact ⟨[], _, _, [], rfl, rfl, ⟨closer, rfl⟩, ht.1, rfl, rfl, rfl⟩
        | @cons group o outer opens hgroup houter =>
          simp only [checkNesting]
          split_ifs with hfits
          · refine .cons ?_ (ih hrest houter)
            simp only [RawToken.nest, hgroup.closer, hfits, ht.1, if_true]
          · refine ⟨[], _, _, o :: opens, rfl, rfl, ⟨closer, rfl⟩, ht.1, rfl,
              hgroup.closer.symm, ?_⟩
            simp only [RawToken.nest, hgroup.closer, ht.1, Option.some.injEq, hfits, if_false]
      | word | punctuator | terminator | literal => exact .cons rfl (ih hrest hstack)
    | skipped | delimiter | danglingEscape => exact ih hps hstack

namespace LexicalRules

/-- Every piece of a scan stands at the start of some text. -/
theorem pieceAt_of_mem_scan {rules : LexicalRules} {p : Piece} (skip : Nat) (text : List Char)
    (hp : p ∈ (Scan.ofChars rules skip text).pieces) : ∃ c cs, rules.pieceAt c cs = .ok p := by
  fun_induction Scan.ofChars rules skip text with
  | case1 => simp at hp
  | case2 skip c cs ih => exact ih hp
  | case3 c cs q hq ih =>
    rcases List.mem_cons.1 hp with rfl | hp
    · exact ⟨c, cs, hq⟩
    · exact ih hp
  | case4 => simp at hp

/-- A grouping piece is its character, and the closer of an opener is in the table. -/
theorem group_of_pieceAt {rules : LexicalRules} {c : Char} {cs : List Char} {p : Piece}
    (h : rules.pieceAt c cs = .ok p) :
    match p.kind with
    | .token (.groupOpen opener closer) => p.chars = [opener] ∧ rules.closerOf opener = some closer
    | .token (.groupClose closer) => p.chars = [closer]
    | _ => True := by
  have hlead := rules.lead_cases c cs
  unfold pieceAt at h
  cases hcase : rules.lead c cs with
  | opener closer =>
    simp only [hcase] at h hlead
    obtain rfl := Except.ok.inj h
    exact ⟨rfl, hlead⟩
  | closer =>
    simp only [hcase] at h
    obtain rfl := Except.ok.inj h
    rfl
  | block skip | quote =>
    simp only [hcase] at h
    split at h
    · obtain rfl := Except.ok.inj h
      trivial
    · cases h
  | line skip | delimiter | terminator | punctuator chars =>
    simp only [hcase] at h
    obtain rfl := Except.ok.inj h
    trivial
  | escape | plain =>
    simp only [hcase] at h
    obtain rfl := Except.ok.inj h
    dsimp only
    split_ifs <;> trivial

theorem grouped_of_mem_scan {rules : LexicalRules} {text : List Char} {t : RawToken}
    (ht : t ∈ pieceTokens rules.escape 0 (rules.scan text).pieces) : t.Grouped rules := by
  obtain ⟨q, hq, htoken⟩ := Tokenized.mem_tokens.1 ht
  obtain ⟨hkind, htext, hspan⟩ := PlacedPiece.token?_eq_some.1 htoken
  obtain ⟨first, behind, hpieces, -⟩ := mem_placePieces.1 hq
  obtain ⟨c, cs, hpiece⟩ := pieceAt_of_mem_scan 0 text
    (hpieces ▸ List.mem_append_right _ List.mem_cons_self : q.piece ∈ (rules.scan text).pieces)
  have hgroup := group_of_pieceAt hpiece
  have hlength : t.length = Text.byteLength q.piece.chars := congrArg ByteRange.length hspan
  have hchar {c : Char} (hchars : q.piece.text rules.escape = [c]) : t.char? = some c := by
    rw [RawToken.char?, htext, hchars, String.toList_ofList]
    rfl
  rw [hkind] at hgroup
  unfold RawToken.Grouped
  cases hshape : t.shape with
  | groupOpen opener closer =>
    rw [hshape] at hkind hgroup
    exact ⟨hchar (by rw [Piece.text, hkind]; exact hgroup.1), hgroup.2⟩
  | groupClose closer =>
    rw [hshape] at hkind hgroup
    have hchars : q.piece.chars = [closer] := hgroup
    refine ⟨hchar (by rw [Piece.text, hkind]; exact hchars), ?_⟩
    rw [hlength, hchars]
    exact Text.byteLength_pos (by simp)
  | word | punctuator | terminator | literal => trivial

/-! ## Cutting with and without the check -/

/-- The tokens that are found in a text, up to the first thing without an end. -/
def flatTokens (rules : LexicalRules) (source : String) : List RawToken :=
  pieceTokens rules.escape 0 (rules.scan source.toList).pieces

/-- The tokens and skipped regions of a text whose groups need not nest, or the first thing without an
end. -/
def tokenizeFlat (rules : LexicalRules) (source : String) : Except LexError Tokenized :=
  let scan := rules.scan source.toList
  match scan.unended with
  | some u => .error ⟨u.fault, locate source.toList (piecesLength scan.pieces)⟩
  | none => .ok (Tokenized.ofPieces rules.escape (placePieces 0 scan.pieces))

end LexicalRules

/-- Behind the tokens `before`, in which no close violates nesting, `t` is one that does: it is `found`
where `expected` would close the innermost group. -/
structure FirstViolation (rules : LexicalRules) (before : List RawToken) (t : RawToken) (found : Char)
    (expected : Option Char) : Prop where
  isClose : t.IsClose
  char : t.char? = some found
  innermost : ∃ opens, LeavesOpen rules before opens ∧
    expected = opens.head?.bind (RawToken.closer? rules)
  refused : ∀ behind opens, ¬LeavesOpen rules (before ++ t :: behind) opens

namespace LexicalRules

/-- The check of groups finds a violation, or leaves groups open and adds at most that to what is found
without it. -/
theorem tokenize_cases (rules : LexicalRules) (source : String) :
    (∃ before t behind found expected, rules.flatTokens source = before ++ t :: behind ∧
      FirstViolation rules before t found expected ∧ rules.tokenize source =
        .error ⟨.unexpectedClose found expected, locate source.toList t.start⟩) ∨
    ∃ opens, LeavesOpen rules (rules.flatTokens source) opens ∧
      ((∃ e, rules.tokenizeFlat source = .error e ∧ rules.tokenize source = .error e) ∨
      ∃ out, rules.tokenizeFlat source = .ok out ∧ out.tokens = rules.flatTokens source ∧
        match opens with
        | [] => rules.tokenize source = .ok out
        | o :: _ => ∃ c, o.char? = some c ∧ rules.tokenize source =
            .error ⟨.unclosedGroup c, locate source.toList o.start⟩) := by
  have hgrouped : ∀ t ∈ rules.flatTokens source, t.Grouped rules := fun t => grouped_of_mem_scan
  have hshows : NestingShows rules [] (rules.flatTokens source)
      (checkNesting [] (placePieces 0 (rules.scan source.toList).pieces)) :=
    nestingShows_checkNesting hgrouped .nil
  cases hcheck : checkNesting [] (placePieces 0 (rules.scan source.toList).pieces) with
  | error e =>
    rw [hcheck] at hshows
    obtain ⟨before, t, behind, opens, htokens, hbefore, hclose, hchar, hstart, hexpected,
      hnest⟩ := hshows
    have hopens : LeavesOpen rules before opens := by
      refine (leavesOpen_iff fun u hu => hgrouped u ?_).2 hbefore
      rw [htokens]
      exact List.mem_append_left _ hu
    refine .inl ⟨before, t, behind, e.found, e.expected, htokens,
      ⟨hclose, hchar, ⟨opens, hopens, hexpected⟩, ?_⟩, ?_⟩
    · intro behind opens' hleaves
      have hnone := hleaves.nestTokens_eq
      rw [nestTokens_append, hbefore, Option.bind_some, nestTokens_cons, hnest] at hnone
      cases hnone
    · simp only [tokenize, Scan.fault?, hcheck, hstart]
  | ok groups =>
    rw [hcheck] at hshows
    obtain ⟨opens, hnest, hopened⟩ := hshows
    refine .inr ⟨opens, (leavesOpen_iff hgrouped).2 hnest, ?_⟩
    cases hended : (rules.scan source.toList).unended with
    | some u =>
      refine .inl ⟨⟨u.fault,
        locate source.toList (piecesLength (rules.scan source.toList).pieces)⟩, ?_, ?_⟩
      · simp only [tokenizeFlat, hended]
      · simp only [tokenize, Scan.fault?, hcheck, hended]
    | none =>
      refine .inr ⟨Tokenized.ofPieces rules.escape (placePieces 0 (rules.scan source.toList).pieces),
        ?_, rfl, ?_⟩
      · simp only [tokenizeFlat, hended]
      · cases hopened with
        | nil => simp only [tokenize, Scan.fault?, hcheck, hended]
        | cons hgroup =>
          refine ⟨_, hgroup.char, ?_⟩
          simp only [tokenize, Scan.fault?, hcheck, hended, hgroup.start]

section
variable {rules : LexicalRules} {source : String}

/-- A close stands in front of whatever has no end. -/
theorem start_lt_of_isClose {t : RawToken} (ht : t ∈ rules.flatTokens source) (hclose : t.IsClose) :
    t.start < piecesLength (rules.scan source.toList).pieces := by
  obtain ⟨closer, hshape⟩ := hclose
  have hgrouped := grouped_of_mem_scan ht
  rw [RawToken.Grouped, hshape] at hgrouped
  obtain ⟨q, hq, htoken⟩ := Tokenized.mem_tokens.1 ht
  obtain ⟨-, -, hspan⟩ := PlacedPiece.token?_eq_some.1 htoken
  have hstart : t.start = q.start := congrArg ByteRange.start hspan
  have hlength : t.length = q.length := congrArg ByteRange.length hspan
  have hbounds := (bounds_of_mem_placePieces hq).2
  omega

theorem tokenizeFlat_eq_error {e : LexError} (h : rules.tokenizeFlat source = .error e) :
    ∃ u : Unended, e =
      ⟨u.fault, locate source.toList (piecesLength (rules.scan source.toList).pieces)⟩ := by
  simp only [tokenizeFlat] at h
  split at h
  · exact ⟨_, (Except.error.inj h).symm⟩
  · cases h

theorem tokenize_of_flat_error {e : LexError} (h : rules.tokenizeFlat source = .error e) :
    rules.tokenize source = .error e ∧ (∃ opens, LeavesOpen rules (rules.flatTokens source) opens) ∨
    (∀ opens, ¬LeavesOpen rules (rules.flatTokens source) opens) ∧
      ∃ found expected location, rules.tokenize source =
        .error ⟨.unexpectedClose found expected, location⟩ ∧ location.offset < e.location.offset := by
  rcases rules.tokenize_cases source with
    ⟨before, t, behind, found, expected, htokens, hfirst, herror⟩ |
    ⟨opens, hopens, ⟨e', hflat, herror⟩ | ⟨out, hflat, -, -⟩⟩
  · have ht : t ∈ rules.flatTokens source := by
      rw [htokens]
      exact List.mem_append_right _ List.mem_cons_self
    obtain ⟨u, rfl⟩ := tokenizeFlat_eq_error h
    refine .inr ⟨htokens ▸ hfirst.refused behind, found, expected, _, herror, ?_⟩
    simpa using start_lt_of_isClose ht hfirst.isClose
  · obtain rfl : e' = e := Except.error.inj (hflat.symm.trans h)
    exact .inl ⟨herror, opens, hopens⟩
  · cases hflat.symm.trans h

theorem tokenize_of_flat_ok {out : Tokenized} (h : rules.tokenizeFlat source = .ok out) :
    (rules.tokenize source = .ok out ↔ WellNested rules out.tokens) ∧
      ∀ other, rules.tokenize source = .ok other → other = out := by
  have htokens : out.tokens = rules.flatTokens source := by
    simp only [tokenizeFlat] at h
    split at h
    · cases h
    · exact congrArg Tokenized.tokens (Except.ok.inj h).symm
  rw [htokens, wellNested_iff]
  rcases rules.tokenize_cases source with
    ⟨before, t, behind, found, expected, hsplit, hfirst, herror⟩ |
    ⟨opens, hopens, ⟨e', hflat, -⟩ | ⟨out', hflat, -, hresult⟩⟩
  · have hnot : ¬LeavesOpen rules (rules.flatTokens source) [] := hsplit ▸ hfirst.refused behind []
    simp [herror, hnot]
  · cases hflat.symm.trans h
  · obtain rfl : out' = out := Except.ok.inj (hflat.symm.trans h)
    cases opens with
    | nil =>
      dsimp only at hresult
      simp [hresult, hopens]
    | cons o outer =>
      obtain ⟨c, -, herror⟩ := hresult
      have hnot : ¬LeavesOpen rules (rules.flatTokens source) [] := fun hnil => by
        cases hnil.unique hopens
      simp [herror, hnot]

theorem firstViolation_of_tokenize {found : Char} {expected : Option Char} {location : Location}
    (h : rules.tokenize source = .error ⟨.unexpectedClose found expected, location⟩) :
    ∃ before t behind, rules.flatTokens source = before ++ t :: behind ∧
      FirstViolation rules before t found expected ∧ location = locate source.toList t.start := by
  rcases rules.tokenize_cases source with
    ⟨before, t, behind, found', expected', hsplit, hfirst, herror⟩ |
    ⟨opens, hopens, ⟨e, hflat, herror⟩ | ⟨out, -, -, hresult⟩⟩
  · cases herror.symm.trans h
    exact ⟨before, t, behind, hsplit, hfirst, rfl⟩
  · obtain ⟨u, rfl⟩ := tokenizeFlat_eq_error hflat
    cases u <;> cases herror.symm.trans h
  · cases opens with
    | nil => cases hresult.symm.trans h
    | cons o outer =>
      obtain ⟨c, -, herror⟩ := hresult
      cases herror.symm.trans h

theorem innermost_of_tokenize {c : Char} {location : Location}
    (h : rules.tokenize source = .error ⟨.unclosedGroup c, location⟩) :
    ∃ out o outer, rules.tokenizeFlat source = .ok out ∧ LeavesOpen rules out.tokens (o :: outer) ∧
      o.char? = some c ∧ location = locate source.toList o.start := by
  rcases rules.tokenize_cases source with
    ⟨before, t, behind, found, expected, -, -, herror⟩ |
    ⟨opens, hopens, ⟨e, hflat, herror⟩ | ⟨out, hflat, htokens, hresult⟩⟩
  · cases herror.symm.trans h
  · obtain ⟨u, rfl⟩ := tokenizeFlat_eq_error hflat
    cases u <;> cases herror.symm.trans h
  · cases opens with
    | nil => cases hresult.symm.trans h
    | cons o outer =>
      obtain ⟨c', hchar, herror⟩ := hresult
      cases herror.symm.trans h
      exact ⟨out, o, outer, hflat, htokens ▸ hopens, hchar, rfl⟩

end

/-- **The check of groups decides balance exactly.** Where cutting without the check fails, so does
cutting with it, with the same error unless a close in front of it violates nesting. Where it succeeds,
cutting with the check gives the same tokens exactly if they are well nested. A close is reported if it is
the first that violates nesting, and an opener if none does and it is the innermost one left open. -/
theorem tokenize_balance (rules : LexicalRules) (source : String) :
    (∀ e, rules.tokenizeFlat source = .error e →
      rules.tokenize source = .error e ∧
        (∃ opens, LeavesOpen rules (rules.flatTokens source) opens) ∨
      (∀ opens, ¬LeavesOpen rules (rules.flatTokens source) opens) ∧
        ∃ found expected location, rules.tokenize source =
          .error ⟨.unexpectedClose found expected, location⟩ ∧ location.offset < e.location.offset) ∧
    (∀ out, rules.tokenizeFlat source = .ok out →
      (rules.tokenize source = .ok out ↔ WellNested rules out.tokens) ∧
        ∀ other, rules.tokenize source = .ok other → other = out) ∧
    (∀ found expected location,
      rules.tokenize source = .error ⟨.unexpectedClose found expected, location⟩ →
      ∃ before t behind, rules.flatTokens source = before ++ t :: behind ∧
        FirstViolation rules before t found expected ∧ location = locate source.toList t.start) ∧
    ∀ c location, rules.tokenize source = .error ⟨.unclosedGroup c, location⟩ →
      ∃ out o outer, rules.tokenizeFlat source = .ok out ∧ LeavesOpen rules out.tokens (o :: outer) ∧
        o.char? = some c ∧ location = locate source.toList o.start :=
  ⟨fun _ => tokenize_of_flat_error, fun _ => tokenize_of_flat_ok,
    fun _ _ _ => firstViolation_of_tokenize, fun _ _ => innermost_of_tokenize⟩

-- The first group of an opener in the table is the one that counts.
example :
    let rules : LexicalRules :=
      { terminator := ';', escape := '\\', groups := [⟨'<', '>'⟩, ⟨'<', ']'⟩] }
    rules.tokenize "<a]>" = .error ⟨.unexpectedClose ']' (some '>'), ⟨2, 1, 3⟩⟩ := by
  decide +kernel

end LexicalRules

end ShaderInterface
