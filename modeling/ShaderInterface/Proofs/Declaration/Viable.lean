import ShaderInterface.Proofs.Declaration.Soundness

/-!
# Errors name the first token that cannot stand

Tokens are viable if items can start with them (`Grammar.Viable`). Here a struct head may ask for any
alignment and carry any markers (`HeadRule.any`), since the reader refuses those with two errors of
their own. All other errors are about the next token (`TokenStream.read_eq_error`): the tokens before
it are viable, and with it they are not.

The first half holds in every phase, because each unfinished phrase can be finished
(`Grammar.ReaderRead.viable`). The second half is that sentences are read: one that started with the
refused token would have been taken (`Reader.not_viable_of_unexpected`).
-/
namespace ShaderInterface

/-- Structs ask for any alignment and carry any markers. -/
def HeadRule.any : HeadRule := ⟨fun _ => True, fun _ => True⟩

theorem HeadRule.any_admits : HeadRule.any.Admits := ⟨fun _ _ => trivial, fun _ => trivial⟩

namespace Grammar

/-- Items at a path can start with the tokens. -/
def Viable (path : List String) (ts : List Token) : Prop :=
  ∃ us ds, Items .any path (ts ++ us) ds

/-! ## Unfinished phrases can be finished -/

/-- A token to go on with. -/
def filler (kind : TokenKind) (text : String) : Token := ⟨kind, text, ⟨0, 0, 0⟩, 0⟩

theorem filler_name : (filler .identifier "x").isIdentifier := by decide

theorem filler_integer : (filler .integer "1").integer? = some 1 := by decide

theorem filler_punctuator (s : String) : (filler .punctuator s).isPunctuator s := by
  simp [filler, Token.isPunctuator]

theorem filler_grouper (c : Char) : (filler .grouper (String.ofList [c])).isGrouper c := by
  simp [filler, Token.isGrouper]

section
variable {path : List String} {vs us ts ms bs : List Token}

theorem Viable.of_append (ws : List Token) (h : Viable path (vs ++ ws)) : Viable path vs := by
  obtain ⟨us, ds, h⟩ := h
  exact ⟨ws ++ us, ds, by simpa using h⟩

theorem viable_item {es : List Declaration} (h : Item .any path vs es) : Viable path vs :=
  ⟨[], es, by simpa using Items.cons h .nil⟩

theorem viable_body {body : StructBody} (h : BodyPhrase .any bs body) : Viable path bs :=
  .of_append _ (viable_item (.aggregate h (filler_grouper '}') .absent))

theorem viable_namespace {k : Token} {ns : List Token} {segments : List String}
    (hk : k.isKeyword "namespace") (hns : Path ns segments) : Viable path (k :: ns) := by
  have hitem : Item .any path _ _ :=
    .namespaceBlock hk hns (filler_grouper '{') .nil (filler_grouper '}')
  exact .of_append _ (by simpa using viable_item hitem)

theorem viable_type {site : TypeSite} {type : TypeName} (hsite : TypeSiteRead .any site us)
    (htype : TypePhrase ts type) : Viable path (us ++ ts) := by
  cases hsite with
  | target hu hn he =>
    exact .of_append _ (viable_item (.alias hu hn he htype (filler_punctuator ";")))
  | field hb =>
    have hfield := hb.snoc (.field htype filler_name .nil (filler_punctuator ";"))
    exact .of_append _ (by simpa using viable_body hfield)

theorem viable_markers {site : MarkerSite} {found : List Marker}
    (hsite : MarkerSiteRead .any site us) (hms : Many MarkerPhrase ms found) :
    Viable path (us ++ ms) := by
  cases hsite with
  | aggregate hh =>
    have hbody := BodyPhrase.mk hh hms (fun _ _ => trivial) (registerOf_iff.2 rfl)
      (filler_grouper '{') .nil
    exact .of_append _ (viable_body hbody)
  | field hb htype hn =>
    have hfield := hb.snoc (.field htype hn hms (filler_punctuator ";"))
    exact .of_append _ (by simpa using viable_body hfield)

theorem viable_head {k : Token} {as : List Token} {alignment : Option Nat} (hk : k.isStruct)
    (has : AlignPhrase .any as alignment) : Viable path (k :: as) := by
  have hhead : Viable path _ := viable_markers (.aggregate (.mk hk has filler_name)) .nil
  exact .of_append _ (by simpa using hhead)

/-- A marker up to its value, which is one that its word can have. -/
theorem viable_marker {site : MarkerSite} {found : List Marker} {w o : Token} {word : MarkerWord}
    (hsite : MarkerSiteRead .any site us) (hms : Many MarkerPhrase ms found)
    (hw : MarkerWord.ofToken? w = some word) (ho : o.isGrouper '(') {v : Token} {m : Marker}
    (hv : Marker.ofToken? word v = some m) : Viable path (us ++ ms ++ [w, o, v]) := by
  have hphrase : MarkerPhrase [w, o, v, filler .grouper (String.ofList [')'])] m :=
    markerPhrase_iff.2 ⟨w, o, v, _, word, rfl, hw, ho, hv, filler_grouper ')'⟩
  have hmarkers : Viable path _ := viable_markers hsite (hms.snoc hphrase)
  exact .of_append _ (by simpa using hmarkers)

theorem exists_markerValue (word : MarkerWord) : ∃ v m, Marker.ofToken? word v = some m := by
  cases word with
  | semantic => exact ⟨filler .identifier "x", .semantic "x", by decide⟩
  | register => exact ⟨filler .integer "1", .register 1, by decide⟩
  | instanceData => exact ⟨filler .integer "1", .instanceData 1, by decide⟩

theorem viable_phase {phase : Phase} (h : PhaseRead .any phase vs) : Viable path vs := by
  cases h with
  | item => exact ⟨[], [], .nil⟩
  | namespaceStart hk => exact .of_append _ (viable_namespace hk (.mk filler_name .nil))
  | namespaceName hk hns => exact viable_namespace hk hns
  | namespaceColons hk hns hc =>
    exact .of_append _ (by simpa using viable_namespace hk (hns.snoc hc filler_name))
  | aliasStart hu =>
    have hsite : TypeSiteRead .any _ _ := .target hu filler_name (filler_punctuator "=")
    exact .of_append _ (by simpa using viable_type hsite (.plain (.mk filler_name .nil)))
  | aliasName hu hn =>
    have hsite : TypeSiteRead .any _ _ := .target hu hn (filler_punctuator "=")
    exact .of_append _ (by simpa using viable_type hsite (.plain (.mk filler_name .nil)))
  | typeStart hsite => exact .of_append _ (viable_type hsite (.plain (.mk filler_name .nil)))
  | typeRoot hsite hc =>
    exact .of_append _ (by simpa using viable_type hsite (.rooted hc (.mk filler_name .nil)))
  | typeName hsite htype => exact viable_type hsite htype
  | typeColons hsite htype hc =>
    exact .of_append _ (by simpa using viable_type hsite (htype.snoc hc filler_name))
  | structStart hk => exact viable_head hk .none
  | alignStart hk ha =>
    exact .of_append _ (viable_head hk
      (.some ha (filler_grouper '(') filler_integer trivial (filler_grouper ')')))
  | alignOpen hk ha ho =>
    exact .of_append _ (viable_head hk (.some ha ho filler_integer trivial (filler_grouper ')')))
  | alignValue hk ha ho hv hn =>
    exact .of_append _ (viable_head hk (.some ha ho hv hn (filler_grouper ')')))
  | alignClose hk has => exact viable_head hk has
  | markers hsite hms => exact viable_markers hsite hms
  | @markerWord _ _ _ _ _ word hsite hms hw =>
    obtain ⟨v, m, hv⟩ := exists_markerValue word
    exact .of_append _ (by simpa using viable_marker hsite hms hw (filler_grouper '(') hv)
  | @markerOpen _ _ _ _ _ _ word hsite hms hw ho =>
    obtain ⟨v, m, hv⟩ := exists_markerValue word
    exact .of_append _ (by simpa using viable_marker hsite hms hw ho hv)
  | markerValue hsite hms hw ho hv => exact viable_marker hsite hms hw ho hv
  | members hb => exact viable_body hb
  | access hb ha =>
    have hmember := hb.snoc (.access ha (filler_punctuator ":"))
    exact .of_append _ (by simpa using viable_body hmember)

end

/-- What the innermost block can start with, the file can go on with: the open blocks are closed one
after the other. -/
theorem ScopesRead.viable {scopes : List (List String)} {us : List Token} {ds : List Declaration}
    (h : ScopesRead .any scopes us ds) :
    ∀ {vs : List Token}, Viable scopes.reverse.flatten vs → Viable [] (us ++ vs) := by
  induction h with
  | file hus =>
    rintro vs ⟨ws, es, hvs⟩
    exact ⟨ws, _, by simpa using hvs.append hus⟩
  | @block scopes segments _ _ _ _ _ _ _ _ hk hns ho hbody ih =>
    rintro vs ⟨ws, es, hvs⟩
    have hblock : Item .any scopes.reverse.flatten _ _ :=
      .namespaceBlock hk hns ho (by simpa using hvs.append hbody) (filler_grouper '}')
    exact .of_append _ (by simpa using ih (viable_item hblock))

theorem ReaderRead.viable {r : Reader} {ts : List Token} (h : ReaderRead .any r ts) :
    Viable [] ts := by
  obtain ⟨us, vs, rfl, hscopes, hp⟩ := h
  exact hscopes.viable (viable_phase hp)

end Grammar

namespace Reader
open Grammar

/-! ## What one token is refused for -/

/-- Why a reader refuses a token. -/
inductive Refuses (r : Reader) (t : Token) : Refusal → Prop where
  | alignment {n : Nat} : r.phase = .alignOpen → t.integer? = some n →
      isStructAlignment n = false → Refuses r t ⟨⟨.alignRange, t.message, t.location⟩, true⟩
  | marker {head : StructHead} {found : List Marker} {m : Marker} :
      r.phase = .markers (.aggregate head) found → foreignMarker? found = some m →
      Refuses r t ⟨⟨.onlyRegister, m.word.text, head.name.location⟩, false⟩
  | unexpected {expected : Expected} : r.step t = unexpected r.phase.expected t →
      Refuses r t ⟨⟨expected, t.message, t.location⟩, false⟩

section
variable {r : Reader} {t : Token} {refusal : Refusal}

theorem ite_eq_error {c : Prop} [Decidable c] {r : Reader} {other : Except Refusal Reader}
    (h : (if c then .ok r else other) = .error refusal) : other = .error refusal := by
  by_cases hc : c <;> simp_all

theorem refuses_of_unexpected (h : r.step t = .error refusal)
    (hu : unexpected r.phase.expected t = .error refusal) : Refuses r t refusal := by
  have hstep : r.step t = unexpected r.phase.expected t := h.trans hu.symm
  cases hu
  exact .unexpected hstep

theorem refuses_of_step (h : r.step t = .error refusal) : Refuses r t refusal := by
  obtain ⟨scopes, ds, phase⟩ := r
  -- Each `ite_eq_error` is a test that the token fails before it is refused.
  cases phase with
  | item =>
    have htests := ite_eq_error (ite_eq_error (ite_eq_error (ite_eq_error h)))
    cases scopes with
    | nil => exact refuses_of_unexpected h htests
    | cons _ _ => exact refuses_of_unexpected h (ite_eq_error htests)
  | namespaceStart | namespaceColons | aliasStart | aliasName | typeRoot | typeColons | alignStart
  | alignValue | alignClose | markerWord | markerValue | access =>
    exact refuses_of_unexpected h (ite_eq_error h)
  | namespaceName | typeStart | structStart =>
    exact refuses_of_unexpected h (ite_eq_error (ite_eq_error h))
  | typeName site type =>
    cases site with
    | target | field => exact refuses_of_unexpected h (ite_eq_error (ite_eq_error h))
  | alignOpen =>
    cases hv : t.integer? with
    | none => exact refuses_of_unexpected h (by simpa [Reader.step, hv] using h)
    | some n =>
      by_cases hn : isStructAlignment n = true
      · simp [Reader.step, hv, hn] at h
      · obtain rfl : _ = refusal := by simpa [Reader.step, hv, hn] using h
        exact .alignment rfl hv (by simpa using hn)
  | markers site found =>
    cases hw : MarkerWord.ofToken? t with
    | some word => simp [Reader.step, hw] at h
    | none =>
      cases site with
      | field => exact refuses_of_unexpected h (ite_eq_error (by simpa [Reader.step, hw] using h))
      | aggregate head =>
        cases hf : foreignMarker? found with
        | some m =>
          obtain rfl : _ = refusal := by simpa [Reader.step, hw, stepHead, hf] using h
          exact .marker rfl hf
        | none =>
          have htests := h
          simp only [Reader.step, hw, stepHead, hf] at htests
          exact refuses_of_unexpected h (ite_eq_error (ite_eq_error htests))
  | markerOpen site found word =>
    cases hv : Marker.ofToken? word t with
    | some m => simp [Reader.step, hv] at h
    | none => exact refuses_of_unexpected h (by simpa [Reader.step, hv] using h)
  | members =>
    exact refuses_of_unexpected h (ite_eq_error (ite_eq_error (ite_eq_error (ite_eq_error h))))

/-- The end of the file cannot stand in any phase. -/
theorem step_of_eof (ht : t.kind = .eof)
    (hmarkers : ∀ head found, r.phase = .markers (.aggregate head) found →
      foreignMarker? found = none) : r.step t = unexpected r.phase.expected t := by
  have hkeyword (w : String) : t.isKeyword w = false := by simp [Token.isKeyword, ht]
  have hpunctuator (s : String) : t.isPunctuator s = false := by simp [Token.isPunctuator, ht]
  have hgrouper (c : Char) : t.isGrouper c = false := by simp [Token.isGrouper, ht]
  have hname : t.isIdentifier = false := by simp [Token.isIdentifier, ht]
  have hinteger : t.integer? = none := by simp [Token.integer?, ht]
  have hword : MarkerWord.ofToken? t = none := by simp [MarkerWord.ofToken?, hname]
  obtain ⟨scopes, ds, phase⟩ := r
  cases phase with
  | item => cases scopes <;> simp [Reader.step, stepItem, Token.isStruct, Phase.expected, *]
  | typeName site => cases site <;> simp [Reader.step, *]
  | markers site found =>
    cases site with
    | field => simp [Reader.step, *]
    | aggregate head =>
      simp [Reader.step, stepHead, hmarkers head found rfl, Phase.expected, *]
  | markerOpen site found word => cases word <;> simp [Reader.step, Marker.ofToken?, *]
  | _ => simp [Reader.step, Token.isAccess, *]

theorem refuses_of_atEnd? {stop : Token} {e : ParseError} (hstop : stop.kind = .eof)
    (h : r.atEnd? stop = some e) : Refuses r stop ⟨e, false⟩ := by
  by_cases hforeign : ∃ head found m, r.phase = .markers (.aggregate head) found ∧
      foreignMarker? found = some m
  · obtain ⟨head, found, m, hphase, hm⟩ := hforeign
    obtain rfl : _ = e := by simpa [atEnd?, hphase, hm] using h
    exact .marker hphase hm
  · have hnone : ∀ head found, r.phase = .markers (.aggregate head) found →
        foreignMarker? found = none := fun head found hphase =>
      Option.eq_none_iff_forall_ne_some.2 fun m hm => hforeign ⟨head, found, m, hphase, hm⟩
    -- At the end a reader may wait for something else than in front of a token.
    have hunexpected (expected : Expected) :
        Refuses r stop ⟨⟨expected, stop.message, stop.location⟩, false⟩ :=
      .unexpected (step_of_eof hstop hnone)
    unfold atEnd? at h
    split at h
    · split_ifs at h
      cases h
      exact hunexpected _
    · cases h
      exact hunexpected _
    · rename_i head found hphase
      rw [hnone head found hphase] at h
      cases h
      exact hunexpected _
    · cases h
      exact hunexpected _

/-! ## Where a run fails -/

/-- A run that fails gets to a reader `r'` that refuses the next token. -/
theorem refuses_of_run {stop : Token} {e : ParseError} (hstop : stop.kind = .eof) :
    ∀ {ts before : List Token} {r : Reader}, ReaderRead .any r before →
      (r.run stop ts).result = .error e →
      ∃ r' passed left taken, ts = passed ++ left ∧
        (r.run stop ts).rest = (if taken then left.tail else left) ∧
        ReaderRead .any r' (before ++ passed) ∧
        (∀ more, r.run stop (passed ++ more) = r'.run stop more) ∧
        Refuses r' (left.headD stop) ⟨e, taken⟩
  | [], before, r, hread, h => by
    cases hend : r.atEnd? stop with
    | none => simp [run, hend] at h
    | some e' =>
      obtain rfl : e' = e := by simpa [run, hend] using h
      exact ⟨r, [], [], false, rfl, by simp [run, hend], by simpa using hread, fun _ => rfl,
        refuses_of_atEnd? hstop hend⟩
  | t :: ts, before, r, hread, h => by
    cases hstep : r.step t with
    | error refusal =>
      obtain rfl : refusal.error = e := by simpa [run, hstep] using h
      exact ⟨r, [], t :: ts, refusal.taken, rfl, by simp [run, hstep], by simpa using hread,
        fun _ => rfl, refuses_of_step hstep⟩
    | ok r₁ =>
      have hread₁ := readerRead_step HeadRule.any_admits hread hstep
      obtain ⟨r', passed, left, taken, rfl, hrest, hread', hruns, href⟩ :=
        refuses_of_run hstop hread₁ (by simpa [run, hstep] using h)
      exact ⟨r', t :: passed, left, taken, rfl, by simpa [run, hstep] using hrest,
        by simpa using hread', fun more => by simpa [run, hstep] using hruns more, href⟩

/-- What a phase waits for is neither of the two errors of struct heads. -/
theorem not_headRefusal_expected {rule : HeadRule} (phase : Phase) (found : String)
    (location : Location) : ¬HeadRefusal rule ⟨phase.expected, found, location⟩ := by
  cases phase with
  | typeName site => cases site <;> simp [HeadRefusal, Phase.expected]
  | markers site => cases site <;> simp [HeadRefusal, Phase.expected]
  | _ => simp [HeadRefusal, Phase.expected]

/-- No sentence goes on with a token that cannot stand behind what was read. -/
theorem not_viable_of_unexpected {stop : Token} {passed : List Token}
    (hruns : ∀ more, start.run stop (passed ++ more) = r.run stop more)
    (hstep : r.step t = unexpected r.phase.expected t) : ¬Viable [] (passed ++ [t]) := by
  rintro ⟨us, ds, hitems⟩
  have hfails : start.run stop (passed ++ [t] ++ us ++ []) =
      ⟨.error ⟨r.phase.expected, t.message, t.location⟩, t :: us⟩ := by
    simpa [run, hstep, unexpected] using hruns (t :: us)
  have hpasses : Passes .any start ⟨[], ds, .item⟩ (passed ++ [t] ++ us) := passes_items rfl hitems
  rcases hpasses stop [] with hok | ⟨e, left, herror, hhead⟩
  · rw [hfails] at hok
    simp [run, atEnd?] at hok
  · rw [hfails] at herror
    cases herror
    exact not_headRefusal_expected _ _ _ hhead

end

end Reader

/-! ## Errors of headers -/

namespace Grammar

/-- The tokens end with an alignment that headers cannot have, and the error is about it. -/
inductive EndsInAlignment : List Token → ParseError → Prop where
  | mk {us : List Token} {k a o v : Token} {n : Nat} : k.isStruct → a.isKeyword "alignas" →
      o.isGrouper '(' → v.integer? = some n → ¬HeadRule.documented.alignment n →
      EndsInAlignment (us ++ [k, a, o, v]) ⟨.alignRange, v.message, v.location⟩

/-- The tokens end with the markers of a struct, and the error is about the first one that headers
cannot have, at the name of the struct. -/
inductive EndsInMarkers : List Token → ParseError → Prop where
  | mk {us as ms : List Token} {k n : Token} {alignment : Option Nat} {m : Marker}
      {before behind : List Marker} : k.isStruct → AlignPhrase .any as alignment →
      n.isIdentifier → Many MarkerPhrase ms (before ++ m :: behind) →
      (∀ b ∈ before, HeadRule.documented.marker b) → ¬HeadRule.documented.marker m →
      EndsInMarkers (us ++ k :: as ++ n :: ms) ⟨.onlyRegister, m.word.text, n.location⟩

theorem endsInMarkers_of_foreignMarker? (us : List Token) {hs ms : List Token} {head : StructHead}
    {found : List Marker} {m : Marker} (hh : HeadPhrase .any hs head)
    (hms : Many MarkerPhrase ms found) (hm : foreignMarker? found = some m) :
    EndsInMarkers (us ++ (hs ++ ms)) ⟨.onlyRegister, m.word.text, head.name.location⟩ := by
  obtain ⟨hk, has, hn⟩ := hh
  obtain ⟨hforeign, before, behind, rfl, hbefore⟩ := List.find?_eq_some_iff_append.1 hm
  have hregister (b : Marker) : HeadRule.documented.marker b ↔ b.register?.isSome = true := by
    cases b <;> simp [HeadRule.documented, Marker.register?]
  have hregisters : ∀ b ∈ before, HeadRule.documented.marker b := fun b hb =>
    (hregister b).2 (by simpa using hbefore b hb)
  have hother : ¬HeadRule.documented.marker m := by
    rw [hregister]
    simpa using hforeign
  have hends : EndsInMarkers (us ++ _ :: _ ++ _ :: ms) _ := .mk hk has hn hms hregisters hother
  simpa [Token.name] using hends

end Grammar

namespace TokenStream
open Grammar

/-- The token that a stream is in front of. -/
def next (s : TokenStream) : Token := s.ahead.headD s.stop

theorem kind_stop_ofTokens (ts : List Token) : (ofTokens ts).stop.kind = .eof := by
  simp only [ofTokens]
  cases h : ts.find? _ with
  | none => rfl
  | some t => simpa using List.find?_some h

/-- **An error names the first token that cannot stand.** The stream that reading leaves is in front
of that token: items can start with the tokens before it, but not with those and the token. The two
errors of struct heads are the exception. They come behind what is wrong: behind the alignment, and
behind all markers of the struct. -/
theorem read_eq_error {ts : List Token} {e : ParseError} (h : (ofTokens ts).read.1 = .error e) :
    let s := (ofTokens ts).read.2
    ∃ before, ts.takeWhile (fun t => t.kind ≠ .eof) = before ++ s.ahead ∧
      (EndsInAlignment before e ∨ EndsInMarkers before e ∨
        e.found = s.next.message ∧ e.location = s.next.location ∧
          Viable [] before ∧ ¬Viable [] (before ++ [s.next])) := by
  intro s
  have hstop := kind_stop_ofTokens ts
  obtain ⟨r, passed, left, taken, hsplit, hrest, hread, hruns, hrefuses⟩ :=
    Reader.refuses_of_run hstop (Reader.readerRead_start .any) h
  have hahead : ts.takeWhile (fun t => t.kind ≠ .eof) = passed ++ left := by
    simpa [ofTokens] using hsplit
  have hleft : s.ahead = if taken then left.tail else left := hrest
  rw [List.nil_append] at hread
  have hviable := hread.viable
  obtain ⟨us, vs, rfl, -, hphase⟩ := hread
  cases hrefuses with
  | @alignment n hopen hv hn =>
    rw [hopen] at hphase
    cases left with
    | nil => simp [Token.integer?, hstop] at hv
    | cons v rest =>
      have hrange : ¬HeadRule.documented.alignment n := by
        intro hdocumented
        simp [isStructAlignment_iff.2 hdocumented] at hn
      cases hphase with
      | alignOpen hk ha ho =>
        exact ⟨us ++ [_, _, _, v], by simpa [hleft] using hahead, .inl (.mk hk ha ho hv hrange)⟩
  | marker hmarkers hm =>
    rw [hmarkers] at hphase
    cases hphase with
    | markers hsite hms =>
      cases hsite with
      | aggregate hh =>
        have hends := endsInMarkers_of_foreignMarker? us hh hms hm
        exact ⟨_, by simpa [hleft] using hahead, .inr (.inl hends)⟩
  | unexpected hstep =>
    have hnext : s.next = left.headD (ofTokens ts).stop := by
      rw [next, hleft]
      rfl
    have hrefused : ¬Viable [] (us ++ vs ++ [s.next]) := by
      rw [hnext]
      exact Reader.not_viable_of_unexpected hruns hstep
    rw [← hnext]
    exact ⟨us ++ vs, by simpa [hleft] using hahead, .inr (.inr ⟨rfl, rfl, hviable, hrefused⟩)⟩

/-- The struct has a marker that no struct can carry, but that is found behind its markers only. -/
theorem read_eq_error_unfinished_marker :
    let brace : Token := ⟨.grouper, String.ofList ['}'], ⟨42, 2, 1⟩, 1⟩
    let before := [filler .keyword "namespace", filler .identifier "N",
      filler .grouper (String.ofList ['{']), filler .keyword "struct", filler .identifier "S",
      filler .identifier "SEMANTIC", filler .grouper "(", filler .identifier "a", filler .grouper ")",
      filler .identifier "REGISTER"]
    (ofTokens (before ++ [brace])).read.1 = .error ⟨.markerOpen .register, quoted '}', ⟨42, 2, 1⟩⟩ ∧
      Viable [] before ∧ ¬Viable [] (before ++ [brace]) := by
  intro brace before
  have hread : (ofTokens (before ++ [brace])).read =
      (.error ⟨.markerOpen .register, quoted '}', ⟨42, 2, 1⟩⟩, ⟨[brace], endBehind [brace]⟩) := by
    decide
  have herror := congrArg Prod.fst hread
  obtain ⟨passed, hsplit, hends | hends | ⟨-, -, hviable, hrefused⟩⟩ := read_eq_error herror
  · cases hends
  · cases hends
  · rw [hread] at hsplit hrefused
    have hall : (before ++ [brace]).takeWhile (fun t => t.kind ≠ .eof) = before ++ [brace] := by
      decide
    obtain rfl : before = passed := List.append_cancel_right (hall.symm.trans hsplit)
    exact ⟨herror, hviable, hrefused⟩

end TokenStream

end ShaderInterface
