import ShaderInterface.Proofs.Declaration.Headers
import ShaderInterface.Proofs.Lexical.Seams

/-!
# Headers one behind the other

The grammar looks at the kinds and texts of tokens and only keeps their places. So tokens that are
moved denote the declarations moved in the same way (`Grammar.Items.relocate`), and a header, a newline
and another header are read as the declarations of the first and the moved ones of the second
(`readHeader_append_newline`).
-/
namespace ShaderInterface

/-! ## Moving tokens and declarations -/

section Relocate

variable (f : Location → Location)

def Token.relocate (t : Token) : Token := { t with location := f t.location }

def Name.relocate (n : Name) : Name := { n with location := f n.location }

def TypeName.relocate (t : TypeName) : TypeName := { t with location := f t.location }

def FieldDecl.relocate (d : FieldDecl) : FieldDecl :=
  { d with type := d.type.relocate f, location := f d.location }

def StructHead.relocate (h : StructHead) : StructHead := { h with name := h.name.relocate f }

def StructBody.relocate (b : StructBody) : StructBody :=
  { b with head := b.head.relocate f, fields := b.fields.map (FieldDecl.relocate f) }

def StructDecl.relocate (d : StructDecl) : StructDecl :=
  { d with fields := d.fields.map (FieldDecl.relocate f), location := f d.location }

def AliasDecl.relocate (d : AliasDecl) : AliasDecl :=
  { d with target := d.target.relocate f, location := f d.location }

def Declaration.relocate : Declaration → Declaration
  | .aggregate d => .aggregate (d.relocate f)
  | .typeAlias d => .typeAlias (d.relocate f)

end Relocate

/-! ## Moved phrases -/

namespace Grammar

theorem Many.map {α β : Type} {P : List Token → α → Prop} {Q : List Token → β → Prop}
    (onTokens : Token → Token) (g : α → β) (h : ∀ ts a, P ts a → Q (ts.map onTokens) (g a))
    {ts : List Token} {as : List α} (hmany : Many P ts as) :
    Many Q (ts.map onTokens) (as.map g) := by
  induction hmany with
  | nil => exact .nil
  | cons hp _ ih =>
    rw [List.map_append]
    exact .cons (h _ _ hp) ih

variable (f : Location → Location)

theorem Path.relocate {ts : List Token} {segments : List String} (h : Path ts segments) :
    Path (ts.map (Token.relocate f)) segments := by
  obtain @⟨t, us, segments, ht, hmore⟩ := h
  have hsegment (us : List Token) (s : String) (hs : Segment us s) :
      Segment (us.map (Token.relocate f)) (id s) := by
    obtain @⟨c, t, hc, ht⟩ := hs
    exact Segment.mk (c := c.relocate f) (t := t.relocate f) hc ht
  have hmore := hmore.map (Token.relocate f) id hsegment
  rw [List.map_id] at hmore
  exact Path.mk (t := t.relocate f) ht hmore

theorem TypePhrase.relocate {ts : List Token} {type : TypeName} (h : TypePhrase ts type) :
    TypePhrase (ts.map (Token.relocate f)) (type.relocate f) := by
  cases h with
  | @plain t us segments h => exact TypePhrase.plain (t := t.relocate f) (h.relocate f)
  | @rooted c us segments hc h => exact TypePhrase.rooted (c := c.relocate f) hc (h.relocate f)

theorem MarkerPhrase.relocate {ts : List Token} {m : Marker} (h : MarkerPhrase ts m) :
    MarkerPhrase (ts.map (Token.relocate f)) m := by
  obtain ⟨w, o, v, c, word, rfl, hw, ho, hv, hc⟩ := markerPhrase_iff.1 h
  exact markerPhrase_iff.2 ⟨w.relocate f, o.relocate f, v.relocate f, c.relocate f, word, rfl, hw, ho,
    hv, hc⟩

theorem relocate_markers {ts : List Token} {markers : List Marker}
    (h : Many MarkerPhrase ts markers) :
    Many MarkerPhrase (ts.map (Token.relocate f)) markers := by
  have hmarkers := h.map (Token.relocate f) id fun _ _ hm => hm.relocate f
  rwa [List.map_id] at hmarkers

theorem MemberPhrase.relocate {ts : List Token} {m : Option FieldDecl} (h : MemberPhrase ts m) :
    MemberPhrase (ts.map (Token.relocate f)) (m.map (FieldDecl.relocate f)) := by
  cases h with
  | @access a c ha hc => exact MemberPhrase.access (a := a.relocate f) (c := c.relocate f) ha hc
  | @field us ms n e type markers htype hn hmarkers he =>
    rw [List.map_append, List.map_append]
    exact MemberPhrase.field (n := n.relocate f) (e := e.relocate f) (htype.relocate f) hn
      (relocate_markers f hmarkers) he

theorem AlignPhrase.relocate {rule : HeadRule} {ts : List Token} {alignment : Option Nat}
    (h : AlignPhrase rule ts alignment) :
    AlignPhrase rule (ts.map (Token.relocate f)) alignment := by
  cases h with
  | none => exact .none
  | @some a o v c n ha ho hv hrule hc =>
    exact AlignPhrase.some (a := a.relocate f) (o := o.relocate f) (v := v.relocate f)
      (c := c.relocate f) ha ho hv hrule hc

theorem HeadPhrase.relocate {rule : HeadRule} {ts : List Token} {head : StructHead}
    (h : HeadPhrase rule ts head) :
    HeadPhrase rule (ts.map (Token.relocate f)) (head.relocate f) := by
  obtain @⟨k, n, as, alignment, hk, halign, hn⟩ := h
  rw [List.map_append]
  exact HeadPhrase.mk (k := k.relocate f) (n := n.relocate f) hk (halign.relocate f) hn

theorem BodyPhrase.relocate {rule : HeadRule} {ts : List Token} {body : StructBody}
    (h : BodyPhrase rule ts body) :
    BodyPhrase rule (ts.map (Token.relocate f)) (body.relocate f) := by
  obtain @⟨hs, ms, bs, o, head, markers, register, members, hhead, hmarkers, hrule, hregister, ho,
    hmembers⟩ := h
  have hfields : (members.filterMap id).map (FieldDecl.relocate f) =
      (members.map (Option.map (FieldDecl.relocate f))).filterMap id := by
    rw [List.map_filterMap, List.filterMap_map]
    rfl
  rw [List.map_append, List.map_append, StructBody.relocate, hfields]
  exact BodyPhrase.mk (o := o.relocate f) (hhead.relocate f) (relocate_markers f hmarkers) hrule
    hregister ho (hmembers.map _ _ fun _ _ hm => hm.relocate f)

mutual

theorem Item.relocate {rule : HeadRule} {path : List String} {ts : List Token}
    {ds : List Declaration} :
    Item rule path ts ds → Item rule path (ts.map (Token.relocate f)) (ds.map (Declaration.relocate f))
  | @Item.namespaceBlock _ _ _ k o c _ _ _ hk hpath ho hbody hc => by
    rw [List.map_append, List.map_append]
    exact .namespaceBlock (k := k.relocate f) (o := o.relocate f) (c := c.relocate f) hk
      (hpath.relocate f) ho hbody.relocate hc
  | @Item.alias _ _ u n e s _ _ hu hn he htarget hs => by
    rw [List.map_append]
    exact .alias (u := u.relocate f) (n := n.relocate f) (e := e.relocate f) (s := s.relocate f) hu hn
      he (htarget.relocate f) hs
  | @Item.aggregate _ _ _ ss c _ hbody hc hend => by
    have hend' : OptionalSemicolon (ss.map (Token.relocate f)) := by
      cases hend with
      | absent => exact .absent
      | @present s hs => exact .present (s := s.relocate f) hs
    rw [List.map_append]
    exact .aggregate (c := c.relocate f) (hbody.relocate f) hc hend'
  | @Item.forward _ _ k n s hk hn hs =>
    .forward (k := k.relocate f) (n := n.relocate f) (s := s.relocate f) hk hn hs
  | @Item.semicolon _ _ s hs => .semicolon (s := s.relocate f) hs

theorem Items.relocate {rule : HeadRule} {path : List String} {ts : List Token}
    {ds : List Declaration} :
    Items rule path ts ds →
      Items rule path (ts.map (Token.relocate f)) (ds.map (Declaration.relocate f))
  | .nil => .nil
  | .cons hi his => by
    rw [List.map_append, List.map_append]
    exact .cons hi.relocate his.relocate

end

end Grammar

/-! ## Joined headers -/

/-- The places of a header behind another one: as many bytes further, and as many lines. -/
def Location.behind (first : String) : Location → Location :=
  Location.shift (first.utf8ByteSize + 1) (first.toList.count '\n' + 1)

section Classified

variable {rules : LexicalRules} {first second : String} {found : Tokenized} {t : RawToken}

theorem RawToken.classified_append (wf : rules.WellFormed) (h : rules.tokenize first = .ok found)
    (ht : t ∈ found.tokens) (behind : List Char) :
    t.classified rules (first.toList ++ behind) = t.classified rules first.toList := by
  obtain ⟨before, rest, hsource, hstart⟩ := rules.start_of_tokenize wf h ht
  rw [classified, classified, hstart, hsource, List.append_assoc, locate_append, locate_append]

theorem RawToken.classified_move (wf : rules.WellFormed) (h : rules.tokenize second = .ok found)
    (ht : t ∈ found.tokens) (first : String) :
    (t.move (first.utf8ByteSize + 1 + ·)).classified rules (first.toList ++ '\n' :: second.toList) =
      (t.classified rules second.toList).relocate (Location.behind first) := by
  obtain ⟨before, rest, hsource, hstart⟩ := rules.start_of_tokenize wf h ht
  have hplace := locate_append_newline first.toList before rest
  rw [← hsource, ← hstart, Text.byteLength_toList] at hplace
  exact congrArg (Token.mk (t.kind rules) t.text · t.length) hplace

end Classified

/-- A header, a newline and another header are read one by one, unless the first one ends in an escape
character. -/
theorem readHeader_append_newline {first second : String} {ds es : List Declaration}
    (hfirst : readHeader first = .ok ds) (hsecond : readHeader second = .ok es)
    (hlast : first.toList.getLast? ≠ some '\\') :
    readHeader (first ++ "\n" ++ second) =
      .ok (ds ++ es.map (Declaration.relocate (Location.behind first))) := by
  have wf := LexicalRules.wellFormed_headers
  obtain ⟨found, htokens₁, hitems₁⟩ := readHeader_eq_ok_iff.1 hfirst
  obtain ⟨later, htokens₂, hitems₂⟩ := readHeader_eq_ok_iff.1 hsecond
  obtain ⟨joined, htokens, hjoined⟩ :=
    LexicalRules.tokenize_append_newline wf LexicalRules.lineBound_headers htokens₁ htokens₂ hlast
  refine readHeader_eq_ok_iff.2 ⟨joined, htokens, ?_⟩
  have hchars : (first ++ "\n" ++ second).toList = first.toList ++ '\n' :: second.toList := by
    simp
  have hbefore : found.tokens.map (RawToken.classified .headers (first ++ "\n" ++ second).toList) =
      found.tokens.map (RawToken.classified .headers first.toList) := by
    refine List.map_congr_left fun t ht => ?_
    rw [hchars, t.classified_append wf htokens₁ ht]
  have hbehind : (later.tokens.map (RawToken.move (first.utf8ByteSize + 1 + ·))).map
        (RawToken.classified .headers (first ++ "\n" ++ second).toList) =
      (later.tokens.map (RawToken.classified .headers second.toList)).map
        (Token.relocate (Location.behind first)) := by
    rw [List.map_map, List.map_map, hchars]
    exact List.map_congr_left fun t ht => t.classified_move wf htokens₂ ht first
  rw [hjoined, List.map_append, hbefore, hbehind]
  exact Grammar.Items.append (hitems₂.relocate _) hitems₁

end ShaderInterface
