import ShaderInterface.Declaration.Reader
import Mathlib.Tactic

/-!
# The grammar of declarations

The grammar in the module on reading declarations, as relations between tokens and what they denote.
A terminal is one token; `Many` is the repetition in braces. An item is derived at the path of the
namespace blocks around it and denotes declarations: none for a semicolon or a forward declaration,
one for an alias or a struct, and those of its body for a namespace.

The grammar leaves open which alignments and which markers a struct can have (`HeadRule`);
`HeadRule.documented` is the rule of headers.
-/
namespace ShaderInterface

/-! ## Classes of tokens -/

namespace Token

theorem isKeyword_iff {t : Token} {w : String} :
    t.isKeyword w = true ↔ t.kind = .keyword ∧ t.text = w := by
  simp [isKeyword]

theorem isPunctuator_iff {t : Token} {s : String} :
    t.isPunctuator s = true ↔ t.kind = .punctuator ∧ t.text = s := by
  simp [isPunctuator]

theorem isGrouper_iff {t : Token} {c : Char} :
    t.isGrouper c = true ↔ t.kind = .grouper ∧ t.text.toList.head? = some c := by
  simp [isGrouper]

theorem isIdentifier_iff {t : Token} : t.isIdentifier = true ↔ t.kind = .identifier := by
  simp [isIdentifier]

theorem isStruct_iff {t : Token} :
    t.isStruct = true ↔ t.kind = .keyword ∧ (t.text = "struct" ∨ t.text = "class") := by
  simp [isStruct, isKeyword, and_or_left]

theorem isAccess_iff {t : Token} : t.isAccess = true ↔
    t.kind = .keyword ∧ (t.text = "public" ∨ t.text = "private" ∨ t.text = "protected") := by
  simp [isAccess, isKeyword, and_or_left, or_assoc]

end Token

theorem MarkerWord.ofToken?_eq_some {t : Token} {word : MarkerWord} :
    MarkerWord.ofToken? t = some word ↔ t.isIdentifier = true ∧ t.text = word.text := by
  unfold MarkerWord.ofToken?
  cases word <;> split_ifs <;> simp_all [MarkerWord.text]

/-! ## Nonterminals -/

/-- What may stand in the head of a struct. -/
structure HeadRule where
  /-- The alignments it can ask for. -/
  alignment : Nat → Prop
  /-- The markers behind its name. -/
  marker : Marker → Prop

/-- Alignments are powers of two up to the greatest one, and all markers are registers. -/
def HeadRule.documented : HeadRule where
  alignment n := n.isPowerOfTwo ∧ n ≤ maxStructAlignment
  marker m := ∃ slot, m = .register slot

namespace Grammar

/-- Any number of phrases of `P`, one behind the other. -/
inductive Many {α : Type} (P : List Token → α → Prop) : List Token → List α → Prop where
  | nil : Many P [] []
  | cons {ts us : List Token} {a : α} {as : List α} :
      P ts a → Many P us as → Many P (ts ++ us) (a :: as)

/-- `"::" name` -/
inductive Segment : List Token → String → Prop where
  | mk {c t : Token} : c.isPunctuator "::" → t.isIdentifier → Segment [c, t] t.text

/-- `name { "::" name }` -/
inductive Path : List Token → List String → Prop where
  | mk {t : Token} {ts : List Token} {segments : List String} :
      t.isIdentifier → Many Segment ts segments → Path (t :: ts) (t.text :: segments)

/-- `type = [ "::" ] name { "::" name }`, located at its first token. -/
inductive TypePhrase : List Token → TypeName → Prop where
  | plain {t : Token} {ts : List Token} {segments : List String} :
      Path (t :: ts) segments → TypePhrase (t :: ts) ⟨segments, t.location⟩
  | rooted {c : Token} {ts : List Token} {segments : List String} :
      c.isPunctuator "::" → Path ts segments → TypePhrase (c :: ts) ⟨segments, c.location⟩

/-- `marker`: a marker word, and a name or an integer in brackets. -/
inductive MarkerPhrase : List Token → Marker → Prop where
  | semantic {w o v c : Token} : w.isIdentifier → w.text = "SEMANTIC" → o.isGrouper '(' →
      v.isIdentifier → c.isGrouper ')' → MarkerPhrase [w, o, v, c] (.semantic v.text)
  | register {w o v c : Token} {n : Nat} : w.isIdentifier → w.text = "REGISTER" → o.isGrouper '(' →
      v.integer? = some n → c.isGrouper ')' → MarkerPhrase [w, o, v, c] (.register n)
  | instanceData {w o v c : Token} {n : Nat} : w.isIdentifier → w.text = "INSTANCE_DATA" →
      o.isGrouper '(' → v.integer? = some n → c.isGrouper ')' →
      MarkerPhrase [w, o, v, c] (.instanceData n)

/-- `member = access ":" | type name { marker } ";"`; an access specifier denotes no field. -/
inductive MemberPhrase : List Token → Option FieldDecl → Prop where
  | access {a c : Token} : a.isAccess → c.isPunctuator ":" → MemberPhrase [a, c] none
  | field {ts ms : List Token} {n e : Token} {type : TypeName} {markers : List Marker} :
      TypePhrase ts type → n.isIdentifier → Many MarkerPhrase ms markers → e.isPunctuator ";" →
      MemberPhrase (ts ++ n :: ms ++ [e]) (some ⟨n.text, type, markers, n.location⟩)

/-- `[ align ]`, where `align = "alignas" "(" integer ")"` -/
inductive AlignPhrase (rule : HeadRule) : List Token → Option Nat → Prop where
  | none : AlignPhrase rule [] none
  | some {a o v c : Token} {n : Nat} : a.isKeyword "alignas" → o.isGrouper '(' →
      v.integer? = some n → rule.alignment n → c.isGrouper ')' →
      AlignPhrase rule [a, o, v, c] (some n)

/-- `( "struct" | "class" ) [ align ] name` -/
inductive HeadPhrase (rule : HeadRule) : List Token → StructHead → Prop where
  | mk {k n : Token} {as : List Token} {alignment : Option Nat} : k.isStruct →
      AlignPhrase rule as alignment → n.isIdentifier →
      HeadPhrase rule (k :: as ++ [n]) ⟨alignment, n.name⟩

/-- The slot that markers give a struct: that of the last register among them. -/
inductive RegisterOf : List Marker → Option Nat → Prop where
  | none {markers : List Marker} : (∀ slot, .register slot ∉ markers) → RegisterOf markers none
  | last {before behind : List Marker} {slot : Nat} : (∀ other, .register other ∉ behind) →
      RegisterOf (before ++ .register slot :: behind) (some slot)

/-- `head { marker } "{" { member }`, a struct up to its closing brace. -/
inductive BodyPhrase (rule : HeadRule) : List Token → StructBody → Prop where
  | mk {hs ms bs : List Token} {o : Token} {head : StructHead} {markers : List Marker}
      {register : Option Nat} {members : List (Option FieldDecl)} : HeadPhrase rule hs head →
      Many MarkerPhrase ms markers → (∀ m ∈ markers, rule.marker m) → RegisterOf markers register →
      o.isGrouper '{' → Many MemberPhrase bs members →
      BodyPhrase rule (hs ++ ms ++ o :: bs) ⟨head, register, members.filterMap id⟩

/-- `[ ";" ]` -/
inductive OptionalSemicolon : List Token → Prop where
  | absent : OptionalSemicolon []
  | present {s : Token} : s.isPunctuator ";" → OptionalSemicolon [s]

/-- The declaration of a struct at a path. -/
def declarationOf (path : List String) (body : StructBody) : StructDecl :=
  { name := body.head.name.text
    path := path
    alignment := body.head.alignment
    register := body.register
    fields := body.fields
    location := body.head.name.location }

mutual

/-- `item = namespace | alias | struct | forward | ";"` -/
inductive Item (rule : HeadRule) : List String → List Token → List Declaration → Prop where
  | namespaceBlock {path segments : List String} {k o c : Token} {ns body : List Token}
      {ds : List Declaration} : k.isKeyword "namespace" → Path ns segments → o.isGrouper '{' →
      Items rule (path ++ segments) body ds → c.isGrouper '}' →
      Item rule path (k :: ns ++ o :: body ++ [c]) ds
  | alias {path : List String} {u n e s : Token} {ts : List Token} {target : TypeName} :
      u.isKeyword "using" → n.isIdentifier → e.isPunctuator "=" → TypePhrase ts target →
      s.isPunctuator ";" →
      Item rule path (u :: n :: e :: ts ++ [s]) [.typeAlias ⟨n.text, path, target, n.location⟩]
  | aggregate {path : List String} {bs ss : List Token} {c : Token} {body : StructBody} :
      BodyPhrase rule bs body → c.isGrouper '}' → OptionalSemicolon ss →
      Item rule path (bs ++ c :: ss) [.aggregate (declarationOf path body)]
  | forward {path : List String} {k n s : Token} : k.isStruct → n.isIdentifier →
      s.isPunctuator ";" → Item rule path [k, n, s] []
  | semicolon {path : List String} {s : Token} : s.isPunctuator ";" → Item rule path [s] []

/-- `{ item }` -/
inductive Items (rule : HeadRule) : List String → List Token → List Declaration → Prop where
  | nil {path : List String} : Items rule path [] []
  | cons {path : List String} {ts us : List Token} {ds es : List Declaration} :
      Item rule path ts ds → Items rule path us es → Items rule path (ts ++ us) (ds ++ es)

end

/-! ## Phrases grow at their end -/

theorem Many.snoc {α : Type} {P : List Token → α → Prop} {ts us : List Token} {a : α} {as : List α}
    (h : Many P ts as) (ha : P us a) : Many P (ts ++ us) (as ++ [a]) := by
  induction h with
  | nil => simpa using Many.cons ha .nil
  | cons hp _ ih => simpa using Many.cons hp ih

theorem Path.snoc {ts : List Token} {c t : Token} {segments : List String} (h : Path ts segments)
    (hc : c.isPunctuator "::") (ht : t.isIdentifier) :
    Path (ts ++ [c, t]) (segments ++ [t.text]) := by
  obtain ⟨h0, hs⟩ := h
  exact .mk h0 (hs.snoc (.mk hc ht))

theorem TypePhrase.snoc {ts : List Token} {c t : Token} {type : TypeName} (h : TypePhrase ts type)
    (hc : c.isPunctuator "::") (ht : t.isIdentifier) :
    TypePhrase (ts ++ [c, t]) { type with segments := type.segments ++ [t.text] } := by
  cases h with
  | plain h => exact .plain (h.snoc hc ht)
  | rooted h0 h => exact .rooted h0 (h.snoc hc ht)

theorem Items.append {rule : HeadRule} {path : List String} {us : List Token}
    {es : List Declaration} (hus : Items rule path us es) :
    ∀ {ts : List Token} {ds : List Declaration}, Items rule path ts ds →
      Items rule path (ts ++ us) (ds ++ es)
  | _, _, .nil => hus
  | _, _, .cons hi his => by simpa using Items.cons hi (Items.append hus his)

theorem Items.snoc {rule : HeadRule} {path : List String} {ts us : List Token}
    {ds es : List Declaration} (hi : Item rule path us es) (h : Items rule path ts ds) :
    Items rule path (ts ++ us) (ds ++ es) :=
  Items.append (by simpa using Items.cons hi .nil) h

theorem markerPhrase_iff {ts : List Token} {m : Marker} :
    MarkerPhrase ts m ↔ ∃ w o v c word, ts = [w, o, v, c] ∧ MarkerWord.ofToken? w = some word ∧
      o.isGrouper '(' ∧ Marker.ofToken? word v = some m ∧ c.isGrouper ')' := by
  constructor
  · intro h
    cases h with
    | @semantic w o v c hw ht ho hv hc =>
      exact ⟨w, o, v, c, .semantic, rfl, MarkerWord.ofToken?_eq_some.2 ⟨hw, ht⟩, ho,
        by simp [Marker.ofToken?, hv], hc⟩
    | @register w o v c n hw ht ho hv hc =>
      exact ⟨w, o, v, c, .register, rfl, MarkerWord.ofToken?_eq_some.2 ⟨hw, ht⟩, ho,
        by simp [Marker.ofToken?, hv], hc⟩
    | @instanceData w o v c n hw ht ho hv hc =>
      exact ⟨w, o, v, c, .instanceData, rfl, MarkerWord.ofToken?_eq_some.2 ⟨hw, ht⟩, ho,
        by simp [Marker.ofToken?, hv], hc⟩
  · rintro ⟨w, o, v, c, word, rfl, hword, ho, hv, hc⟩
    obtain ⟨hw, ht⟩ := MarkerWord.ofToken?_eq_some.1 hword
    cases word with
    | semantic =>
      obtain ⟨hid, rfl⟩ : v.isIdentifier = true ∧ .semantic v.text = m := by
        simpa [Marker.ofToken?] using hv
      exact .semantic hw ht ho hid hc
    | register =>
      obtain ⟨n, hn, rfl⟩ := Option.map_eq_some_iff.1 hv
      exact .register hw ht ho hn hc
    | instanceData =>
      obtain ⟨n, hn, rfl⟩ := Option.map_eq_some_iff.1 hv
      exact .instanceData hw ht ho hn hc

/-! ## The register of a struct -/

theorem filterMap_register?_eq_nil {markers : List Marker}
    (h : ∀ slot, .register slot ∉ markers) : markers.filterMap Marker.register? = [] := by
  refine List.filterMap_eq_nil_iff.2 fun m hm => ?_
  cases m with
  | semantic | instanceData => rfl
  | register slot => exact absurd hm (h slot)

theorem RegisterOf.snoc {markers : List Marker} {register : Option Nat} {m : Marker}
    (h : RegisterOf markers register) (hm : ∀ slot, m ≠ .register slot) :
    RegisterOf (markers ++ [m]) register := by
  cases h with
  | none hnone =>
    refine .none fun slot hmem => ?_
    rcases List.mem_append.1 hmem with hmem | hmem
    · exact hnone slot hmem
    · exact hm slot (List.mem_singleton.1 hmem).symm
  | @last before behind slot hbehind =>
    rw [List.append_assoc, List.cons_append]
    refine .last fun other hmem => ?_
    rcases List.mem_append.1 hmem with hmem | hmem
    · exact hbehind other hmem
    · exact hm other (List.mem_singleton.1 hmem).symm

/-- The reader finds the slot that the grammar gives a struct. -/
theorem registerOf_iff {markers : List Marker} {register : Option Nat} :
    RegisterOf markers register ↔ lastRegister? markers = register := by
  constructor
  · intro h
    cases h with
    | none hnone => simp [lastRegister?, filterMap_register?_eq_nil hnone]
    | last hbehind => simp [lastRegister?, filterMap_register?_eq_nil hbehind, Marker.register?]
  · rintro rfl
    induction markers using List.reverseRecOn with
    | nil => exact .none (by simp)
    | append_singleton markers m ih =>
      cases m with
      | register slot => simpa [lastRegister?, Marker.register?] using RegisterOf.last (by simp)
      | semantic name => simpa [lastRegister?, Marker.register?] using ih.snoc (by simp)
      | instanceData rate => simpa [lastRegister?, Marker.register?] using ih.snoc (by simp)

end Grammar

end ShaderInterface
