import ShaderInterface.Browser.Basic
import ShaderInterface.Proofs.Session.Coherence
import ShaderInterface.Proofs.Session.Provenance
import ShaderInterface.Proofs.Text.Places

/-!
# The line that a browser marks

When two aggregates claim one register, the browser marks a line of its joined headers. It adds the
line of the second aggregate in its own header to the lines counted before that header, and an empty
header counts no line there although it takes one in the joined text. So the marked line is short of
the right one by the number of empty headers before the header with the conflict
(`Browser.errorLine_of_conflict`), and right if there is none.
-/
namespace ShaderInterface

/-! ## Lines of joined headers -/

/-- The lines of a text: one for every newline, and one more for characters behind the last. -/
theorem Text.length_linesFrom (cs : List Char) (rev : List Char) :
    (linesFrom rev cs).length =
      cs.count '\n' + if cs.getLast? = some '\n' ∨ cs = [] ∧ rev = [] then 0 else 1 := by
  induction cs generalizing rev with
  | nil => cases rev <;> simp [linesFrom]
  | cons c cs ih =>
    unfold linesFrom
    have hlast : (c :: cs).getLast? = some '\n' ↔ cs.getLast? = some '\n' ∨ cs = [] ∧ c = '\n' := by
      cases cs <;> simp
    rw [List.count_cons]
    simp only [hlast, reduceCtorEq, false_and, or_false]
    by_cases hc : c = '\n'
    · rw [if_pos hc, List.length_cons, ih]
      simp only [hc, beq_self_eq_true, and_true, if_true]
      omega
    · rw [if_neg hc, ih]
      simp [hc]

namespace Browser

/-- A header that is not empty has as many lines as its part of the joined text has newlines. -/
theorem count_endLine (s : String) :
    (endLine s.toList).count '\n' = (Text.lines s).length + if s = "" then 1 else 0 := by
  have hempty : s.toList = [] ↔ s = "" := by simp
  rw [Text.lines, List.length_map, Text.length_linesFrom]
  unfold endLine
  by_cases hlast : s.toList.getLast? = some '\n'
  · have hne : s ≠ "" := by
      rintro rfl
      simp at hlast
    simp [hlast, hne]
  · by_cases hs : s = ""
    · simp [hs]
    · simp [hlast, hs]

/-- Lines that are counted for headers, and those that are not. -/
theorem count_joinSources (sources : List String) :
    (joinSources sources).toList.count '\n' =
      (sources.map fun s => (Text.lines s).length).sum + sources.count "" := by
  rw [toList_joinSources]
  induction sources with
  | nil => rfl
  | cons s rest ih =>
    rw [List.flatMap_cons, List.count_append, ih, count_endLine, List.map_cons, List.sum_cons,
      List.count_cons]
    simp only [beq_iff_eq]
    omega

theorem getElem?_countLines (sources : List String) (before i : Nat) (hi : i < sources.length) :
    (countLines before sources)[i]? =
      some (before + ((sources.take i).map fun s => (Text.lines s).length).sum) := by
  induction sources generalizing before i with
  | nil => simp at hi
  | cons s rest ih =>
    cases i with
    | zero => simp [countLines]
    | succ i =>
      have := ih (before + (Text.lines s).length) i (by simpa using hi)
      simp [countLines, this, Nat.add_assoc]

/-- A header stands behind the joined headers before it. -/
theorem joinSources_split {sources : List String} {i : Nat} {s : String}
    (h : sources[i]? = some s) :
    ∃ behind, joinSources sources = joinSources (sources.take i) ++ s ++ behind := by
  obtain ⟨hi, rfl⟩ := List.getElem?_eq_some_iff.1 h
  have hsplit : sources = sources.take i ++ sources[i] :: sources.drop (i + 1) := by
    simp
  have hend : ∃ newline, endLine sources[i].toList = sources[i].toList ++ newline := by
    unfold endLine
    split
    · exact ⟨[], by simp⟩
    · exact ⟨['\n'], rfl⟩
  obtain ⟨newline, hend⟩ := hend
  refine ⟨String.ofList (newline ++ (joinSources (sources.drop (i + 1))).toList), ?_⟩
  refine String.toList_inj.1 ?_
  calc (joinSources sources).toList
      = (joinSources (sources.take i ++ sources[i] :: sources.drop (i + 1))).toList := by
        rw [← hsplit]
    _ = _ := by simp only [toList_joinSources, List.flatMap_append, List.flatMap_cons, hend,
        String.toList_append, String.toList_ofList, List.append_assoc]

end Browser

/-! ## Headers that are added one by one -/

namespace Session

/-- The session that headers lead to when they are added to a new one, all with success. -/
inductive Gathered (options : EmitOptions) : List (String × Kind) → Session → Prop where
  | nil : Gathered options [] (new options)
  | snoc {headers : List (String × Kind)} {s s' : Session} {source : String} {kind : Kind} :
      Gathered options headers s → s.append source kind = (s', none) →
      Gathered options (headers ++ [(source, kind)]) s'

theorem Gathered.fromHeaders {options : EmitOptions} {headers : List (String × Kind)} {s : Session}
    (h : Gathered options headers s) :
    (s.catalog?.getD .empty).FromHeaders (headers.map Prod.fst) := by
  induction h with
  | nil => exact Catalog.fromHeaders_empty
  | @snoc headers s s' source kind _ happend ih =>
    obtain ⟨ds, c, hread, hext, rfl⟩ := append_eq_ok happend
    rw [List.map_append]
    exact ih.extend hread hext

end Session

/-! ## Keys -/

namespace Browser

/-- The error line that goes with the answer to a generation. -/
def answerLine (lineStarts : List Nat) (answer : Except CompileError String) : Option Nat :=
  match answer with
  | .ok _ => none
  | .error e => lineOf lineStarts e

/-- The browser is one of the session `s` over `sources`, and its error line belongs to the kind it
shows. -/
structure Follows (s : Session) (sources : List String) (b : Browser) : Prop where
  catalog? : b.session.catalog? = s.catalog?
  source : b.source = joinSources sources
  lineStarts : b.lineStarts = countLines 0 sources
  errorLine : b.errorLine = answerLine b.lineStarts (b.session.generate b.kind).2

theorem follows_select {s : Session} {sources : List String} {b : Browser}
    (hcatalog : b.session.catalog? = s.catalog?) (hsource : b.source = joinSources sources)
    (hlines : b.lineStarts = countLines 0 sources) (kind : Kind) :
    (b.select kind).Follows s sources := by
  have hagain := b.session.generate_generate kind kind
  have hkeep := b.session.generate_catalog? kind
  unfold select
  rcases hgen : b.session.generate kind with ⟨session, answer⟩
  rw [hgen] at hagain hkeep
  simp only at hagain hkeep
  cases answer with
  | ok text => exact ⟨hkeep.trans hcatalog, hsource, hlines, by simp [hagain, answerLine]⟩
  | error e => exact ⟨hkeep.trans hcatalog, hsource, hlines, by simp [hagain, answerLine]⟩

theorem follows_new (s : Session) (sources : List String) (kind : Kind) :
    (new s sources kind).Follows s sources :=
  follows_select (by rfl) (by rfl) (by rfl) kind

theorem Follows.press {s : Session} {sources : List String} {b : Browser} (h : b.Follows s sources)
    (key : Key) : (b.press key).Follows s sources := by
  have hselect := follows_select h.catalog? h.source h.lineStarts
  unfold Browser.press
  split
  case h_4 => exact hselect .vertexInput
  case h_5 => exact hselect .constantBuffer
  case h_6 => exact hselect .structuredBuffer
  -- No other key touches what is followed.
  all_goals exact ⟨h.catalog?, h.source, h.lineStarts, h.errorLine⟩

theorem follows_keys (s : Session) (sources : List String) (kind : Kind) (keys : List Key) :
    (keys.foldl Browser.press (new s sources kind)).Follows s sources :=
  List.foldlRecOn keys Browser.press (follows_new s sources kind) fun _ h key _ => h.press key

/-- **The line marked for a conflict of registers, after any keys.** The conflict lies in one of the
headers, and the marked line misses the line of the conflict in the joined headers by the number of
empty headers before that header. -/
theorem errorLine_of_conflict {options : EmitOptions} {headers : List (String × Kind)} {s : Session}
    (hs : s.Gathered options headers) (kind : Kind) (keys : List Key) {b : Browser}
    (hb : b = keys.foldl press (new s (headers.map Prod.fst) kind)) {k : Kind} {register : Register}
    {first second : String} {location : Location} {i : Nat}
    (hconflict : (b.session.generate b.kind).2 =
      .error (.registerConflict k register first second location i)) :
    ∃ text behind line, (headers.map Prod.fst)[i]? = some text ∧
      b.source = joinSources ((headers.map Prod.fst).take i) ++ text ++ behind ∧
      b.errorLine = some line ∧
      Text.lineAt b.source
          ((joinSources ((headers.map Prod.fst).take i)).utf8ByteSize + location.offset) =
        line + ((headers.map Prod.fst).take i).count "" := by
  subst hb
  obtain ⟨hcatalog, hsource, hlines, herror⟩ := follows_keys s (headers.map Prod.fst) kind keys
  generalize keys.foldl press (new s (headers.map Prod.fst) kind) = b at *
  generalize htexts : headers.map Prod.fst = texts at *
  obtain ⟨a, ha, rfl, rfl⟩ := Session.generate_conflict hconflict
  rw [hcatalog] at ha
  have hfrom := hs.fromHeaders
  rw [htexts] at hfrom
  obtain ⟨text, htext, hat⟩ := hfrom.2 a ha
  obtain ⟨before, rest, hsplit, hplace⟩ := hat.split
  obtain ⟨behind, hjoin⟩ := joinSources_split htext
  have hline : a.location.line = before.count '\n' + 1 := by
    rw [hplace, hsplit, locate_append]
  have hoffset : a.location.offset = Text.byteLength before := by
    rw [hplace, hsplit, locate_append]
  obtain ⟨hi, -⟩ := List.getElem?_eq_some_iff.1 htext
  refine ⟨text, behind, ((texts.take a.sourceIndex).map fun s => (Text.lines s).length).sum +
    a.location.line, htext, hsource.trans hjoin, ?_, ?_⟩
  · have hstart := getElem?_countLines texts 0 a.sourceIndex hi
    rw [herror, hconflict, hlines]
    simp [answerLine, lineOf, CompileError.sourceIndex?, CompileError.location?, hstart]
  · have hchars : b.source.toList =
        ((joinSources (texts.take a.sourceIndex)).toList ++ before) ++ (rest ++ behind.toList) := by
      rw [hsource, hjoin, String.toList_append, String.toList_append, hsplit]
      simp only [List.append_assoc]
    rw [← Text.byteLength_toList, hoffset, ← Text.byteLength_append, Text.lineAt_append hchars,
      List.count_append, count_joinSources, hline]
    omega

/-- Behind an empty header the line before the conflict is marked. -/
theorem errorLine_of_conflict_empty :
    let text := "struct A REGISTER(1) { float x; }; struct B REGISTER(1) { float y; };"
    let first := (Session.new {}).append "" .constantBuffer
    let second := first.1.append text .constantBuffer
    let b := new second.1 ["", text] .constantBuffer
    first.2 = none ∧ second.2 = none ∧
      (b.session.generate b.kind).2 =
        .error (.registerConflict .constantBuffer ⟨'b', 1⟩ "A" "B" ⟨42, 1, 43⟩ 1) ∧
      b.errorLine = some 1 ∧ Text.lineAt b.source (1 + 42) = 2 := by
  intro text first second b
  have hfirst : first.2 = none := by decide +kernel
  have hsecond : second.2 = none := by decide +kernel
  have hs : second.1.Gathered {} [("", .constantBuffer), (text, .constantBuffer)] :=
    .snoc (.snoc .nil (Prod.ext rfl hfirst)) (Prod.ext rfl hsecond)
  have hconflict : (b.session.generate b.kind).2 =
      .error (.registerConflict .constantBuffer ⟨'b', 1⟩ "A" "B" ⟨42, 1, 43⟩ 1) := by
    decide +kernel
  have hline : b.errorLine = some 1 := by decide +kernel
  obtain ⟨_, _, line, -, -, hmark, hright⟩ :=
    errorLine_of_conflict hs .constantBuffer [] (b := b) rfl hconflict
  obtain rfl : 1 = line := Option.some.inj (hline.symm.trans hmark)
  exact ⟨hfirst, hsecond, hconflict, hline, hright⟩

end Browser

end ShaderInterface
