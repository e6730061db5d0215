import ShaderInterface.Proofs.Browser.Highlighting
import ShaderInterface.Proofs.Browser.Views
import Mathlib.Tactic

/-!
# What the panes of a browser show

A pane shows a window of its rows, or a message if it has none. A draw moves the windows back onto
the rows, but leaves a pane with a message alone, so that keys can move its window anywhere. That is
never seen: a pane gets rows only when a kind is chosen, and its window then starts at the top.
The rows of the source and of the output are their lines, one by one (`Browser.ShowsLines`).

`Browser.windows_after` says this for whole runs, in which every key is followed by a draw. Two
browsers that differ in the windows of messages only (`Alike`) show the same, now and after any keys
(`Alike.foldl_next`).
-/
namespace ShaderInterface

/-- The first row that a pane shows. -/
def Scroll.firstRow (s : Scroll) : Focus → Nat
  | .source => s.source
  | .catalog => s.catalog
  | .output => s.output

theorem Scroll.ext_firstRow {s t : Scroll} (h : ∀ pane, s.firstRow pane = t.firstRow pane) :
    s = t := by
  obtain ⟨_, _, _⟩ := s
  obtain ⟨_, _, _⟩ := t
  have hsource := h .source
  have hcatalog := h .catalog
  have houtput := h .output
  simp only [firstRow] at hsource hcatalog houtput
  rw [hsource, hcatalog, houtput]

theorem Scroll.firstRow_move (s : Scroll) (focus pane : Focus) (change : Nat → Nat) :
    (s.move focus change).firstRow pane =
      if pane = focus then change (s.firstRow pane) else s.firstRow pane := by
  cases focus <;> cases pane <;> rfl

namespace Browser

/-! ## Windows -/

section
variable {total visible : Nat}

theorem clamp_le (first : Nat) : clamp total visible first ≤ total - visible := by
  unfold clamp
  split_ifs
  · exact Nat.min_le_right _ _
  · exact Nat.zero_le _

theorem clamp_of_le {first : Nat} (h : first ≤ total - visible) :
    clamp total visible first = first := by
  unfold clamp
  split_ifs
  · exact Nat.min_eq_left h
  · omega

theorem getElem?_window {α : Type} (first : Nat) (rows : List α) (i : Nat) :
    (window visible first rows)[i]? = if i < visible then rows[first + i]? else none := by
  rw [window, List.getElem?_take, List.getElem?_drop]

end

/-! ## Panes -/

/-- The rows of a pane; `none` if it shows a message. -/
def rows? (b : Browser) : Focus → Option (List (List Span))
  | .source => some (sourceRows b)
  | .catalog => if b.types.isEmpty then none else some (catalogRows b)
  | .output => b.output.map outputRows

theorem rows?_congr {b c : Browser} (hsource : c.source = b.source) (hview : c.view = b.view)
    (p : Focus) : c.rows? p = b.rows? p := by
  obtain ⟨hkind, htypes, houtput, hline, -⟩ := View.mk.inj hview
  cases p with
  | source => simp only [rows?, sourceRows, hsource, hline]
  | catalog => simp only [rows?, catalogRows, htypes, hkind]
  | output => simp only [rows?, houtput]

theorem rows?_settle (b : Browser) (height : Nat) (p : Focus) :
    (b.settle height).rows? p = b.rows? p :=
  rows?_congr rfl rfl p

theorem rows?_scrollBy (b : Browser) (change : Nat → Nat) (p : Focus) :
    (b.scrollBy change).rows? p = b.rows? p :=
  rows?_congr rfl rfl p

/-! ## Rows and lines -/

theorem spanChars_map_style (style : Style) (ss : List Span) :
    spanChars (ss.map fun s => { s with style := style }) = spanChars ss := by
  simp [spanChars, List.flatMap_map]

/-- A row of the source pane shows a line behind its number, marked or not. -/
theorem spanChars_sourceRow (errorLine : Option Nat) (number : Nat) (line : String) :
    spanChars (sourceRow errorLine number line) =
      (Text.decimalRight 4 number ++ " ").toList ++ line.toList := by
  have hline : spanChars (Highlight.spans line) = line.toList := (Highlight.covers_spans line).text
  unfold sourceRow
  dsimp only
  split_ifs with hmarked
  · rw [spanChars_cons, spanChars_map_style, hline, Span.chars_ofText]
  · rw [spanChars_cons, hline, Span.chars_ofText]

/-- The panes of texts have a row for every line: the source pane shows it behind its number, the
output pane alone. -/
structure ShowsLines (b : Browser) : Prop where
  source : ∀ rows, b.rows? .source = some rows → rows.map spanChars =
    (Text.lines b.source).mapIdx fun i line =>
      (Text.decimalRight 4 (i + 1) ++ " ").toList ++ line.toList
  output : ∀ rows, b.rows? .output = some rows →
    ∃ text, b.output = some text ∧ rows.map spanChars = (Text.lines text).map String.toList

theorem showsLines (b : Browser) : b.ShowsLines where
  source := by
    intro rows hrows
    obtain rfl : sourceRows b = rows := Option.some.inj hrows
    rw [sourceRows, List.mapIdx_eq_zipIdx_map, List.mapIdx_eq_zipIdx_map, List.map_map]
    refine List.map_congr_left fun line _ => ?_
    exact spanChars_sourceRow b.errorLine (line.2 + 1) line.1
  output := by
    intro rows hrows
    obtain ⟨text, htext, rfl⟩ := Option.map_eq_some_iff.1 hrows
    refine ⟨text, htext, ?_⟩
    rw [outputRows, List.map_map]
    refine List.map_congr_left fun line _ => ?_
    simp

/-! ## Drawing panes -/

/-- A pane as it is drawn. -/
def pane (b : Browser) (width height : Nat) : Focus → List (List Cell)
  | .source => sourcePane b width height
  | .catalog => catalogPane b width height
  | .output => outputPane b width height

/-- The title of a pane. -/
def title (b : Browser) : Focus → String
  | .source => " Source "
  | .catalog => s!" Catalog ({b.kind.message}) "
  | .output => s!" Output ({b.kind.message}) "

/-- The cells of a row; in the catalog they keep a distance from the border. -/
def rowCells : Focus → List Span → List Cell
  | .source, row => spanCells row
  | .catalog, row => Screen.blank {} :: spanCells row
  | .output, row => spanCells row

/-- Three panes side by side, and the status line. -/
theorem frame_eq (b : Browser) (width height : Nat) :
    b.frame width height =
      (Screen.beside (b.pane (width * 4 / 10) (paneHeight height) .source)
        (Screen.beside (b.pane (width * 3 / 10) (paneHeight height) .catalog)
          (b.pane (width - width * 4 / 10 - width * 3 / 10) (paneHeight height) .output)) ++
        [statusRow b width]).take height := rfl

section
variable {b : Browser} {p : Focus}

/-- A pane with rows is a box around its window. -/
theorem pane_of_rows {rows : List (List Span)} (h : b.rows? p = some rows) (width height : Nat) :
    b.pane width height p =
      Screen.box width height (Palette.border (b.focus == p)) (b.title p) {}
        ((window (visibleRows height) (b.scroll.firstRow p) rows).map (rowCells p)) := by
  cases p with
  | source =>
    obtain rfl : sourceRows b = rows := Option.some.inj h
    rfl
  | catalog =>
    cases htypes : b.types.isEmpty with
    | true => simp [rows?, htypes] at h
    | false =>
      obtain rfl : catalogRows b = rows := by simpa [rows?, htypes] using h
      simp only [pane, catalogPane, htypes]
      rfl
  | output =>
    obtain ⟨text, htext, rfl⟩ := Option.map_eq_some_iff.1 h
    simp only [pane, outputPane, htext]
    rfl

/-- A pane with a message looks the same wherever its window is. -/
theorem pane_of_message (h : b.rows? p = none) (scroll : Scroll) (width height : Nat) :
    pane { b with scroll := scroll } width height p = b.pane width height p := by
  cases p with
  | source => cases h
  | catalog =>
    cases htypes : b.types.isEmpty with
    | true => simp [pane, catalogPane, htypes]
    | false => simp [rows?, htypes] at h
  | output =>
    have houtput : b.output = none := Option.map_eq_none_iff.1 h
    simp [pane, outputPane, houtput]

/-- A draw clamps the windows of panes with rows and leaves the others alone. -/
theorem firstRow_settle (b : Browser) (height : Nat) (p : Focus) :
    (b.settle height).scroll.firstRow p =
      match b.rows? p with
      | some rows => clamp rows.length (visibleRows (paneHeight height)) (b.scroll.firstRow p)
      | none => b.scroll.firstRow p := by
  cases p with
  | source => rfl
  | catalog =>
    cases htypes : b.types.isEmpty with
    | true => simp [rows?, settle, Scroll.firstRow, htypes]
    | false => simp [rows?, settle, Scroll.firstRow, htypes]
  | output =>
    cases houtput : b.output with
    | none => simp [rows?, settle, Scroll.firstRow, houtput]
    | some text => simp [rows?, settle, Scroll.firstRow, houtput]

theorem firstRow_settle_le {rows : List (List Span)} (h : b.rows? p = some rows) (height : Nat) :
    (b.settle height).scroll.firstRow p ≤ rows.length - visibleRows (paneHeight height) := by
  rw [firstRow_settle, h]
  exact clamp_le _

/-- A browser whose windows are on their rows stays as it is. -/
theorem settle_eq_self {height : Nat} (h : ∀ p rows, b.rows? p = some rows →
    b.scroll.firstRow p ≤ rows.length - visibleRows (paneHeight height)) : b.settle height = b := by
  have hscroll : (b.settle height).scroll = b.scroll := by
    refine Scroll.ext_firstRow fun p => ?_
    rw [firstRow_settle]
    cases hrows : b.rows? p with
    | none => rfl
    | some rows => exact clamp_of_le (h p rows hrows)
  have hsettle : b.settle height = { b with scroll := (b.settle height).scroll } := rfl
  rw [hsettle, hscroll]

end

/-! ## Lines of the screen -/

/-- Inside its border a box shows the rows from the first one on, as many as it has lines for. -/
theorem getElem?_box (width : Nat) {height : Nat} (border : Style) (title : String) (fill : Style)
    (rows : List (List Cell)) {i : Nat} (hi : i + 2 < height) :
    (Screen.box width height border title fill rows)[i + 1]? =
      some (Screen.boxRow width border (Screen.fitLeft (width - 2) fill (rows[i]?.getD []))) := by
  have hinside : (rows.take (height - 2) ++ List.replicate (height - 2 - rows.length) [])[i]? =
      some (rows[i]?.getD []) := by
    rcases lt_or_ge i rows.length with hlt | hge
    · rw [List.getElem?_append_left (by simp; omega), List.getElem?_take, if_pos (by omega),
        List.getElem?_eq_getElem hlt]
      rfl
    · rw [List.getElem?_append_right (by simp; omega), List.getElem?_replicate,
        if_pos (by simp; omega), List.getElem?_eq_none hge]
      rfl
  rw [Screen.box, List.getElem?_take, if_pos (by omega), List.cons_append, List.getElem?_cons_succ,
    List.getElem?_append_left (by simp; omega), List.getElem?_map, hinside]
  rfl

/-- The pane `p` of a height shows the part of its rows that its window covers. -/
structure ShowsWindow (b : Browser) (tall : Nat) (p : Focus) (rows : List (List Span)) : Prop where
  /-- The window does not start behind the last page. -/
  onRows : b.scroll.firstRow p ≤ rows.length - visibleRows tall
  /-- The rows handed to the box are those of the window. -/
  passed : ∃ shown : List (List Span),
    (∀ i, shown[i]? = if i < visibleRows tall then rows[b.scroll.firstRow p + i]? else none) ∧
      ∀ width, b.pane width tall p = Screen.box width tall (Palette.border (b.focus == p))
        (b.title p) {} (shown.map (rowCells p))
  /-- Every line inside the border shows one of them. -/
  lines : ∀ width i, i + 2 < tall → (b.pane width tall p)[i + 1]? =
    some (Screen.boxRow width (Palette.border (b.focus == p))
      (Screen.fitLeft (width - 2) {} ((rows[b.scroll.firstRow p + i]?.map (rowCells p)).getD [])))

theorem showsWindow_of_le {b : Browser} {tall : Nat} {p : Focus} {rows : List (List Span)}
    (hrows : b.rows? p = some rows) (h : b.scroll.firstRow p ≤ rows.length - visibleRows tall) :
    b.ShowsWindow tall p rows where
  onRows := h
  passed := ⟨window (visibleRows tall) (b.scroll.firstRow p) rows, getElem?_window _ rows,
    fun width => pane_of_rows hrows width tall⟩
  lines width i hi := by
    have hvisible : i < visibleRows tall := by
      unfold visibleRows
      omega
    rw [pane_of_rows hrows, getElem?_box width _ _ _ _ hi, List.getElem?_map, getElem?_window,
      if_pos hvisible]

/-! ## Runs -/

/-- The browser and its frame when a key is pressed and the screen is drawn again. -/
def next (width height : Nat) (drawn : Browser × List (List Cell)) (key : Key) :
    Browser × List (List Cell) :=
  (drawn.1.press key).draw width height

/-- The browser and its frame when it is drawn first and then again behind every key. -/
def drawnAfter (width height : Nat) (b : Browser) (keys : List Key) : Browser × List (List Cell) :=
  keys.foldl (next width height) (b.draw width height)

/-- What was drawn last is the settled form of some browser. -/
theorem drawnAfter_eq_draw (width height : Nat) (b : Browser) (keys : List Key) :
    ∃ c : Browser, drawnAfter width height b keys = c.draw width height := by
  induction keys using List.reverseRecOn with
  | nil => exact ⟨b, rfl⟩
  | append_singleton keys key _ =>
    rw [drawnAfter, List.foldl_append]
    exact ⟨_, rfl⟩

/-! ## Windows of messages -/

/-- The browser `c` is `b` but for the windows of panes that show a message. -/
def Alike (b c : Browser) : Prop :=
  ∃ scroll, c = { b with scroll := scroll } ∧
    ∀ p, b.rows? p ≠ none → scroll.firstRow p = b.scroll.firstRow p

namespace Alike
variable {b c : Browser}

theorem refl (b : Browser) : Alike b b := ⟨b.scroll, rfl, fun _ _ => rfl⟩

theorem moved {p : Focus} (h : b.rows? p = none) (change : Nat → Nat) :
    Alike b { b with scroll := b.scroll.move p change } := by
  refine ⟨_, rfl, fun q hq => ?_⟩
  rw [Scroll.firstRow_move, if_neg]
  rintro rfl
  exact hq h

theorem frame (h : Alike b c) (width height : Nat) :
    c.frame width height = b.frame width height := by
  obtain ⟨scroll, rfl, hfirst⟩ := h
  have hpane (w : Nat) (p : Focus) : pane { b with scroll := scroll } w (paneHeight height) p =
      b.pane w (paneHeight height) p := by
    cases hrows : b.rows? p with
    | none => exact pane_of_message hrows scroll _ _
    | some rows =>
      have hsame : rows? { b with scroll := scroll } p = some rows :=
        (rows?_congr rfl rfl p).trans hrows
      have htitle : title { b with scroll := scroll } p = b.title p := by cases p <;> rfl
      rw [pane_of_rows hsame, pane_of_rows hrows, htitle, hfirst p (by simp [hrows])]
  rw [frame_eq, frame_eq, hpane, hpane, hpane]
  rfl

theorem settle (h : Alike b c) (height : Nat) : Alike (b.settle height) (c.settle height) := by
  obtain ⟨scroll, rfl, hfirst⟩ := h
  have hrows (p : Focus) : rows? { b with scroll := scroll } p = b.rows? p := rows?_congr rfl rfl p
  refine ⟨(Browser.settle { b with scroll := scroll } height).scroll, rfl, fun p hp => ?_⟩
  rw [rows?_settle] at hp
  rw [firstRow_settle, firstRow_settle, hrows, hfirst p hp]

/-- Choosing a kind makes the browsers equal, because it puts those windows at the first row. -/
theorem select (h : Alike b c) (kind : Kind) : c.select kind = b.select kind := by
  obtain ⟨scroll, rfl, hfirst⟩ := h
  have hsource : scroll.source = b.scroll.source := hfirst .source (by simp [rows?])
  simp only [Browser.select, hsource]

theorem press (h : Alike b c) (key : Key) : Alike (b.press key) (c.press key) := by
  have hselect (kind : Kind) : Alike (b.select kind) (c.select kind) := by
    rw [h.select kind]
    exact refl _
  obtain ⟨scroll, rfl, hfirst⟩ := h
  have hscroll (change : Nat → Nat) :
      Alike (b.scrollBy change) (scrollBy { b with scroll := scroll } change) := by
    refine ⟨scroll.move b.focus change, rfl, fun p hp => ?_⟩
    rw [rows?_scrollBy] at hp
    rw [scrollBy, Scroll.firstRow_move, Scroll.firstRow_move, hfirst p hp]
  -- Other keys leave rows and windows alone.
  have hkeep {d : Browser} (hsource : d.source = b.source) (hview : d.view = b.view)
      (hsame : d.scroll = b.scroll) : Alike d { d with scroll := scroll } := by
    refine ⟨scroll, rfl, fun p hp => ?_⟩
    rw [rows?_congr hsource hview] at hp
    rw [hsame, hfirst p hp]
  unfold Browser.press
  split
  case h_4 => exact hselect .vertexInput
  case h_5 => exact hselect .constantBuffer
  case h_6 => exact hselect .structuredBuffer
  case h_9 => exact hscroll _
  case h_10 => exact hscroll _
  case h_11 => exact hscroll _
  case h_12 => exact hscroll _
  all_goals exact hkeep rfl rfl rfl

end Alike

/-- Browsers that look alike go on to look alike. -/
theorem Alike.foldl_next {b c : Browser} (h : Alike b c) (width height : Nat)
    (screen : List (List Cell)) (keys : List Key) :
    (keys.foldl (next width height) (c, screen)).2 =
      (keys.foldl (next width height) (b, screen)).2 := by
  induction keys generalizing b c screen with
  | nil => rfl
  | cons key keys ih =>
    have hsettle := (h.press key).settle height
    have hframe := hsettle.frame width height
    have hc : next width height (c, screen) key =
        ((c.press key).settle height, ((b.press key).settle height).frame width height) :=
      Prod.ext rfl hframe
    rw [List.foldl_cons, List.foldl_cons, hc]
    exact ih hsettle _

/-! ## Keys -/

section
variable {b : Browser} {key : Key}

/-- The keys that scroll. -/
def scrollKeys : List Key := [.up, .down, .pageUp, .pageDown]

theorem press_of_mem_scrollKeys (h : key ∈ scrollKeys) :
    ∃ change, b.press key = b.scrollBy change := by
  simp only [scrollKeys, List.mem_cons, List.not_mem_nil, or_false] at h
  rcases h with rfl | rfl | rfl | rfl <;> exact ⟨_, rfl⟩

theorem scroll_select (b : Browser) (kind : Kind) :
    (b.select kind).scroll = { b.scroll with catalog := 0, output := 0 } := by
  unfold select
  rcases b.session.generate kind with ⟨session, _ | _⟩ <;> rfl

/-- A key that gives rows to a pane with a message puts its window at the first row. -/
theorem firstRow_press_of_message {p : Focus} (hmessage : b.rows? p = none)
    (hrows : (b.press key).rows? p ≠ none) : (b.press key).scroll.firstRow p = 0 := by
  obtain ⟨kind, -, hselect⟩ | ⟨-, -, -, hview⟩ := b.handle_cases (.key key)
  · have hpress : b.press key = b.select kind := hselect
    rw [hpress, scroll_select]
    cases p with
    | source => cases hmessage
    | catalog => rfl
    | output => rfl
  · have hview : (b.press key).view = b.view := hview
    obtain ⟨hkind, htypes, houtput, -⟩ := View.mk.inj hview
    cases p with
    | source => cases hmessage
    | catalog =>
      refine absurd hmessage ?_
      simpa only [rows?, catalogRows, htypes, hkind] using hrows
    | output =>
      refine absurd hmessage ?_
      simpa only [rows?, houtput] using hrows

end

/-- **Windows stay on their rows.** Whatever keys are pressed, each followed by a draw: the frame is
made of three panes, and every pane with rows shows those of its window, which does not start behind
its last page; the rows of the source and of the output are their lines. To draw once more changes
nothing. A key that scrolls changes only the window of the pane in focus. The window of a pane with a
message is never seen: it is back at the first row in the first frame in which the pane has rows
again, and all later frames are the same wherever it was. -/
theorem windows_after (s : Session) (sources : List String) (kind : Kind) (width height : Nat)
    (keys : List Key) :
    let drawn := drawnAfter width height (new s sources kind) keys
    let b := drawn.1
    let tall := paneHeight height
    drawn.2 = (Screen.beside (b.pane (width * 4 / 10) tall .source)
      (Screen.beside (b.pane (width * 3 / 10) tall .catalog)
        (b.pane (width - width * 4 / 10 - width * 3 / 10) tall .output)) ++
      [statusRow b width]).take height ∧
    (∀ p rows, b.rows? p = some rows → b.ShowsWindow tall p rows) ∧
    b.ShowsLines ∧
    b.draw width height = drawn ∧
    (∀ key ∈ scrollKeys, b.press key = { b with scroll := (b.press key).scroll } ∧
      ∀ p, p ≠ b.focus → (b.press key).scroll.firstRow p = b.scroll.firstRow p) ∧
    ∀ p, b.rows? p = none →
      (∀ key, (b.press key).rows? p ≠ none → (b.press key).scroll.firstRow p = 0 ∧
        (next width height drawn key).1.scroll.firstRow p = 0) ∧
      ∀ (change : Nat → Nat) (later : List Key),
        (later.foldl (next width height) ({ b with scroll := b.scroll.move p change }, drawn.2)).2 =
          (later.foldl (next width height) drawn).2 := by
  intro drawn b tall
  obtain ⟨c, hc⟩ := drawnAfter_eq_draw width height (new s sources kind) keys
  have hdrawn : drawn = c.draw width height := hc
  have hb : b = c.settle height := congrArg Prod.fst hdrawn
  have hframe : drawn.2 = b.frame width height := by
    rw [hb, hdrawn]
    rfl
  have honRows : ∀ p rows, b.rows? p = some rows →
      b.scroll.firstRow p ≤ rows.length - visibleRows tall := by
    intro p rows hrows
    rw [hb, rows?_settle] at hrows
    rw [hb]
    exact firstRow_settle_le hrows height
  refine ⟨hframe.trans (frame_eq b width height), ?_, b.showsLines, ?_, ?_, fun p hp => ⟨?_, ?_⟩⟩
  · exact fun p rows hrows => showsWindow_of_le hrows (honRows p rows hrows)
  · have hsettle : b.settle height = b := settle_eq_self honRows
    rw [draw, hsettle, ← hframe]
  · intro key hkey
    obtain ⟨change, hpress⟩ := press_of_mem_scrollKeys (b := b) hkey
    rw [hpress]
    refine ⟨rfl, fun p hp => ?_⟩
    rw [scrollBy, Scroll.firstRow_move, if_neg hp]
  · intro key hrows
    have hzero := firstRow_press_of_message hp hrows
    refine ⟨hzero, ?_⟩
    obtain ⟨rows, hrows⟩ := Option.ne_none_iff_exists'.1 hrows
    change ((b.press key).settle height).scroll.firstRow p = 0
    rw [firstRow_settle, hrows, hzero]
    exact clamp_of_le (Nat.zero_le _)
  · intro change later
    exact (Alike.moved hp change).foldl_next width height drawn.2 later

end Browser

end ShaderInterface
