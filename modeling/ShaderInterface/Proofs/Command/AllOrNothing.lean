import ShaderInterface.Command.Run
import ShaderInterface.Proofs.Command.Arguments
import ShaderInterface.Proofs.Emission.Unambiguous
import Mathlib.Data.List.Nodup

/-!
# Command lines do all or nothing

A command line succeeds if and only if all its headers can be read and added, the registers of every
kind pass the check and the file can be written (`Compiles`). Otherwise nothing is printed and no file
is touched. The text of a success holds the whole catalog: each aggregate once, under its kind
(`Catalog.WrittenIn`). Both together are `Invocation.code_eq_zero_iff`.
-/
namespace ShaderInterface

/-! ## Files -/

namespace FileTree

section
variable {t : FileTree} {p : Place} {text : String}

/-- A file that is put into the tree leaves directories alone. -/
theorem entryAt_put_of_directory {q place : Place} (hp : ∀ d, t.entryAt p ≠ .directory d)
    (hq : t.entryAt q = .directory place) : (t.put p text).entryAt q = .directory place := by
  have hne : p ≠ q := by
    rintro rfl
    exact hp place hq
  unfold entryAt at hq ⊢
  split at hq
  · cases hq
  case h_2 hnone =>
  split_ifs at hq with hdirectory
  cases hq
  have hfind : (t.put p text).files.find? (fun file => file.1 == q) = none := by
    rw [List.find?_eq_none] at hnone ⊢
    intro file hfile
    rcases List.mem_cons.1 hfile with rfl | hfile
    · simpa using hne
    · exact hnone file (List.mem_of_mem_filter hfile)
  rw [hfind]
  refine if_pos ?_
  rw [Bool.or_eq_true, List.any_eq_true] at hdirectory ⊢
  rcases hdirectory with hempty | ⟨file, hfile, habove⟩
  · exact .inl hempty
  · -- The file below may be the one that is replaced.
    by_cases hsame : file.1 = p
    · exact .inr ⟨(p, some text), List.mem_cons_self, hsame ▸ habove⟩
    · have hstays : file ∈ t.files.filter fun file => file.1 != p :=
        List.mem_filter.2 ⟨hfile, by simpa using hsame⟩
      exact .inr ⟨file, List.mem_cons_of_mem _ hstays, habove⟩

theorem entry_put_of_directory {directory place : Place} {name : String}
    (hp : ∀ d, t.entryAt p ≠ .directory d) (h : t.entry directory name = .ok (.directory place)) :
    (t.put p text).entry directory name = .ok (.directory place) := by
  unfold entry at h ⊢
  split_ifs at h ⊢ with hstay hup hlong
  · exact h
  · exact h
  · rw [entryAt_put_of_directory hp (Except.ok.inj h)]

theorem walk_put {directory place : Place} {names : List String}
    (hp : ∀ d, t.entryAt p ≠ .directory d) (h : t.walk directory names = .ok place) :
    (t.put p text).walk directory names = .ok place := by
  induction names generalizing directory with
  | nil => exact h
  | cons name names ih =>
    unfold walk at h ⊢
    split at h
    case h_1 next hentry =>
      rw [entry_put_of_directory hp hentry]
      exact ih h
    all_goals cases h

theorem target_put {path : String} {target : Target} (hp : ∀ d, t.entryAt p ≠ .directory d)
    (h : t.target path = .ok target) : (t.put p text).target path = .ok target := by
  unfold FileTree.target at h ⊢
  split_ifs at h ⊢
  dsimp only at h ⊢
  split at h
  case h_1 directory hwalk =>
    rw [walk_put hp hwalk]
    exact h
  case h_2 => cases h

end

/-- What stands in the way of writing is a directory; other names stand for places. -/
theorem entry_put {t : FileTree} {directory : Place} {name : String} {e : Entry}
    (h : t.entry directory name = .ok e) (he : ∀ d, e ≠ .directory d) (text : String) :
    t.entryAt (directory.child name) = e ∧
      (t.put (directory.child name) text).entry directory name = .ok (.file (some text)) := by
  unfold entry at h ⊢
  split_ifs at h ⊢ with hstay hup hlong
  · exact absurd (Except.ok.inj h).symm (he _)
  · exact absurd (Except.ok.inj h).symm (he _)
  · exact ⟨Except.ok.inj h, by rw [entryAt_put]⟩

/-- A text that was written is read again. -/
theorem read_of_write {t t' : FileTree} {path text : String} (h : t.write path text = .ok t') :
    t'.read path = .ok text := by
  unfold write at h
  split at h
  · cases h
  case h_2 target htarget =>
  split_ifs at h with hslashed
  have hput {e : Entry} (hentry : t.entry target.directory target.name = .ok e)
      (he : ∀ d, e ≠ .directory d) :
      (t.put (target.directory.child target.name) text).read path = .ok text := by
    obtain ⟨hat, hnew⟩ := entry_put hentry he text
    rw [read, target_put (hat ▸ he) htarget]
    simp only [hnew, if_neg hslashed]
  split at h
  · cases h
  · cases h
  · next _ hentry =>
    cases h
    exact hput hentry (by simp)
  · next hentry =>
    cases h
    exact hput hentry (by simp)

end FileTree

/-! ## Headers and texts -/

namespace Session

/-- Adding headers one by one, all with success, leads from one session to the other. -/
inductive Appends : Session → List (String × Kind) → Session → Prop where
  | nil {s : Session} : Appends s [] s
  | cons {s s' s'' : Session} {source : String} {kind : Kind} {headers : List (String × Kind)} :
      s.append source kind = (s', none) → Appends s' headers s'' →
      Appends s ((source, kind) :: headers) s''

theorem Appends.coherent {options : EmitOptions} {s s' : Session} {headers : List (String × Kind)}
    (h : Appends s headers s') (hs : s.Coherent options) : s'.Coherent options := by
  induction h with
  | nil => exact hs
  | @cons s s' _ source kind _ happend _ ih =>
    have hs' := hs.perform (.append source kind)
    rw [perform, happend] at hs'
    exact ih hs'

/-- The catalog of the session is that of the headers. -/
theorem Appends.catalog {s s' : Session} {headers : List (String × Kind)} (h : Appends s headers s') :
    s'.catalog?.getD .empty = headers.foldl Catalog.addHeader (s.catalog?.getD .empty) ∧
      (headers ≠ [] → s'.catalog?.isSome) := by
  induction h with
  | nil => simp
  | @cons s s' s'' source kind headers happend hrest ih =>
    obtain ⟨ds, c, hread, hext, rfl⟩ := append_eq_ok happend
    have hadd : (s.catalog?.getD .empty).addHeader (source, kind) = c := by
      simp only [Catalog.addHeader, hread, hext]
    refine ⟨?_, fun _ => ?_⟩
    · rw [List.foldl_cons, hadd]
      exact ih.1
    · cases hrest with
      | nil => rfl
      | cons _ _ => exact ih.2 (by simp)

theorem Appends.catalog_eq {options : EmitOptions} {s : Session} {headers : List (String × Kind)}
    (h : Appends (new options) headers s) (hne : headers ≠ []) :
    s.catalog? = some (.ofHeaders headers) := by
  obtain ⟨hcatalog, hsome⟩ := h.catalog
  obtain ⟨c, hc⟩ := Option.isSome_iff_exists.1 (hsome hne)
  rw [hc] at hcatalog ⊢
  exact congrArg some hcatalog

end Session

/-- The texts of headers, each with its kind. -/
def HeadersRead (read : String → Except FileFault String) (sources headers : List (String × Kind)) :
    Prop :=
  List.Forall₂ (fun source header => read source.1 = .ok header.1 ∧ source.2 = header.2) sources headers

namespace Session

/-- Files are added if and only if they all can be read and their texts added. -/
theorem addFiles_eq_ok_iff {read : String → Except FileFault String} {s s' : Session}
    {sources : List (String × Kind)} {texts : List String} :
    s.addFiles read sources = .ok (s', texts) ↔
      ∃ headers, HeadersRead read sources headers ∧ texts = headers.map Prod.fst ∧
        s.Appends headers s' := by
  induction sources generalizing s texts with
  | nil =>
    constructor
    · intro h
      cases h
      exact ⟨[], .nil, rfl, .nil⟩
    · rintro ⟨headers, hread, rfl, happends⟩
      cases hread
      cases happends
      rfl
  | cons source rest ih =>
    obtain ⟨path, kind⟩ := source
    constructor
    · intro h
      simp only [addFiles] at h
      split at h
      · cases h
      case h_2 text hread =>
      split at h
      · cases h
      case h_2 s₁ happend =>
      cases hrest : s₁.addFiles read rest with
      | error e =>
        rw [hrest] at h
        cases h
      | ok found =>
        rw [hrest] at h
        cases h
        obtain ⟨headers, hreads, htexts, happends⟩ := ih.1 hrest
        refine ⟨(text, kind) :: headers, .cons ⟨hread, rfl⟩ hreads, ?_, .cons happend happends⟩
        rw [List.map_cons, ← htexts]
    · rintro ⟨_, hread, rfl, happends⟩
      cases hread with
      | @cons _ header _ headers hfirst hrest =>
        obtain ⟨text, k⟩ := header
        obtain ⟨hread, rfl⟩ : read path = .ok text ∧ kind = k := hfirst
        cases happends with
        | cons happend happends =>
          simp only [addFiles, hread, happend, ih.2 ⟨headers, hrest, rfl, happends⟩]
          rfl

/-- Texts are generated if and only if each of them can be. -/
theorem generateAll_eq_ok_iff {s : Session} {kinds : List Kind} {texts : List String} :
    s.generateAll kinds = .ok texts ↔
      List.Forall₂ (fun kind text => (s.generate kind).2 = .ok text) kinds texts := by
  induction kinds generalizing s texts with
  | nil => simp [generateAll, eq_comm]
  | cons kind kinds ih =>
    -- The session that generated a text answers as the one before.
    have hlater := s.generate_generate kind
    unfold generateAll
    rcases hgen : s.generate kind with ⟨s₁, e | text⟩
    · simp [List.forall₂_cons_left_iff, hgen]
    · rw [hgen] at hlater
      constructor
      · intro h
        cases hrest : s₁.generateAll kinds with
        | error e => simp [hrest, Except.map] at h
        | ok rest =>
          obtain rfl : text :: rest = texts := by simpa [hrest, Except.map] using h
          have hall := ih.1 hrest
          simp only [hlater] at hall
          exact .cons (by rw [hgen]) hall
      · intro h
        cases h with
        | cons hfirst hall =>
          rw [hgen] at hfirst
          cases hfirst
          simp only [← hlater] at hall
          simp only [ih.2 hall, Except.map]

end Session

/-! ## Texts of all kinds -/

namespace Catalog

/-- The texts of the kinds that have aggregates, one newline between two. -/
def text (c : Catalog) : String :=
  "\n".intercalate (c.kinds.map fun kind => emit kind (c.ofKind kind) {})

theorem mem_kinds {c : Catalog} {kind : Kind} : kind ∈ c.kinds ↔ ∃ a ∈ c.entries, a.kind = kind := by
  simp [kinds, Kind.mem_all]

theorem mem_ofKind {c : Catalog} {kind : Kind} {a : Aggregate} :
    a ∈ c.ofKind kind ↔ a ∈ c.entries ∧ a.kind = kind := by
  simp [ofKind]

end Catalog

/-- The headers can be read and added one after the other, which makes the catalog `c`, and no two
aggregates of a kind claim one register. -/
structure Compiles (read : String → Except FileFault String) (sources : List (String × Kind))
    (c : Catalog) : Prop where
  given : sources ≠ []
  added : ∃ headers s, HeadersRead read sources headers ∧ (Session.new {}).Appends headers s ∧
    s.catalog? = some c
  registers : ∀ kind ∈ c.kinds, checkRegisters kind (c.ofKind kind) = .ok ()

theorem Session.textOf_eq_ok_iff {options : EmitOptions} {c : Catalog} {kind : Kind} {text : String} :
    textOf options c kind = .ok text ↔
      checkRegisters kind (c.ofKind kind) = .ok () ∧ emit kind (c.ofKind kind) options = text := by
  constructor
  · intro h
    obtain ⟨hcheck, rfl⟩ := textOf_eq_ok h
    exact ⟨hcheck, rfl⟩
  · rintro ⟨hcheck, rfl⟩
    simp only [textOf, hcheck]

/-- The texts of all kinds are generated if and only if the registers of every kind pass. -/
theorem Session.generateAll_kinds {s : Session} {c : Catalog} (hs : s.Coherent {})
    (hc : s.catalog? = some c) {texts : List String} : s.generateAll s.kinds = .ok texts ↔
      (∀ kind ∈ c.kinds, checkRegisters kind (c.ofKind kind) = .ok ()) ∧
        c.kinds.map (fun kind => emit kind (c.ofKind kind) {}) = texts := by
  have hkinds : s.kinds = c.kinds := by simp [kinds, hc]
  have hanswer (kind : Kind) (text : String) : (s.generate kind).2 = .ok text ↔
      checkRegisters kind (c.ofKind kind) = .ok () ∧ emit kind (c.ofKind kind) {} = text := by
    rw [hs.generate_eq_fresh, fresh_of_catalog hc, hs.options_eq, textOf_eq_ok_iff]
  rw [hkinds, generateAll_eq_ok_iff]
  simp only [hanswer]
  rw [List.forall₂_and_left, ← List.forall₂_map_left_iff, List.forall₂_eq_eq_eq]

theorem HeadersRead.ne_nil {read : String → Except FileFault String}
    {sources headers : List (String × Kind)} (h : HeadersRead read sources headers)
    (hne : sources ≠ []) : headers ≠ [] := by
  rintro rfl
  cases h
  exact hne rfl

/-- There is a text if and only if all headers compile, and it is that of their catalog. -/
theorem Invocation.text_eq_ok_iff {i : Invocation} {read : String → Except FileFault String}
    {text : String} : i.text read = .ok text ↔ ∃ c, Compiles read i.sources c ∧ c.text = text := by
  have hcoherent {headers : List (String × Kind)} {s : Session}
      (h : (Session.new {}).Appends headers s) : s.Coherent {} := h.coherent (Session.coherent_new {})
  have hload (hne : i.sources ≠ []) : i.load read = (Session.new {}).addFiles read i.sources := by
    rw [load, if_neg (by simpa using hne)]
  constructor
  · intro h
    have hne : i.sources ≠ [] := by
      intro hnil
      simp [Invocation.text, load, hnil] at h
    unfold Invocation.text at h
    split at h
    · cases h
    case h_2 s texts hfiles =>
    rw [hload hne] at hfiles
    obtain ⟨headers, hread, -, happends⟩ := Session.addFiles_eq_ok_iff.1 hfiles
    have hc := happends.catalog_eq (hread.ne_nil hne)
    cases hall : s.generateAll s.kinds with
    | error e =>
      rw [hall] at h
      cases h
    | ok texts =>
      rw [hall] at h
      cases h
      obtain ⟨hregisters, rfl⟩ := (Session.generateAll_kinds (hcoherent happends) hc).1 hall
      exact ⟨_, ⟨hne, ⟨headers, s, hread, happends, hc⟩, hregisters⟩, rfl⟩
  · rintro ⟨c, ⟨hne, ⟨headers, s, hread, happends, hc⟩, hregisters⟩, rfl⟩
    have hfiles := Session.addFiles_eq_ok_iff.2 ⟨headers, hread, rfl, happends⟩
    have hall := (Session.generateAll_kinds (hcoherent happends) hc).2 ⟨hregisters, rfl⟩
    simp only [Invocation.text, hload hne, hfiles, hall]
    rfl

/-! ## Every aggregate once -/

theorem Text.unlines_append (ls ls' : List String) :
    unlines (ls ++ ls') = unlines ls ++ unlines ls' := by
  refine String.toList_inj.1 ?_
  simp

namespace Emission

/-- Texts with a newline between two are blocks with an empty line between two. -/
theorem unlines_joinBlocks : ∀ bs : List (List String),
    Text.unlines (joinBlocks bs) = "\n".intercalate (bs.map Text.unlines)
  | [] => rfl
  | [b] => String.intercalate_singleton.symm
  | b :: b' :: bs => by
    have hempty : Text.unlines [""] = "\n" := rfl
    have hrest := unlines_joinBlocks (b' :: bs)
    rw [List.map_cons] at hrest
    rw [joinBlocks_cons_cons, Text.unlines_append, Text.unlines_append, hempty, hrest, List.map_cons,
      List.map_cons, String.intercalate_cons_cons]

/-- Whether a line opens an aggregate, if fields are indented. -/
def isTitle (line : String) : Bool := line.toList.head?.any Char.isAlpha

theorem head?_titleLine (kind : Kind) (a : Aggregate) :
    (titleLine kind a).toList.head? = some (if kind = .constantBuffer then 'c' else 's') := by
  by_cases hkind : kind = .constantBuffer
  · rw [if_pos hkind, hkind, toList_titleLine_constantBuffer]
    rfl
  · rw [if_neg hkind, titleLine_of_ne hkind, toList_titleLine]
    rfl

theorem isTitle_titleLine (kind : Kind) (a : Aggregate) : isTitle (titleLine kind a) = true := by
  rw [isTitle, head?_titleLine]
  split <;> rfl

theorem filter_block_isTitle (kind : Kind) (indent : Nat) (a : Aggregate) :
    (block kind (indent + 1) a).filter isTitle = [titleLine kind a] := by
  have hmembers : (a.members.map (memberLine kind (indent + 1))).filter isTitle = [] := by
    refine List.filter_eq_nil_iff.2 fun l hl => ?_
    obtain ⟨m, -, rfl⟩ := List.mem_map.1 hl
    rw [isTitle, toList_memberLine_fieldEnd]
    simp [List.replicate_succ]
  have hstride : (strideLines kind a).filter isTitle = [] := by
    by_cases hkind : kind = .structuredBuffer
    · refine List.filter_eq_nil_iff.2 fun l hl => ?_
      rw [hkind, strideLines_eq] at hl
      obtain ⟨slot, -, rfl⟩ := List.mem_map.1 hl
      rw [isTitle, toList_strideLine]
      simp
    · rw [strideLines_of_ne hkind]
      rfl
  have hopen : isTitle openLine = false := by decide
  have hclose : isTitle closeLine = false := by decide
  rw [block_cons]
  simp [isTitle_titleLine, hmembers, hstride, hopen, hclose]

theorem filter_joinBlocks_flatMap {p : String → Bool} (hempty : p "" = false) :
    ∀ bs : List (List String), (joinBlocks bs).filter p = bs.flatMap (List.filter p)
  | [] => rfl
  | [b] => by simp [joinBlocks]
  | b :: b' :: bs => by
    rw [joinBlocks_cons_cons, List.filter_append, List.filter_append,
      filter_joinBlocks_flatMap hempty (b' :: bs)]
    simp [hempty]

/-- Titles tell names apart, also those of different kinds. -/
theorem name_eq_of_titleLine {k k' : Kind} {a b : Aggregate} (ha : IsIdentifier a.name)
    (hb : IsIdentifier b.name) (h : titleLine k a = titleLine k' b) : a.name = b.name := by
  have hhead := congrArg (fun line => line.toList.head?) h
  simp only [head?_titleLine] at hhead
  by_cases hk : k = .constantBuffer
  · by_cases hk' : k' = .constantBuffer
    · rw [hk, hk'] at h
      exact (titleLine_inj ha hb h).1
    · simp [hk, hk'] at hhead
  · by_cases hk' : k' = .constantBuffer
    · simp [hk, hk'] at hhead
    · rw [titleLine_of_ne hk, titleLine_of_ne hk'] at h
      exact (titleLine_inj ha hb h).1

end Emission

namespace Catalog

/-- The lines of the text of a kind. -/
def linesOf (c : Catalog) (kind : Kind) : List String :=
  Emission.headerLine :: Emission.joinBlocks ((c.ofKind kind).map (Emission.block kind 4))

/-- The text holds the whole catalog: the texts of its kinds, in which each aggregate stands once, under
its own kind and behind those of this kind that come before it in the catalog. -/
structure WrittenIn (c : Catalog) (text : String) : Prop where
  text_eq : text = "\n".intercalate (c.kinds.map fun kind => emit kind (c.ofKind kind) {})
  kinds_order : c.kinds.Sublist [.vertexInput, .constantBuffer, .structuredBuffer]
  mem_kinds : ∀ kind, kind ∈ c.kinds ↔ ∃ a ∈ c.entries, a.kind = kind
  lines : Text.lines text = Emission.joinBlocks (c.kinds.map c.linesOf)
  ofKind_order : ∀ kind, (c.ofKind kind).Sublist c.entries
  partition : (c.kinds.flatMap c.ofKind).Perm c.entries
  once : ∀ a ∈ c.entries, (Text.lines text).count (Emission.titleLine a.kind a) = 1

section
variable {c : Catalog}

theorem text_eq_unlines (c : Catalog) :
    c.text = Text.unlines (Emission.joinBlocks (c.kinds.map c.linesOf)) := by
  have hemit : ∀ kind ∈ c.kinds, emit kind (c.ofKind kind) {} = Text.unlines (c.linesOf kind) :=
    fun kind _ => emit_of_kind {} fun a ha => (mem_ofKind.1 ha).2
  rw [Emission.unlines_joinBlocks, text, List.map_map, List.map_congr_left hemit]
  rfl

theorem lines_text (hwritable : ∀ a ∈ c.entries, a.Writable) :
    Text.lines c.text = Emission.joinBlocks (c.kinds.map c.linesOf) := by
  rw [text_eq_unlines, Text.lines_unlines]
  intro l hl
  rcases Emission.mem_joinBlocks hl with rfl | ⟨part, hpart, hl⟩
  · exact ⟨by decide, by decide⟩
  · obtain ⟨kind, -, rfl⟩ := List.mem_map.1 hpart
    refine Emission.oneLine_joinBlocks {} ?_ l hl
    intro block hblock
    obtain ⟨a, ha, rfl⟩ := List.mem_map.1 hblock
    have hwrite := hwritable a (mem_ofKind.1 ha).1
    exact Emission.oneLine_block_of_kind kind 4 hwrite.nameable hwrite.sayable

/-- The kinds divide the catalog. -/
theorem perm_flatMap_ofKind (hnodup : c.entries.Nodup) : (c.kinds.flatMap c.ofKind).Perm c.entries := by
  have hkinds : c.kinds.Nodup := List.Nodup.filter _ (by decide)
  have hparts : (c.kinds.flatMap c.ofKind).Nodup := by
    refine List.nodup_flatMap.2 ⟨fun kind _ => hnodup.filter _, hkinds.imp ?_⟩
    intro k k' hne a ha ha'
    exact hne ((mem_ofKind.1 ha).2.symm.trans (mem_ofKind.1 ha').2)
  refine (List.perm_ext_iff_of_nodup hparts hnodup).2 fun a => ?_
  rw [List.mem_flatMap]
  constructor
  · rintro ⟨kind, -, ha⟩
    exact (mem_ofKind.1 ha).1
  · intro ha
    exact ⟨a.kind, Catalog.mem_kinds.2 ⟨a, ha, rfl⟩, mem_ofKind.2 ⟨ha, rfl⟩⟩

/-- The titles in the text are those of the aggregates, kind by kind. -/
theorem filter_isTitle_lines (hwritable : ∀ a ∈ c.entries, a.Writable) :
    (Text.lines c.text).filter Emission.isTitle =
      (c.kinds.flatMap c.ofKind).map fun a => Emission.titleLine a.kind a := by
  have hempty : Emission.isTitle "" = false := by decide
  have hheader : Emission.isTitle Emission.headerLine = false := by decide
  rw [lines_text hwritable, Emission.filter_joinBlocks_flatMap hempty, List.flatMap_map,
    List.map_flatMap]
  refine List.flatMap_congr fun kind _ => ?_
  rw [linesOf, List.filter_cons_of_neg (by simp [hheader]),
    Emission.filter_joinBlocks_flatMap hempty, List.flatMap_map, List.map_eq_flatMap]
  refine List.flatMap_congr fun a ha => ?_
  rw [Emission.filter_block_isTitle kind 3 a, (mem_ofKind.1 ha).2]

theorem count_titleLine (hwritable : ∀ a ∈ c.entries, a.Writable)
    (hnames : (c.entries.map Aggregate.name).Nodup) {a : Aggregate} (ha : a ∈ c.entries) :
    (Text.lines c.text).count (Emission.titleLine a.kind a) = 1 := by
  have htitles : (c.entries.map fun b => Emission.titleLine b.kind b).Nodup := by
    refine hnames.of_map.map_on ?_
    intro x hx y hy hxy
    have hxname := (hwritable x hx).nameable.name
    have hyname := (hwritable y hy).nameable.name
    exact List.inj_on_of_nodup_map hnames hx hy (Emission.name_eq_of_titleLine hxname hyname hxy)
  rw [← List.count_filter (Emission.isTitle_titleLine a.kind a), filter_isTitle_lines hwritable,
    ((perm_flatMap_ofKind hnames.of_map).map _).count_eq]
  exact List.count_eq_one_of_mem htitles (List.mem_map_of_mem ha)

theorem writtenIn_text (hwritable : ∀ a ∈ c.entries, a.Writable)
    (hnames : (c.entries.map Aggregate.name).Nodup) : c.WrittenIn c.text where
  text_eq := rfl
  kinds_order := List.filter_sublist
  mem_kinds _ := Catalog.mem_kinds
  lines := lines_text hwritable
  ofKind_order _ := List.filter_sublist
  partition := perm_flatMap_ofKind hnames.of_map
  once _ ha := count_titleLine hwritable hnames ha

end

end Catalog

theorem Compiles.writtenIn {read : String → Except FileFault String} {sources : List (String × Kind)}
    {c : Catalog} (h : Compiles read sources c) : c.WrittenIn c.text := by
  obtain ⟨headers, s, hread, happends, hc⟩ := h.added
  obtain rfl : Catalog.ofHeaders headers = c :=
    Option.some.inj ((happends.catalog_eq (hread.ne_nil h.given)).symm.trans hc)
  have hkept := Catalog.kept_ofHeaders headers
  exact Catalog.writtenIn_text (Catalog.writable_ofHeaders headers) hkept.nodup

/-! ## Reports -/

namespace Invocation

/-- A run prints the text, or writes it, or fails and leaves no trace but a message. -/
theorem run_cases (i : Invocation) (t : FileTree) :
    (∃ text, i.text t.read = .ok text ∧ i.out? = none ∧ i.run t = ⟨0, text, "", t⟩) ∨
    (∃ text path t', i.text t.read = .ok text ∧ i.out? = some path ∧ t.write path text = .ok t' ∧
      i.run t = ⟨0, "", "", t'⟩) ∨
    (∃ e, i.run t = .ofFailure t e) ∧ ∀ text, i.text t.read = .ok text →
      ∃ path fault, i.out? = some path ∧ t.write path text = .error fault := by
  unfold run action
  cases htext : i.text t.read with
  | error e => exact .inr (.inr ⟨⟨e, rfl⟩, by simp⟩)
  | ok text =>
    cases hout : i.out? with
    | none => exact .inl ⟨text, rfl, rfl, rfl⟩
    | some path =>
      cases hwrite : t.write path text with
      | ok t' => exact .inr (.inl ⟨text, path, t', rfl, rfl, hwrite, by simp [Except.map, hwrite]⟩)
      | error fault =>
        refine .inr (.inr ⟨⟨.notWritten path fault, by simp [Except.map, hwrite]⟩, ?_⟩)
        intro text' htext'
        cases htext'
        exact ⟨path, fault, rfl, hwrite⟩

/-- **A command line does all or nothing, and its text loses nothing.** The headers are those that the
parts of the arguments name, group by group and each group in order. The run succeeds if and only if
they compile and the file to write, if there is one, can be written. A failure prints nothing and leaves
the files as they are. The text of a success holds the whole catalog; it is printed, or it is what the
file holds from then on. -/
theorem code_eq_zero_iff {args : List String} {i : Invocation} (hargs : ofArguments args = .ok i)
    (hbrowse : i.browse = false) (t : FileTree) :
    (∃ parts, Parts none args parts ∧ .flag .browse ∉ parts ∧ i.sources = sourcesOf parts ∧
      i.out? = outOf parts) ∧
    ((i.run t).code = 0 ↔ ∃ c, Compiles t.read i.sources c ∧
      ∀ path ∈ i.out?, ∃ t', t.write path c.text = .ok t') ∧
    ((i.run t).code ≠ 0 → (i.run t).code = 1 ∧ (i.run t).stdout = "" ∧ (i.run t).files = t) ∧
    ((i.run t).code = 0 → ∃ c text, Compiles t.read i.sources c ∧ c.WrittenIn text ∧
      (i.out? = none ∧ (i.run t).stdout = text ∧ (i.run t).files = t ∨
      ∃ path, i.out? = some path ∧ (i.run t).stdout = "" ∧
        t.write path text = .ok (i.run t).files ∧ (i.run t).files.read path = .ok text)) := by
  obtain ⟨parts, hparts, hsources, hout, hflag⟩ := parts_of_ofArguments hargs
  have hnot : .flag .browse ∉ parts := fun hmem => by simp [hflag.2 hmem] at hbrowse
  refine ⟨⟨parts, hparts, hnot, hsources, hout⟩, ?_⟩
  rcases i.run_cases t with ⟨text, htext, hnone, hrun⟩ | ⟨text, path, t', htext, hpath, hwrite, hrun⟩ |
    ⟨⟨e, hrun⟩, hfails⟩
  · obtain ⟨c, hcompiles, rfl⟩ := text_eq_ok_iff.1 htext
    rw [hrun]
    exact ⟨⟨fun _ => ⟨c, hcompiles, by simp [hnone]⟩, fun _ => rfl⟩, fun hcode => absurd rfl hcode,
      fun _ => ⟨c, _, hcompiles, hcompiles.writtenIn, .inl ⟨hnone, rfl, rfl⟩⟩⟩
  · obtain ⟨c, hcompiles, rfl⟩ := text_eq_ok_iff.1 htext
    rw [hrun]
    refine ⟨⟨fun _ => ⟨c, hcompiles, ?_⟩, fun _ => rfl⟩, fun hcode => absurd rfl hcode,
      fun _ => ⟨c, _, hcompiles, hcompiles.writtenIn,
        .inr ⟨path, hpath, rfl, hwrite, FileTree.read_of_write hwrite⟩⟩⟩
    intro path' hpath'
    obtain rfl : path = path' := Option.some.inj (hpath.symm.trans hpath')
    exact ⟨t', hwrite⟩
  · rw [hrun]
    refine ⟨⟨fun hcode => absurd hcode Nat.one_ne_zero, ?_⟩, fun _ => ⟨rfl, rfl, rfl⟩,
      fun hcode => absurd hcode Nat.one_ne_zero⟩
    rintro ⟨c, hcompiles, hwrites⟩
    obtain ⟨path, fault, hpath, hfault⟩ := hfails c.text (text_eq_ok_iff.2 ⟨c, hcompiles, rfl⟩)
    obtain ⟨t', hwrite⟩ := hwrites path hpath
    rw [hfault] at hwrite
    cases hwrite

/-- Of two runs one writes its file, with the headers of options behind the others, and one fails on
the registers of its last kind, so that nothing is printed of the first. -/
theorem code_eq_zero_iff_conflict :
    let t := FileTree.ofFiles [("a.h", some "struct V { float3 p; };"),
      ("b.h", some "struct S REGISTER(1) { int x; };"),
      ("c.h", some "struct S REGISTER(1) { int x; }; struct T REGISTER(1) { int y; };")]
    let i : Invocation := { inputs := ["a.h"], structured := ["b.h"], out? := some "o.h" }
    let j : Invocation := { inputs := ["a.h"], structured := ["c.h"] }
    ofArguments ["--structured=b.h", "--out", "o.h", "a.h"] = .ok i ∧ (i.run t).code = 0 ∧
    (∃ c text, Compiles t.read [("a.h", .vertexInput), ("b.h", .structuredBuffer)] c ∧
      c.WrittenIn text ∧ (i.run t).files.read "o.h" = .ok text) ∧
    ofArguments ["--structured", "c.h", "--", "a.h"] = .ok j ∧
    (j.run t).code = 1 ∧ (j.run t).stdout = "" ∧ (j.run t).files = t := by
  intro t i j
  obtain ⟨hi, hj, hsuccess, hfailure⟩ :
      ofArguments ["--structured=b.h", "--out", "o.h", "a.h"] = .ok i ∧
      ofArguments ["--structured", "c.h", "--", "a.h"] = .ok j ∧
      (i.run t).code = 0 ∧ (j.run t).code ≠ 0 := by
    decide +kernel
  refine ⟨hi, hsuccess, ?_, hj, ?_⟩
  · obtain ⟨-, -, -, hall⟩ := code_eq_zero_iff hi rfl t
    obtain ⟨c, text, hcompiles, hwritten, ⟨hnone, -⟩ | ⟨path, hpath, -, -, hread⟩⟩ := hall hsuccess
    · cases hnone
    · cases hpath
      exact ⟨c, text, hcompiles, hwritten, hread⟩
  · obtain ⟨-, -, hnothing, -⟩ := code_eq_zero_iff hj rfl t
    exact hnothing hfailure

end Invocation

end ShaderInterface
