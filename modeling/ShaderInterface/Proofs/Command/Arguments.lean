import ShaderInterface.Command.Invocation
import Mathlib.Data.List.Basic

/-!
# What arguments ask for

Arguments that are understood are made of parts (`Invocation.Parts`): headers, options with a value
and flags. The invocation that they ask for holds the headers of each group in the order of these parts
(`Invocation.parts_of_ofArguments`).
-/
namespace ShaderInterface.Invocation

/-- What one argument, or an option and its value, stands for. -/
inductive Part where
  | header (path : String)
  | value (option : ValueOption) (text : String)
  | flag (flag : FlagOption)
deriving DecidableEq, Repr

/-- Arguments are made of these parts, in order; the first one is the value of `pending`, if an option
waits for one. -/
inductive Parts : Option ValueOption → List String → List Part → Prop where
  | nil : Parts none [] []
  | header {arg path : String} {args : List String} {parts : List Part} :
      Argument.ofText arg = .plain path → Parts none args parts →
      Parts none (arg :: args) (.header path :: parts)
  | separator {arg : String} {args : List String} :
      Argument.ofText arg = .separator → Parts none (arg :: args) (args.map .header)
  | letters {arg : String} {n : Nat} {args : List String} {parts : List Part} :
      Argument.ofText arg = .short (List.replicate n 'v') → Parts none args parts →
      Parts none (arg :: args) (List.replicate n (.flag .verbose) ++ parts)
  | flag {arg name : String} {flag : FlagOption} {args : List String} {parts : List Part} :
      Argument.ofText arg = .long name none → flagOption? name = some flag → Parts none args parts →
      Parts none (arg :: args) (.flag flag :: parts)
  | joined {arg name value : String} {option : ValueOption} {args : List String} {parts : List Part} :
      Argument.ofText arg = .long name (some value) → valueOption? name = some option →
      Parts none args parts → Parts none (arg :: args) (.value option value :: parts)
  | option {arg name : String} {option : ValueOption} {args : List String} {parts : List Part} :
      Argument.ofText arg = .long name none → valueOption? name = some option →
      Parts (some option) args parts → Parts none (arg :: args) parts
  | value {arg value : String} {option : ValueOption} {args : List String} {parts : List Part} :
      Argument.ofText arg = .plain value → Parts none args parts →
      Parts (some option) (arg :: args) (.value option value :: parts)

namespace Part

/-- The header, if the part is one without an option. -/
@[simp] def header? : Part → Option String
  | .header path => some path
  | _ => none

/-- The value, if the part gives one to the option. -/
@[simp] def value? (option : ValueOption) : Part → Option String
  | .value o text => if o = option then some text else none
  | _ => none

/-- The kind, if the part gives the one of headers without an option. -/
@[simp] def kind? (part : Part) : Option Kind := (part.value? .kind).bind Kind.ofWord?

end Part

/-- The values that parts give to an option, in order. -/
@[simp] def valuesOf (option : ValueOption) (parts : List Part) : List String :=
  parts.filterMap (Part.value? option)

/-- The headers that parts name, with their kinds: those without an option, then those of each kind,
and each of these groups in the order of the parts. -/
def sourcesOf (parts : List Part) : List (String × Kind) :=
  (parts.filterMap Part.header?).map (·, (parts.findSome? Part.kind?).getD .vertexInput) ++
    (valuesOf .vertex parts).map (·, .vertexInput) ++
    (valuesOf .constant parts).map (·, .constantBuffer) ++
    (valuesOf .structured parts).map (·, .structuredBuffer)

/-- The file to write that parts name. -/
@[simp] def outOf (parts : List Part) : Option String := parts.findSome? (Part.value? .out)

/-- The invocation `j` is `i` with the parts added. -/
structure Gives (i : Invocation) (parts : List Part) (j : Invocation) : Prop where
  inputs : j.inputs = i.inputs ++ parts.filterMap Part.header?
  kind? : j.kind? = i.kind?.or (parts.findSome? Part.kind?)
  vertex : j.vertex = i.vertex ++ valuesOf .vertex parts
  constant : j.constant = i.constant ++ valuesOf .constant parts
  structured : j.structured = i.structured ++ valuesOf .structured parts
  out? : j.out? = i.out?.or (outOf parts)
  browse : j.browse = true ↔ i.browse = true ∨ .flag .browse ∈ parts

theorem Gives.refl (i : Invocation) : Gives i [] i := by
  constructor <;> simp

theorem Gives.trans {i j k : Invocation} {parts parts' : List Part} (h : Gives i parts j)
    (h' : Gives j parts' k) : Gives i (parts ++ parts') k where
  inputs := by simp [h'.inputs, h.inputs]
  kind? := by rw [h'.kind?, h.kind?, List.findSome?_append, Option.or_assoc]
  vertex := by simp [h'.vertex, h.vertex]
  constant := by simp [h'.constant, h.constant]
  structured := by simp [h'.structured, h.structured]
  out? := by rw [h'.out?, h.out?, outOf, outOf, outOf, List.findSome?_append, Option.or_assoc]
  browse := by rw [h'.browse, h.browse, List.mem_append, or_assoc]

/-! ## One part -/

section
variable {i j : Invocation}

theorem gives_set {option : ValueOption} {name value : String}
    (h : i.set option name value = .ok j) : Gives i [.value option value] j := by
  unfold set at h
  split at h
  · cases h
  cases option with
  | kind =>
    dsimp only at h
    split at h
    · cases h
    case isFalse hnone =>
    split at h
    case h_2 => cases h
    case h_1 kind hkind =>
    cases h
    have hfirst : i.kind? = none := by simpa using hnone
    constructor <;> simp [hkind, hfirst]
  | out =>
    dsimp only at h
    split at h
    · cases h
    case isFalse hnone =>
    cases h
    have hfirst : i.out? = none := by simpa using hnone
    constructor <;> simp [hfirst]
  | vertex =>
    cases h
    constructor <;> simp
  | constant =>
    cases h
    constructor <;> simp
  | structured =>
    cases h
    constructor <;> simp

theorem gives_raise {flag : FlagOption} {name : String} (h : i.raise flag name = .ok j) :
    Gives i [.flag flag] j := by
  cases flag with
  | browse =>
    simp only [raise] at h
    split at h
    · cases h
    cases h
    constructor <;> simp
  | verbose =>
    simp only [raise] at h
    split at h
    · cases h
    cases h
    constructor <;> simp

theorem gives_addInput {path : String} (h : i.addInput path = .ok j) : Gives i [.header path] j := by
  unfold addInput at h
  split at h
  · cases h
  cases h
  constructor <;> simp

/-! ## All parts -/

theorem gives_addInputs {paths : List String} (h : i.addInputs paths = .ok j) :
    Gives i (paths.map .header) j := by
  induction paths generalizing i with
  | nil =>
    cases h
    exact .refl _
  | cons path paths ih =>
    rw [addInputs, List.foldlM_cons] at h
    cases hfirst : i.addInput path with
    | error e =>
      rw [hfirst] at h
      cases h
    | ok i' =>
      rw [hfirst] at h
      exact (gives_addInput hfirst).trans (ih h)

/-- Letters that are understood are flags, all the same. -/
theorem gives_raiseLetters {letters : List Char} (h : i.raiseLetters letters = .ok j) :
    ∃ n, letters = List.replicate n 'v' ∧ Gives i (List.replicate n (.flag .verbose)) j := by
  fun_induction raiseLetters i letters with
  | case1 =>
    cases h
    exact ⟨0, rfl, .refl _⟩
  | case2 i letters i' hraise ih =>
    obtain ⟨n, rfl, hrest⟩ := ih h
    exact ⟨n + 1, rfl, (gives_raise hraise).trans hrest⟩
  | case3 => cases h
  | case4 => cases h

/-- Arguments that are read are made of parts, and the invocation gets them all. -/
theorem gives_readFrom {pending : Option (ValueOption × String)} {args : List String}
    (h : i.readFrom pending args = .ok j) :
    ∃ parts, Parts (pending.map Prod.fst) args parts ∧ Gives i parts j := by
  fun_induction readFrom i pending args
  -- Everything that is not understood ends the reading.
  case case1 | case4 | case5 | case7 | case10 | case12 | case14 | case16 | case17 => cases h
  case case2 =>
    cases h
    exact ⟨[], .nil, .refl _⟩
  case case3 i arg args option name value harg i' hset ih =>
    obtain ⟨parts, hparts, hgives⟩ := ih h
    exact ⟨_, .value harg hparts, (gives_set hset).trans hgives⟩
  case case6 i arg args path harg i' hadd ih =>
    obtain ⟨parts, hparts, hgives⟩ := ih h
    exact ⟨_, .header harg hparts, (gives_addInput hadd).trans hgives⟩
  case case8 i arg args harg => exact ⟨_, .separator harg, gives_addInputs h⟩
  case case9 i arg args letters harg i' hraise ih =>
    obtain ⟨parts, hparts, hgives⟩ := ih h
    obtain ⟨n, rfl, hflags⟩ := gives_raiseLetters hraise
    exact ⟨_, .letters harg hparts, hflags.trans hgives⟩
  case case11 i arg args name option value hname i' hset harg ih =>
    obtain ⟨parts, hparts, hgives⟩ := ih h
    exact ⟨_, .joined harg hname hparts, (gives_set hset).trans hgives⟩
  case case13 i arg args name option hname harg ih =>
    obtain ⟨parts, hparts, hgives⟩ := ih h
    exact ⟨parts, .option harg hname hparts, hgives⟩
  case case15 i arg args name flag hname _ i' hraise harg ih =>
    obtain ⟨parts, hparts, hgives⟩ := ih h
    exact ⟨_, .flag harg hname hparts, (gives_raise hraise).trans hgives⟩

end

/-- The invocation that arguments ask for has their headers, group by group, and their file. -/
theorem parts_of_ofArguments {args : List String} {i : Invocation} (h : ofArguments args = .ok i) :
    ∃ parts, Parts none args parts ∧ i.sources = sourcesOf parts ∧ i.out? = outOf parts ∧
      (i.browse = true ↔ .flag .browse ∈ parts) := by
  obtain ⟨parts, hparts, hgives⟩ := gives_readFrom h
  refine ⟨parts, hparts, ?_, by simpa using hgives.out?, by simpa using hgives.browse⟩
  have hkind : i.kind = (parts.findSome? Part.kind?).getD .vertexInput := by
    rw [kind, hgives.kind?]
    rfl
  rw [sources, sourcesOf, hkind, hgives.inputs, hgives.vertex, hgives.constant, hgives.structured]
  rfl

end ShaderInterface.Invocation
