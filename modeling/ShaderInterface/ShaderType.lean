/-!
# Shader types

A field of a shader declaration is a vector of one to four components, all of one scalar type and
four bytes wide, or a matrix of four rows of four floats. Header types are other spellings of these.
-/
namespace ShaderInterface

inductive Scalar where
  | int
  | uint
  | float
deriving DecidableEq, Repr

namespace Scalar

def text : Scalar → String
  | .int => "int"
  | .uint => "uint"
  | .float => "float"

/-- How a vertex format names the scalar. -/
def formatSuffix : Scalar → String
  | .int => "_SINT"
  | .uint => "_UINT"
  | .float => "_FLOAT"

end Scalar

/-- Number of components of a vector. -/
inductive Width where
  | one
  | two
  | three
  | four
deriving DecidableEq, Repr

namespace Width

def count : Width → Nat
  | .one => 1
  | .two => 2
  | .three => 3
  | .four => 4

/-- What follows the scalar in the name of a vector type. -/
def suffix : Width → String
  | .one => ""
  | .two => "2"
  | .three => "3"
  | .four => "4"

/-- The channels of a vertex format. -/
def channels : Width → String
  | .one => "R32"
  | .two => "R32G32"
  | .three => "R32G32B32"
  | .four => "R32G32B32A32"

end Width

inductive ShaderType where
  | vector (scalar : Scalar) (width : Width)
  /-- Four rows of four floats. -/
  | matrix
deriving DecidableEq, Repr

namespace ShaderType

/-- How the shader language spells the type. -/
def text : ShaderType → String
  | .vector scalar width => scalar.text ++ width.suffix
  | .matrix => "float4x4"

/-- Size in bytes. -/
def size : ShaderType → Nat
  | .vector _ width => 4 * width.count
  | .matrix => 64

/-- Alignment outside constant buffers: the greatest power of two that divides the size, up to
sixteen. -/
def align : ShaderType → Nat
  | .vector _ .one => 4
  | .vector _ .two => 8
  | .vector _ .three => 4
  | .vector _ .four => 16
  | .matrix => 16

/-- Number of vertex input elements a field takes. -/
def rows : ShaderType → Nat
  | .vector _ _ => 1
  | .matrix => 4

/-- The vertex format of one row. -/
def format : ShaderType → String
  | .vector scalar width => width.channels ++ scalar.formatSuffix
  | .matrix => Width.four.channels ++ Scalar.float.formatSuffix

/-- Every spelling a header can use. -/
def spellings : List (String × ShaderType) :=
  [("int", .vector .int .one), ("int32_t", .vector .int .one), ("INT", .vector .int .one),
   ("uint", .vector .uint .one), ("unsigned", .vector .uint .one),
   ("uint32_t", .vector .uint .one), ("UINT", .vector .uint .one), ("DWORD", .vector .uint .one),
   ("float", .vector .float .one), ("FLOAT", .vector .float .one),
   ("float2", .vector .float .two), ("XMFLOAT2", .vector .float .two),
   ("float3", .vector .float .three), ("XMFLOAT3", .vector .float .three),
   ("float4", .vector .float .four), ("XMFLOAT4", .vector .float .four),
   ("XMFLOAT4A", .vector .float .four), ("XMVECTOR", .vector .float .four),
   ("vector", .vector .float .four),
   ("int2", .vector .int .two), ("XMINT2", .vector .int .two),
   ("int3", .vector .int .three), ("XMINT3", .vector .int .three),
   ("int4", .vector .int .four), ("XMINT4", .vector .int .four),
   ("uint2", .vector .uint .two), ("XMUINT2", .vector .uint .two),
   ("uint3", .vector .uint .three), ("XMUINT3", .vector .uint .three),
   ("uint4", .vector .uint .four), ("XMUINT4", .vector .uint .four),
   ("float4x4", .matrix), ("XMFLOAT4X4", .matrix), ("XMFLOAT4X4A", .matrix),
   ("XMMATRIX", .matrix), ("matrix", .matrix)]

/-- The type with this spelling. -/
def ofSpelling? (name : String) : Option ShaderType :=
  (spellings.find? fun entry => entry.1 == name).map Prod.snd

/-- What stands behind the last `::` of a text that has one. -/
def afterColons? : List Char → Option (List Char)
  | [] => none
  | c :: cs =>
    match afterColons? cs with
    | some base => some base
    | none => if [':', ':'].isPrefixOf (c :: cs) then some (cs.drop 1) else none

/-- The type of a name that may be qualified: by the whole name, else by what stands behind its last
`::`. -/
def ofName? (name : String) : Option ShaderType :=
  match ofSpelling? name with
  | some type => some type
  | none => (afterColons? name.toList).bind fun base => ofSpelling? (String.ofList base)

end ShaderType

end ShaderInterface
