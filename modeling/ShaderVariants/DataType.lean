import ShaderVariants.Text.Basic

/-!
# Data types of inputs

The types an input may have: scalars, vectors and matrices, textures and the sampler.  A numeric
type has two spellings, the name in a shading language and an alias that every generated source
defines.  Main facts: both spellings of a type are read back as that type.
-/

namespace ShaderVariants

/-- The scalar that a numeric type is made of. -/
inductive Scalar where
  | int
  | uint
  | float
  deriving Repr, DecidableEq

namespace Scalar

def spelling : Scalar → Text
  | .int => "int".toList
  | .uint => "uint".toList
  | .float => "float".toList

def zero : Scalar → Text
  | .int => "0".toList
  | .uint => "0u".toList
  | .float => "0.0".toList

def title : Scalar → Text
  | .int => "Int".toList
  | .uint => "Uint".toList
  | .float => "Float".toList

end Scalar

/-- The type of an input.  No declaration can have the type `void`. -/
inductive DataType where
  | void
  | i32
  | ivec2
  | ivec3
  | ivec4
  | u32
  | uvec2
  | uvec3
  | uvec4
  | f32
  | vec2
  | vec3
  | vec4
  | mat3
  | mat4
  | mat3x4
  | mat4x3
  | texture1D
  | texture1DArray
  | texture2D
  | texture2DArray
  | texture3D
  | textureCube
  | textureCubeArray
  | sampler
  deriving Repr, DecidableEq

namespace DataType

/-- Every type; the numeric ones stand together, scalars before their vectors. -/
def all : List DataType :=
  [.void, .i32, .ivec2, .ivec3, .ivec4, .u32, .uvec2, .uvec3, .uvec4, .f32, .vec2, .vec3, .vec4,
   .mat3, .mat4, .mat3x4, .mat4x3, .texture1D, .texture1DArray, .texture2D, .texture2DArray,
   .texture3D, .textureCube, .textureCubeArray, .sampler]

@[simp] theorem mem_all (type : DataType) : type ∈ all := by
  cases type <;> decide

/-! ## 1. What a type is made of -/

def scalar? : DataType → Option Scalar
  | .i32 | .ivec2 | .ivec3 | .ivec4 => some .int
  | .u32 | .uvec2 | .uvec3 | .uvec4 => some .uint
  | .f32 | .vec2 | .vec3 | .vec4 | .mat3 | .mat4 | .mat3x4 | .mat4x3 => some .float
  | _ => none

/-- Columns and rows of a numeric type; a vector is one column. -/
def shape? : DataType → Option (Nat × Nat)
  | .i32 | .u32 | .f32 => some (1, 1)
  | .ivec2 | .uvec2 | .vec2 => some (1, 2)
  | .ivec3 | .uvec3 | .vec3 => some (1, 3)
  | .ivec4 | .uvec4 | .vec4 => some (1, 4)
  | .mat3 => some (3, 3)
  | .mat4 => some (4, 4)
  | .mat3x4 => some (3, 4)
  | .mat4x3 => some (4, 3)
  | _ => none

/-- How many scalars a value holds, `0` for a type that is not numeric. -/
def componentCount (type : DataType) : Nat :=
  match type.shape? with
  | some (columns, rows) => columns * rows
  | none => 0

def isTexture : DataType → Bool
  | .texture1D | .texture1DArray | .texture2D | .texture2DArray | .texture3D | .textureCube
  | .textureCubeArray => true
  | _ => false

def isSampler (type : DataType) : Bool :=
  type == .sampler

def isMatrix : DataType → Bool
  | .mat3 | .mat4 | .mat3x4 | .mat4x3 => true
  | _ => false

/-- Whether values of the type are bound to a descriptor set. -/
def isResource (type : DataType) : Bool :=
  type.isTexture || type.isSampler

/-- The types whose values are numbers, in the order of `all`. -/
def numeric : List DataType :=
  all.filter fun type => type.shape?.isSome

theorem scalar?_isSome_iff_shape?_isSome (type : DataType) :
    type.scalar?.isSome = type.shape?.isSome := by
  cases type <;> rfl

theorem isResource_eq_false_of_shape?_isSome {type : DataType} (h : type.shape?.isSome = true) :
    type.isResource = false := by
  revert h
  cases type <;> decide

/-! ## 2. Names -/

def spelling : DataType → Text
  | .void => "void".toList
  | .i32 => "int".toList
  | .ivec2 => "ivec2".toList
  | .ivec3 => "ivec3".toList
  | .ivec4 => "ivec4".toList
  | .u32 => "uint".toList
  | .uvec2 => "uvec2".toList
  | .uvec3 => "uvec3".toList
  | .uvec4 => "uvec4".toList
  | .f32 => "float".toList
  | .vec2 => "vec2".toList
  | .vec3 => "vec3".toList
  | .vec4 => "vec4".toList
  | .mat3 => "mat3".toList
  | .mat4 => "mat4".toList
  | .mat3x4 => "mat3x4".toList
  | .mat4x3 => "mat4x3".toList
  | .texture1D => "texture1D".toList
  | .texture1DArray => "texture1DArray".toList
  | .texture2D => "texture2D".toList
  | .texture2DArray => "texture2DArray".toList
  | .texture3D => "texture3D".toList
  | .textureCube => "textureCube".toList
  | .textureCubeArray => "textureCubeArray".toList
  | .sampler => "sampler".toList

/-- The alias of a numeric type, and the name of every type in reports. -/
def title : DataType → Text
  | .void => "None".toList
  | .i32 => "I32".toList
  | .ivec2 => "IVec2".toList
  | .ivec3 => "IVec3".toList
  | .ivec4 => "IVec4".toList
  | .u32 => "U32".toList
  | .uvec2 => "UVec2".toList
  | .uvec3 => "UVec3".toList
  | .uvec4 => "UVec4".toList
  | .f32 => "F32".toList
  | .vec2 => "Vec2".toList
  | .vec3 => "Vec3".toList
  | .vec4 => "Vec4".toList
  | .mat3 => "Mat3".toList
  | .mat4 => "Mat4".toList
  | .mat3x4 => "Mat3x4".toList
  | .mat4x3 => "Mat4x3".toList
  | .texture1D => "Texture1D".toList
  | .texture1DArray => "Texture1DArray".toList
  | .texture2D => "Texture2D".toList
  | .texture2DArray => "Texture2DArray".toList
  | .texture3D => "Texture3D".toList
  | .textureCube => "TextureCube".toList
  | .textureCubeArray => "TextureCubeArray".toList
  | .sampler => "Sampler".toList

/-- The type that a declaration may call by the given name: a spelling, or the alias of a numeric
type. -/
def ofName? (name : Text) : Option DataType :=
  all.find? fun type =>
    type != .void && (type.spelling == name || (type.shape?.isSome && type.title == name))

def ofTitle? (title : Text) : Option DataType :=
  all.find? fun type => type.title == title

@[simp] theorem ofName?_spelling {type : DataType} (h : type ≠ .void) :
    ofName? type.spelling = some type := by
  cases type with
  | void => exact absurd rfl h
  | _ => decide

theorem ofName?_title {type : DataType} (h : type.shape?.isSome = true) :
    ofName? type.title = some type := by
  revert h
  cases type <;> decide

@[simp] theorem ofTitle?_title (type : DataType) : ofTitle? type.title = some type := by
  cases type <;> decide

/-- The spelling in capitals, which ends the name of the macro that declares a constant. -/
def constantSuffix (type : DataType) : Text :=
  type.spelling.map Char.toUpper

end DataType

end ShaderVariants
