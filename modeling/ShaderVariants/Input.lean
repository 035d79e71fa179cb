import ShaderVariants.DataType

/-!
# Inputs of a program

What a program declares that its shaders read: members of the uniform block, specialization
constants, textures and samplers.
-/

namespace ShaderVariants

/-- How an input reaches the shader. -/
inductive InputClass where
  | uniform
  | constant
  | texture
  | sampler
  deriving Repr, DecidableEq

namespace InputClass

def key : InputClass → Text
  | .uniform => "uniform_block".toList
  | .constant => "constant".toList
  | .texture => "texture".toList
  | .sampler => "sampler".toList

def word : InputClass → Text
  | .uniform => "uniform".toList
  | .constant => "const".toList
  | .texture => "texture".toList
  | .sampler => "sampler".toList

end InputClass

/-- A declared input. -/
structure Input where
  name : Text
  /-- Place among the declared inputs. -/
  index : Nat
  type : DataType
  /-- Whether the input has one element for each instance. -/
  instanced : Bool
  /-- First constant id, for a specialization constant. -/
  constantId : Option Nat
  /-- Descriptor binding, for a texture or sampler. -/
  binding : Option Nat
  deriving Repr, DecidableEq

namespace Input

def isConstant (input : Input) : Bool :=
  input.constantId.isSome

/-- Whether the input is a member of the uniform block: neither a constant nor a resource. -/
def inBlock (input : Input) : Bool :=
  !input.isConstant && !input.type.isResource

def inputClass (input : Input) : InputClass :=
  if input.isConstant then .constant
  else if input.type.isTexture then .texture
  else if input.type.isSampler then .sampler
  else .uniform

theorem inputClass_eq_uniform_iff (input : Input) :
    input.inputClass = .uniform ↔ input.inBlock = true := by
  simp only [inputClass, inBlock, DataType.isResource]
  cases input.isConstant <;> cases input.type.isTexture <;> cases input.type.isSampler <;> simp

end Input

end ShaderVariants
