import ShaderVariants.Json.Overlay
import ShaderVariants.Layout

/-!
# Settings

What shapes the generated sources besides the program: the backend version, the vendor of the GPU,
the packing of the uniform block and where it lives.  Settings are read from fields of any format
(`ofFields?`), and read from and written to JSON objects; `merge?` lays one set of settings over
another as such objects.  Main fact: written settings are read back (`ofJson?_toJson`).
-/

namespace ShaderVariants

/-! ## 1. The choices -/

/-- The vendor of the GPU. -/
inductive Vendor where
  | unknown
  | arm
  | nvidia
  | amd
  | intel
  | qualcomm
  deriving Repr, DecidableEq

namespace Vendor

def all : List Vendor :=
  [.unknown, .arm, .nvidia, .amd, .intel, .qualcomm]

def key : Vendor → Text
  | .unknown => "unknown".toList
  | .arm => "arm".toList
  | .nvidia => "nvidia".toList
  | .amd => "amd".toList
  | .intel => "intel".toList
  | .qualcomm => "qualcomm".toList

/-- The name that every source defines as `1` for its vendor. -/
def define : Vendor → Text
  | .unknown => "ANKI_VENDOR_UNKNOWN".toList
  | .arm => "ANKI_VENDOR_ARM".toList
  | .nvidia => "ANKI_VENDOR_NVIDIA".toList
  | .amd => "ANKI_VENDOR_AMD".toList
  | .intel => "ANKI_VENDOR_INTEL".toList
  | .qualcomm => "ANKI_VENDOR_QUALCOMM".toList

def ofKey? (key : Text) : Option Vendor :=
  all.find? fun vendor => vendor.key == key

@[simp] theorem ofKey?_key (vendor : Vendor) : ofKey? vendor.key = some vendor := by
  cases vendor <;> decide

end Vendor

/-- Where the uniform block lives. -/
inductive Storage where
  /-- In push constants if the block fits the budget, else in a uniform buffer. -/
  | auto
  /-- In push constants; a block that does not fit is an error. -/
  | pushConstants
  /-- In a uniform buffer. -/
  | uniformBuffer
  deriving Repr, DecidableEq

namespace Storage

def all : List Storage :=
  [.auto, .pushConstants, .uniformBuffer]

def key : Storage → Text
  | .auto => "auto".toList
  | .pushConstants => "push_constants".toList
  | .uniformBuffer => "uniform_buffer".toList

def ofKey? (key : Text) : Option Storage :=
  all.find? fun storage => storage.key == key

@[simp] theorem ofKey?_key (storage : Storage) : ofKey? storage.key = some storage := by
  cases storage <;> decide

end Storage

def Packing.ofKey? (key : Text) : Option Packing :=
  [Packing.std140, Packing.std430].find? fun rule => rule.qualifier == key

@[simp] theorem Packing.ofKey?_qualifier (rule : Packing) :
    Packing.ofKey? rule.qualifier = some rule := by
  cases rule <;> decide

/-! ## 2. Settings -/

/-- Settings of a program. -/
structure Settings where
  /-- Bytes of push constants that the uniform block may take. -/
  pushConstantsSize : Nat
  backendMajor : Nat
  backendMinor : Nat
  vendor : Vendor
  packing : Packing
  storage : Storage
  deriving Repr, DecidableEq

namespace Settings

def default : Settings :=
  ⟨128, 1, 1, .amd, .std140, .auto⟩

/-- The numbers of a setting lie below this bound. -/
def numberBound : Nat := 4294967296

/-- Settings whose numbers can be written down. -/
def InRange (settings : Settings) : Prop :=
  settings.pushConstantsSize < numberBound ∧ settings.backendMajor < numberBound ∧
    settings.backendMinor < numberBound

theorem default_inRange : default.InRange := by
  simp [InRange, default, numberBound]

/-! ## 3. Settings as JSON -/

def toJson (settings : Settings) : Json :=
  .obj
    [("push_constants_size".toList, .num settings.pushConstantsSize),
     ("backend_major".toList, .num settings.backendMajor),
     ("backend_minor".toList, .num settings.backendMinor),
     ("gpu_vendor".toList, .str settings.vendor.key),
     ("packing".toList, .str settings.packing.qualifier),
     ("uniform_storage".toList, .str settings.storage.key)]

def ofInt? (value : Int) : Option Nat :=
  if 0 ≤ value ∧ value < numberBound then some value.toNat else none

/-- What `read` makes of the field of a setting, or its default if there is no such field. -/
def fieldOr {α β : Type} (key : String) (standard : β) (read : α → Option β)
    (fields : List (Text × α)) : Option β :=
  match fields.lookup key.toList with
  | some value => read value
  | none => some standard

/-- Reads settings from fields, given how a field says a number and how it chooses by name; fields
that no setting has are ignored. -/
def ofFields? {α : Type} (number? : α → Option Nat) (choice? : α → Option Text)
    (fields : List (Text × α)) : Option Settings := do
  let pushConstantsSize ← fieldOr "push_constants_size" default.pushConstantsSize number? fields
  let backendMajor ← fieldOr "backend_major" default.backendMajor number? fields
  let backendMinor ← fieldOr "backend_minor" default.backendMinor number? fields
  let vendor ←
    fieldOr "gpu_vendor" default.vendor (fun value => (choice? value).bind Vendor.ofKey?) fields
  let packing ←
    fieldOr "packing" default.packing (fun value => (choice? value).bind Packing.ofKey?) fields
  let storage ←
    fieldOr "uniform_storage" default.storage (fun value => (choice? value).bind Storage.ofKey?)
      fields
  return ⟨pushConstantsSize, backendMajor, backendMinor, vendor, packing, storage⟩

def number? : Json → Option Nat
  | .num value => ofInt? value
  | _ => none

/-- The name that chooses a setting in JSON; an object whose only field is null names its key. -/
def choice? : Json → Option Text
  | .str name => some name
  | .obj [(name, .null)] => some name
  | _ => none

/-- Reads settings from an object; fields that no setting has are ignored. -/
def ofJson? (json : Json) : Option Settings :=
  match json with
  | .obj fields => ofFields? number? choice? fields
  | _ => none

@[simp] theorem number?_natCast {n : Nat} (h : n < numberBound) :
    number? (.num n) = some n := by
  simp only [number?, ofInt?, Int.natCast_nonneg, true_and]
  rw [if_pos (by exact_mod_cast h)]
  simp

/-- Written settings are read back. -/
theorem ofJson?_toJson {settings : Settings} (h : settings.InRange) :
    ofJson? settings.toJson = some settings := by
  obtain ⟨h1, h2, h3⟩ := h
  simp [toJson, ofJson?, ofFields?, fieldOr, List.lookup_cons, h1, h2, h3, choice?]

/-- Lays settings over others: a setting that differs from its default wins. -/
def merge? (base overrides : Settings) : Option Settings :=
  ofJson? (Json.overlay base.toJson overrides.toJson default.toJson)

end Settings

end ShaderVariants
