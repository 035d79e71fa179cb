import ShaderVariants.Json.Basic

/-!
# Overlays

Laying overrides over a base value.  An override that equals its default says nothing and leaves
the base as it is; objects are laid over one another field by field.
-/

namespace ShaderVariants.Json

mutual

/-- Lays `overrides` over `base`: two objects are joined field by field, and any other override
replaces the base unless it is the same as its default. -/
def overlay (base overrides default : Json) : Json :=
  match overrides with
  | .obj overrideFields =>
    match base with
    | .obj fields => .obj (overlayFields fields overrideFields default)
    | base => if same (.obj overrideFields) default then base else .obj overrideFields
  | overrides => if same overrides default then base else overrides
termination_by structural overrides

/-- Lays the given fields over those of an object, one after the other. -/
def overlayFields (fields overrides : List (Text × Json)) (default : Json) :
    List (Text × Json) :=
  match overrides with
  | [] => fields
  | field :: more => overlayFields (overlayField fields field default) more default
termination_by structural overrides

/-- Lays one field over those of an object.  A field that the object lacks starts as null, and so
does the default of a field that has none. -/
def overlayField (fields : List (Text × Json)) (override : Text × Json) (default : Json) :
    List (Text × Json) :=
  match override with
  | (key, value) =>
    setField key
      (overlay ((fields.lookup key).getD .null) value ((default.field? key).getD .null)) fields
termination_by structural override

end

end ShaderVariants.Json
