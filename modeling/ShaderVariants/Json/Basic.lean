import ShaderVariants.Text.Basic

/-!
# JSON values

Values of the data format that settings and manifests are exchanged in.  An object lists its
fields; `same` compares values without regard to the order of fields, and `setField` changes one
field and leaves every other one alone.
-/

namespace ShaderVariants

/-- A JSON value.  Numbers are integers. -/
inductive Json where
  | null
  | bool (value : Bool)
  | num (value : Int)
  | str (value : Text)
  | arr (items : List Json)
  | obj (fields : List (Text × Json))
  deriving Repr, Inhabited

namespace Json

/-! ## 1. Comparing -/

mutual

/-- Whether two values are the same, whatever the order of the fields of their objects. -/
def same : Json → Json → Bool
  | .null, .null => true
  | .bool a, .bool b => a == b
  | .num a, .num b => a == b
  | .str a, .str b => a == b
  | .arr as, .arr bs => sameItems as bs
  | .obj as, .obj bs => as.length == bs.length && sameFields as bs
  | _, _ => false
termination_by structural a => a

/-- Whether two lists hold the same values in the same order. -/
def sameItems : List Json → List Json → Bool
  | [], [] => true
  | a :: as, b :: bs => same a b && sameItems as bs
  | _, _ => false
termination_by structural as => as

/-- Whether every field is found with the same value among other fields. -/
def sameFields : List (Text × Json) → List (Text × Json) → Bool
  | [], _ => true
  | field :: fields, others => sameField field others && sameFields fields others
termination_by structural fields => fields

/-- Whether a field is found with the same value among other fields. -/
def sameField : Text × Json → List (Text × Json) → Bool
  | (key, value), others =>
    match others.lookup key with
    | some other => same value other
    | none => false
termination_by structural field => field

end

/-! ## 2. Fields -/

/-- The value of a field; `none` also for a value that is no object. -/
def field? (key : Text) : Json → Option Json
  | .obj fields => fields.lookup key
  | _ => none

/-- The fields with one of them set to a value; a new field is the last one. -/
def setField (key : Text) (value : Json) : List (Text × Json) → List (Text × Json)
  | [] => [(key, value)]
  | (k, v) :: rest => if k = key then (k, value) :: rest else (k, v) :: setField key value rest

@[simp] theorem lookup_setField_self (key : Text) (value : Json) (fields : List (Text × Json)) :
    (setField key value fields).lookup key = some value := by
  induction fields with
  | nil => simp [setField]
  | cons field rest ih =>
    obtain ⟨k, v⟩ := field
    by_cases h : k = key
    · simp [setField, h]
    · have hk : (key == k) = false := beq_false_of_ne (Ne.symm h)
      simp [setField, h, List.lookup_cons, hk, ih]

theorem lookup_setField_of_ne {key other : Text} (h : other ≠ key) (value : Json)
    (fields : List (Text × Json)) :
    (setField key value fields).lookup other = fields.lookup other := by
  induction fields with
  | nil => simp [setField, h]
  | cons field rest ih =>
    obtain ⟨k, v⟩ := field
    by_cases hk : k = key
    · subst hk
      simp [setField, List.lookup_cons, beq_false_of_ne h]
    · simp [setField, hk, List.lookup_cons, ih]

end Json

end ShaderVariants
