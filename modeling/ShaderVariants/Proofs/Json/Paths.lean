import ShaderVariants.Json.Overlay

/-!
# Paths into JSON values

Values whose objects have one field for a key (`IsProper`), and what stands in a value at the end of
a path of keys (`at?`).  Main facts: a proper value is the same as itself (`same_self`), its parts
are proper (`IsProper.at?`), and what is found behind a path is found from its end (`at?_append`).
-/

namespace ShaderVariants.Json

/-! ## 1. Fields -/

def isObject : Json → Bool
  | .obj _ => true
  | _ => false

theorem exists_of_isObject {value : Json} (h : value.isObject = true) :
    ∃ fields, value = .obj fields := by
  cases value with
  | obj fields => exact ⟨fields, rfl⟩
  | null | bool | num | str | arr => cases h

theorem field?_eq_some_iff {value below : Json} {key : Text} :
    value.field? key = some below ↔
      ∃ fields, value = .obj fields ∧ fields.lookup key = some below := by
  cases value <;> simp [field?]

theorem mem_of_lookup {fields : List (Text × Json)} {key : Text} {value : Json}
    (h : fields.lookup key = some value) : (key, value) ∈ fields := by
  obtain ⟨front, back, rfl, -⟩ := List.lookup_eq_some_iff.mp h
  simp

/-- Where no two fields have a key in common, every field is found by its key. -/
theorem lookup_of_mem {fields : List (Text × Json)} (hkeys : (fields.map Prod.fst).Nodup)
    {key : Text} {value : Json} (h : (key, value) ∈ fields) : fields.lookup key = some value := by
  induction fields with
  | nil => cases h
  | cons field rest ih =>
    obtain ⟨k, v⟩ := field
    obtain ⟨hfresh, hrest⟩ := List.nodup_cons.mp hkeys
    rw [List.lookup_cons]
    rcases List.mem_cons.mp h with heq | hmem
    · obtain ⟨rfl, rfl⟩ := Prod.mk.inj heq
      rw [beq_self_eq_true]
    · have hne : key ≠ k := by
        intro heq
        apply hfresh
        exact List.mem_map.mpr ⟨(key, value), hmem, heq⟩
      rw [beq_false_of_ne hne]
      exact ih hrest hmem

/-! ## 2. Proper values -/

/-- No object in the value has two fields of the same key. -/
inductive IsProper : Json → Prop
  | null : IsProper .null
  | bool (value : Bool) : IsProper (.bool value)
  | num (value : Int) : IsProper (.num value)
  | str (value : Text) : IsProper (.str value)
  | arr {items : List Json} (all : ∀ item ∈ items, IsProper item) : IsProper (.arr items)
  | obj {fields : List (Text × Json)} (keys : (fields.map Prod.fst).Nodup)
      (all : ∀ field ∈ fields, IsProper field.2) : IsProper (.obj fields)

attribute [simp] IsProper.null IsProper.bool IsProper.num IsProper.str

@[simp] theorem isProper_obj_iff {fields : List (Text × Json)} :
    (Json.obj fields).IsProper ↔
      (fields.map Prod.fst).Nodup ∧ ∀ field ∈ fields, field.2.IsProper := by
  constructor
  · intro h
    cases h with
    | obj keys all => exact ⟨keys, all⟩
  · intro h
    exact .obj h.1 h.2

theorem IsProper.field? {value below : Json} {key : Text} (h : value.IsProper)
    (hbelow : value.field? key = some below) : below.IsProper := by
  obtain ⟨fields, rfl, hlookup⟩ := field?_eq_some_iff.mp hbelow
  exact (isProper_obj_iff.mp h).2 _ (mem_of_lookup hlookup)

/-- What holds of the values that are no objects, and of an object if it holds of its fields, holds
of all proper values. -/
theorem IsProper.induction {motive : Json → Prop}
    (plain : ∀ value, value.isObject = false → motive value)
    (object : ∀ fields, (fields.map Prod.fst).Nodup →
      (∀ key value, fields.lookup key = some value → value.IsProper ∧ motive value) →
        motive (.obj fields))
    {value : Json} (h : value.IsProper) : motive value := by
  induction h with
  | null | bool | num | str | arr => exact plain _ rfl
  | obj keys all ih =>
    refine object _ keys fun key value hvalue => ?_
    exact ⟨all _ (mem_of_lookup hvalue), ih _ (mem_of_lookup hvalue)⟩

theorem sameItems_self {items : List Json} (h : ∀ item ∈ items, same item item = true) :
    sameItems items items = true := by
  induction items with
  | nil => rfl
  | cons item rest ih =>
    obtain ⟨hitem, hrest⟩ := List.forall_mem_cons.mp h
    rw [sameItems, hitem, ih hrest, Bool.and_self]

theorem sameFields_iff {fields others : List (Text × Json)} :
    sameFields fields others = true ↔
      ∀ key value, (key, value) ∈ fields →
        ∃ other, others.lookup key = some other ∧ same value other = true := by
  induction fields with
  | nil => simp [sameFields]
  | cons field rest ih =>
    obtain ⟨k, v⟩ := field
    have hfield : sameField (k, v) others = true ↔
        ∃ other, others.lookup k = some other ∧ same v other = true := by
      rw [sameField]
      cases others.lookup k <;> simp
    rw [sameFields, Bool.and_eq_true, hfield, ih]
    constructor
    · intro h key value hmem
      rcases List.mem_cons.mp hmem with heq | hmem
      · obtain ⟨rfl, rfl⟩ := Prod.mk.inj heq
        exact h.1
      · exact h.2 key value hmem
    · intro h
      exact ⟨h k v List.mem_cons_self, fun key value hmem =>
        h key value (List.mem_cons_of_mem _ hmem)⟩

theorem same_self {value : Json} (h : value.IsProper) : same value value = true := by
  induction h with
  | null => rfl
  | bool | num | str => rw [same, beq_self_eq_true]
  | arr all ih => exact sameItems_self ih
  | obj keys all ih =>
    rw [same, beq_self_eq_true, Bool.true_and, sameFields_iff]
    intro key value hmem
    exact ⟨value, lookup_of_mem keys hmem, ih _ hmem⟩

/-! ## 3. Paths -/

/-- The value at the end of a path of keys. -/
def at? : Json → List Text → Option Json
  | value, [] => some value
  | value, key :: path => (value.field? key).bind fun below => below.at? path

@[simp] theorem at?_nil (value : Json) : value.at? [] = some value := rfl

theorem at?_cons (value : Json) (key : Text) (path : List Text) :
    value.at? (key :: path) = (value.field? key).bind fun below => below.at? path := rfl

@[simp] theorem at?_obj_cons (fields : List (Text × Json)) (key : Text) (path : List Text) :
    (Json.obj fields).at? (key :: path) =
      (fields.lookup key).bind fun below => below.at? path := rfl

/-- A value in which a key leads on is an object. -/
theorem isObject_of_at?_cons {value : Json} {key : Text} {path : List Text}
    (h : (value.at? (key :: path)).isSome = true) : value.isObject = true := by
  cases value with
  | obj fields => rfl
  | null | bool | num | str | arr => cases h

theorem at?_append (value : Json) (path rest : List Text) :
    value.at? (path ++ rest) = (value.at? path).bind fun below => below.at? rest := by
  induction path generalizing value with
  | nil => rfl
  | cons key path ih =>
    rw [List.cons_append, at?_cons, at?_cons]
    cases value.field? key with
    | none => rfl
    | some below => exact ih below

theorem at?_concat (value : Json) (path : List Text) (key : Text) :
    value.at? (path ++ [key]) = (value.at? path).bind fun below => below.field? key := by
  rw [at?_append]
  simp [at?_cons]

theorem IsProper.at? {value below : Json} (h : value.IsProper) {path : List Text}
    (hbelow : value.at? path = some below) : below.IsProper := by
  induction path generalizing value with
  | nil => exact Option.some.inj hbelow ▸ h
  | cons key path ih =>
    obtain ⟨next, hnext, hbelow⟩ := Option.bind_eq_some_iff.mp hbelow
    exact ih (h.field? hnext) hbelow

/-- The value at the end of a path of keys; null if there is none. -/
def atOrNull (value : Json) (path : List Text) : Json :=
  (value.at? path).getD .null

@[simp] theorem atOrNull_nil (value : Json) : value.atOrNull [] = value := rfl

theorem atOrNull_cons (value : Json) (key : Text) (path : List Text) :
    value.atOrNull (key :: path) = ((value.field? key).getD .null).atOrNull path := by
  rw [atOrNull, at?_cons]
  cases value.field? key with
  | some below => rfl
  | none =>
    -- Nothing stands below null.
    cases path <;> rfl

theorem atOrNull_concat (value : Json) (path : List Text) (key : Text) :
    value.atOrNull (path ++ [key]) = ((value.atOrNull path).field? key).getD .null := by
  rw [atOrNull, at?_concat, atOrNull]
  cases value.at? path <;> rfl

end ShaderVariants.Json
