import ShaderVariants.Proofs.Json.Paths

/-!
# What overlays change

An overlay joins two objects key by key: what becomes of a field depends on what the base, the
overrides and the defaults have under its key (`lookup_overlayFields`).  So what an overlay has
written it leaves as it is when it is repeated (`overlay_overlay`).
-/

namespace ShaderVariants.Json

variable {base overrides default : Json} {fields overrideFields : List (Text × Json)} {key : Text}

/-! ## 1. Fields -/

@[simp] theorem overlay_obj (fields overrideFields : List (Text × Json)) (default : Json) :
    overlay (.obj fields) (.obj overrideFields) default =
      .obj (overlayFields fields overrideFields default) := by
  rw [overlay]

/-- Unless both are objects, an override replaces all of the base or nothing. -/
theorem overlay_of_not_both (h : ¬ (base.isObject = true ∧ overrides.isObject = true))
    (default : Json) :
    overlay base overrides default = if same overrides default then base else overrides := by
  cases overrides with
  | obj overrideFields =>
    cases base with
    | obj fields => exact absurd ⟨rfl, rfl⟩ h
    | null | bool | num | str | arr => rfl
  | null | bool | num | str | arr => rfl

theorem overlay_of_isObject_eq_false (h : overrides.isObject = false) (base default : Json) :
    overlay base overrides default = if same overrides default then base else overrides := by
  apply overlay_of_not_both
  simp [h]

theorem overlay_null (overrides default : Json) :
    overlay .null overrides default = if same overrides default then .null else overrides := by
  apply overlay_of_not_both
  simp [isObject]

theorem setField_eq_self {value : Json} (h : fields.lookup key = some value) :
    setField key value fields = fields := by
  induction fields with
  | nil => cases h
  | cons field rest ih =>
    obtain ⟨k, v⟩ := field
    rw [List.lookup_cons] at h
    rw [setField]
    by_cases hk : k = key
    · subst hk
      rw [beq_self_eq_true] at h
      rw [if_pos rfl, Option.some.inj h]
    · rw [beq_false_of_ne (Ne.symm hk)] at h
      rw [if_neg hk, ih h]

theorem lookup_eq_none_iff_notMem : fields.lookup key = none ↔ key ∉ fields.map Prod.fst := by
  rw [List.lookup_eq_none_iff]
  constructor
  · intro h hmem
    obtain ⟨field, hfield, rfl⟩ := List.mem_map.mp hmem
    simpa using h field hfield
  · intro h field hfield
    rw [bne_iff_ne]
    intro heq
    exact h (List.mem_map.mpr ⟨field, hfield, heq.symm⟩)

theorem lookup_overlayField_self (fields : List (Text × Json)) (key : Text) (value default : Json) :
    (overlayField fields (key, value) default).lookup key =
      some (overlay ((fields.lookup key).getD .null) value ((default.field? key).getD .null)) := by
  rw [overlayField, lookup_setField_self]

theorem lookup_overlayField_of_ne {other : Text} (h : other ≠ key) (fields : List (Text × Json))
    (value default : Json) :
    (overlayField fields (key, value) default).lookup other = fields.lookup other := by
  rw [overlayField, lookup_setField_of_ne h]

/-- A field that the overrides do not mention stays as it is. -/
theorem lookup_overlayFields_of_notMem (h : key ∉ overrideFields.map Prod.fst)
    (fields : List (Text × Json)) (default : Json) :
    (overlayFields fields overrideFields default).lookup key = fields.lookup key := by
  induction overrideFields generalizing fields with
  | nil => rw [overlayFields]
  | cons field rest ih =>
    obtain ⟨k, v⟩ := field
    rw [List.map_cons, List.mem_cons, not_or] at h
    rw [overlayFields, ih h.2, lookup_overlayField_of_ne h.1]

/-- A field that the overrides mention is laid over what the base has there, or over null. -/
theorem lookup_overlayFields (hkeys : (overrideFields.map Prod.fst).Nodup) {value : Json}
    (h : overrideFields.lookup key = some value) (fields : List (Text × Json)) (default : Json) :
    (overlayFields fields overrideFields default).lookup key =
      some (overlay ((fields.lookup key).getD .null) value ((default.field? key).getD .null)) := by
  induction overrideFields generalizing fields with
  | nil => cases h
  | cons field rest ih =>
    obtain ⟨k, v⟩ := field
    obtain ⟨hfresh, hrest⟩ := List.nodup_cons.mp hkeys
    rw [overlayFields]
    by_cases hk : key = k
    · subst hk
      rw [List.lookup_cons_self] at h
      obtain rfl := Option.some.inj h
      -- No later override has the key, so what is written now stays.
      rw [lookup_overlayFields_of_notMem hfresh, lookup_overlayField_self]
    · rw [List.lookup_cons, beq_false_of_ne hk] at h
      rw [ih hrest h, lookup_overlayField_of_ne hk]

/-- Fields stay as they are if each override leaves the field that it is laid over. -/
theorem overlayFields_eq_self
    (h : ∀ key value, (key, value) ∈ overrideFields → ∃ below, fields.lookup key = some below ∧
      overlay below value ((default.field? key).getD .null) = below) :
    overlayFields fields overrideFields default = fields := by
  induction overrideFields with
  | nil => rw [overlayFields]
  | cons field rest ih =>
    obtain ⟨k, v⟩ := field
    obtain ⟨below, hbelow, hkept⟩ := h k v List.mem_cons_self
    have hfield : overlayField fields (k, v) default = fields := by
      rw [overlayField, hbelow, Option.getD_some, hkept, setField_eq_self hbelow]
    rw [overlayFields, hfield]
    exact ih fun key value hmem => h key value (List.mem_cons_of_mem _ hmem)

theorem overlayFields_eq_self_iff (hkeys : (overrideFields.map Prod.fst).Nodup) :
    overlayFields fields overrideFields default = fields ↔
      ∀ key value, overrideFields.lookup key = some value → ∃ below,
        fields.lookup key = some below ∧
          overlay below value ((default.field? key).getD .null) = below := by
  constructor
  · intro hkept key value hvalue
    have hfound := lookup_overlayFields hkeys hvalue fields default
    rw [hkept] at hfound
    cases hbelow : fields.lookup key with
    | none =>
      rw [hbelow] at hfound
      cases hfound
    | some below =>
      rw [hbelow, Option.getD_some] at hfound
      exact ⟨below, rfl, (Option.some.inj hfound).symm⟩
  · intro h
    exact overlayFields_eq_self fun key value hmem => h key value (lookup_of_mem hkeys hmem)

/-! ## 2. Overlays that are repeated -/

/-- A value laid over itself stays the same, whatever the defaults. -/
theorem overlay_self {value : Json} (h : value.IsProper) (default : Json) :
    overlay value value default = value := by
  refine h.induction (motive := fun value => ∀ default, overlay value value default = value)
    ?plain ?object default
  case plain =>
    intro value hvalue default
    rw [overlay_of_isObject_eq_false hvalue, ite_self]
  case object =>
    intro fields hkeys ih default
    rw [overlay_obj, (overlayFields_eq_self_iff hkeys).mpr]
    intro key value hlookup
    exact ⟨value, hlookup, (ih key value hlookup).2 _⟩

/-- What an overlay has written it writes again. -/
theorem overlay_overlay (h : overrides.IsProper) (base default : Json) :
    overlay (overlay base overrides default) overrides default =
      overlay base overrides default := by
  refine h.induction
    (motive := fun overrides => overrides.IsProper → ∀ base default,
      overlay (overlay base overrides default) overrides default = overlay base overrides default)
    ?plain ?object h base default
  case plain =>
    intro overrides hplain _ base default
    rw [overlay_of_isObject_eq_false hplain, overlay_of_isObject_eq_false hplain]
    split <;> rfl
  case object =>
    intro overrideFields hkeys ih hproper base default
    -- The base may be no object and become one, so both of its shapes are looked at.
    by_cases hbase : base.isObject = true
    · obtain ⟨fields, rfl⟩ := exists_of_isObject hbase
      rw [overlay_obj, overlay_obj, (overlayFields_eq_self_iff hkeys).mpr]
      intro key value hlookup
      exact ⟨_, lookup_overlayFields hkeys hlookup fields default,
        (ih key value hlookup).2 (ih key value hlookup).1 _ _⟩
    · -- What has become of the base is either the base or the overrides themselves.
      have hnot : ¬ (base.isObject = true ∧ (Json.obj overrideFields).isObject = true) :=
        fun both => hbase both.1
      rw [overlay_of_not_both hnot]
      by_cases hsame : same (.obj overrideFields) default = true
      · rw [if_pos hsame, overlay_of_not_both hnot, if_pos hsame]
      · rw [if_neg hsame]
        exact overlay_self hproper default

/-- Laying the same overrides over a base twice is laying them over it once, and a key that they do
not mention keeps its value. -/
theorem overlay_idempotent (h : overrides.IsProper) (base default : Json) :
    overlay (overlay base overrides default) overrides default = overlay base overrides default ∧
      ∀ fields overrideFields, base = .obj fields → overrides = .obj overrideFields →
        ∀ key, key ∉ overrideFields.map Prod.fst →
          (overlay base overrides default).field? key = base.field? key := by
  constructor
  · exact overlay_overlay h base default
  · rintro fields overrideFields rfl rfl key hkey
    rw [overlay_obj]
    exact lookup_overlayFields_of_notMem hkey fields default

/-- A cabinet with a number where the overrides have an object. -/
def cabinet : Json :=
  .obj [("drawer".toList, .num 4), ("shelf".toList, .arr [.num 1, .num 2])]

def cabinetOverrides : Json :=
  .obj
    [("drawer".toList, .obj [("depth".toList, .num 40), ("lock".toList, .null)]),
     ("door".toList, .obj [])]

theorem overlay_idempotent_cabinet :
    cabinetOverrides.IsProper ∧
      overlay cabinet cabinetOverrides .null =
        .obj
          [("drawer".toList, .obj [("depth".toList, .num 40), ("lock".toList, .null)]),
           ("shelf".toList, .arr [.num 1, .num 2]), ("door".toList, .obj [])] ∧
      overlay (overlay cabinet cabinetOverrides .null) cabinetOverrides .null =
        overlay cabinet cabinetOverrides .null ∧
      (overlay cabinet cabinetOverrides .null).field? "shelf".toList =
        some (.arr [.num 1, .num 2]) := by
  have hproper : cabinetOverrides.IsProper := by simp [cabinetOverrides]
  obtain ⟨htwice, hkept⟩ := overlay_idempotent hproper cabinet .null
  exact ⟨hproper, rfl, htwice, hkept _ _ rfl rfl "shelf".toList (by decide)⟩

end ShaderVariants.Json
