import ShaderVariants.Proofs.Json.Overlay

/-!
# Overrides that are defaults

An override that is the same as its default has nothing to write.  The field that it is laid over is
made all the same, as a null, if the base lacks it: so the base stays as it is exactly if it covers
the overrides (`overlay_eq_self_iff`).  Along paths of keys, `overlay_keeps_paths` says what becomes
of the values of the base and which keys are added.
-/

namespace ShaderVariants.Json

variable {base overrides default : Json} {path : List Text} {key : Text}

/-! ## 1. Covered overrides -/

/-- Where the base and the overrides both have objects, the base has the keys of the overrides. -/
def Covers (base overrides : Json) : Prop :=
  ∀ path key, (base.at? path).any isObject = true → (overrides.at? (path ++ [key])).isSome = true →
    (base.at? (path ++ [key])).isSome = true

theorem covers_of_not_both (h : ¬ (base.isObject = true ∧ overrides.isObject = true)) :
    base.Covers overrides := by
  intro path key hbase hoverrides
  exfalso
  apply h
  -- What leads on is an object: the overrides do, and the base does up to the object at the path.
  cases path with
  | nil => exact ⟨hbase, isObject_of_at?_cons hoverrides⟩
  | cons first rest =>
    have hfound : (base.at? (first :: rest)).isSome = true := Option.isSome_of_any hbase
    exact ⟨isObject_of_at?_cons hfound, isObject_of_at?_cons hoverrides⟩

theorem covers_obj_iff {fields overrideFields : List (Text × Json)} :
    (Json.obj fields).Covers (.obj overrideFields) ↔
      ∀ key value, overrideFields.lookup key = some value →
        ∃ below, fields.lookup key = some below ∧ below.Covers value := by
  constructor
  · intro h key value hvalue
    have hmentioned : ((Json.obj overrideFields).at? [key]).isSome = true := by
      simp [hvalue]
    have hfield := h [] key rfl hmentioned
    obtain ⟨below, hbelow⟩ := Option.isSome_iff_exists.mp hfield
    have hlookup : fields.lookup key = some below := by
      simpa using hbelow
    refine ⟨below, hlookup, fun path next hpath hnext => ?_⟩
    have hdeeper := h (key :: path) next
    simp only [List.cons_append, at?_obj_cons, hlookup, hvalue, Option.bind_some] at hdeeper
    exact hdeeper hpath hnext
  · intro h path
    -- The objects themselves tell of a path of one key, their fields of all others.
    cases path with
    | nil =>
      intro key _ hmentioned
      obtain ⟨value, hvalue⟩ := Option.isSome_iff_exists.mp hmentioned
      have hlookup : overrideFields.lookup key = some value := by
        simpa using hvalue
      obtain ⟨below, hbelow, -⟩ := h key value hlookup
      simp [hbelow]
    | cons first rest =>
      intro key hpath hmentioned
      simp only [List.cons_append, at?_obj_cons] at hpath hmentioned ⊢
      cases hvalue : overrideFields.lookup first with
      | none =>
        rw [hvalue] at hmentioned
        cases hmentioned
      | some value =>
        obtain ⟨below, hbelow, hcovers⟩ := h first value hvalue
        rw [hvalue] at hmentioned
        rw [hbelow] at hpath ⊢
        exact hcovers rest key hpath hmentioned

/-- A field of an object is the same as that of another one that is the same as the object. -/
theorem same_of_lookup {overrideFields : List (Text × Json)} {value : Json}
    (hsame : same (.obj overrideFields) default = true)
    (hvalue : overrideFields.lookup key = some value) :
    same value ((default.field? key).getD .null) = true := by
  cases default with
  | obj defaultFields =>
    rw [same, Bool.and_eq_true, sameFields_iff] at hsame
    obtain ⟨other, hother, hvalues⟩ := hsame.2 key value (mem_of_lookup hvalue)
    rw [field?, hother]
    exact hvalues
  | null | bool | num | str | arr => cases hsame

/-- Overrides that are the same as their defaults leave a base alone exactly if it covers them. -/
theorem overlay_eq_self_iff (h : overrides.IsProper) (hsame : same overrides default = true) :
    overlay base overrides default = base ↔ base.Covers overrides := by
  -- On the overrides; a field of theirs meets another base, and is the same as another default.
  refine h.induction
    (motive := fun overrides => ∀ base default, same overrides default = true →
      (overlay base overrides default = base ↔ base.Covers overrides))
    ?plain ?object base default hsame
  case plain =>
    intro overrides hplain base default hsame
    rw [overlay_of_isObject_eq_false hplain, if_pos hsame]
    have hcovers : base.Covers overrides := covers_of_not_both (by simp [hplain])
    simp [hcovers]
  case object =>
    intro overrideFields hkeys ih base default hsame
    by_cases hbase : base.isObject = true
    · obtain ⟨fields, rfl⟩ := exists_of_isObject hbase
      have hfields : ∀ key value, overrideFields.lookup key = some value → ∀ below : Json,
          overlay below value ((default.field? key).getD .null) = below ↔ below.Covers value :=
        fun key value hvalue below =>
          (ih key value hvalue).2 below _ (same_of_lookup hsame hvalue)
      rw [overlay_obj, Json.obj.injEq, overlayFields_eq_self_iff hkeys, covers_obj_iff]
      constructor
      · intro hkept key value hvalue
        obtain ⟨below, hbelow, hleft⟩ := hkept key value hvalue
        exact ⟨below, hbelow, (hfields key value hvalue below).mp hleft⟩
      · intro hcovered key value hvalue
        obtain ⟨below, hbelow, hcovers⟩ := hcovered key value hvalue
        exact ⟨below, hbelow, (hfields key value hvalue below).mpr hcovers⟩
    · have hnot : ¬ (base.isObject = true ∧ (Json.obj overrideFields).isObject = true) :=
        fun both => hbase both.1
      rw [overlay_of_not_both hnot, if_pos hsame]
      simp [covers_of_not_both hnot]

/-! ## 2. Paths -/

/-- An overlay goes down a path that the base and the overrides both have. -/
theorem at?_overlay (h : overrides.IsProper) {below value : Json}
    (hbase : base.at? path = some below) (hvalue : overrides.at? path = some value) :
    (overlay base overrides default).at? path =
      some (overlay below value (default.atOrNull path)) := by
  induction path generalizing base overrides default with
  | nil =>
    obtain rfl := Option.some.inj hbase
    obtain rfl := Option.some.inj hvalue
    rfl
  | cons key path ih =>
    obtain ⟨nextBase, hnextBase, hbelow⟩ := Option.bind_eq_some_iff.mp hbase
    obtain ⟨nextValue, hnextValue, hdeeper⟩ := Option.bind_eq_some_iff.mp hvalue
    obtain ⟨fields, rfl, hfield⟩ := field?_eq_some_iff.mp hnextBase
    obtain ⟨overrideFields, rfl, hoverride⟩ := field?_eq_some_iff.mp hnextValue
    obtain ⟨hkeys, hall⟩ := isProper_obj_iff.mp h
    rw [overlay_obj, at?_obj_cons, lookup_overlayFields hkeys hoverride, hfield,
      Option.bind_some, Option.getD_some, atOrNull_cons]
    exact ih (hall _ (mem_of_lookup hoverride)) hbelow hdeeper

/-- At the path stands an override that is no object and differs from its default. -/
def ReplacesAt (overrides default : Json) (path : List Text) : Prop :=
  ∃ value, overrides.at? path = some value ∧ value.isObject = false ∧
    same value (default.atOrNull path) = false

/-- A value of the base that is not mentioned stays where it is unless something on the way to it is
replaced. -/
theorem at?_overlay_eq_some_iff (h : overrides.IsProper) {below : Json}
    (hbase : base.at? path = some below) (hnone : overrides.at? path = none) :
    (overlay base overrides default).at? path = some below ↔
      ∀ front, front <+: path → ¬ overrides.ReplacesAt default front := by
  constructor
  · rintro hkept front ⟨rest, rfl⟩ ⟨value, hvalue, hplain, hdiffers⟩
    rw [at?_append] at hbase hnone hkept
    obtain ⟨here, hhere, -⟩ := Option.bind_eq_some_iff.mp hbase
    rw [at?_overlay h hhere hvalue, overlay_of_isObject_eq_false hplain, hdiffers,
      if_neg Bool.false_ne_true] at hkept
    -- There is no way on in what has replaced the value that stood here.
    rw [hvalue] at hnone
    rw [hnone] at hkept
    cases hkept
  · intro hfree
    induction path generalizing base overrides default with
    | nil => cases hnone
    | cons key path ih =>
      obtain ⟨next, hnext, hbelow⟩ := Option.bind_eq_some_iff.mp hbase
      obtain ⟨fields, rfl, hfield⟩ := field?_eq_some_iff.mp hnext
      by_cases hobject : overrides.isObject = true
      · obtain ⟨overrideFields, rfl⟩ := exists_of_isObject hobject
        rw [overlay_obj, at?_obj_cons]
        cases hoverride : overrideFields.lookup key with
        | none =>
          rw [lookup_overlayFields_of_notMem (lookup_eq_none_iff_notMem.mp hoverride), hfield]
          exact hbelow
        | some value =>
          obtain ⟨hkeys, hall⟩ := isProper_obj_iff.mp h
          rw [lookup_overlayFields hkeys hoverride, hfield, Option.bind_some, Option.getD_some]
          apply ih (hall _ (mem_of_lookup hoverride)) hbelow
          · simpa [hoverride] using hnone
          · rintro front hfront ⟨replacing, hreplacing, hplain, hdiffers⟩
            apply hfree (key :: front) (List.cons_prefix_cons.mpr ⟨rfl, hfront⟩)
            refine ⟨replacing, ?_, hplain, ?_⟩
            · simpa [hoverride] using hreplacing
            · rw [atOrNull_cons]
              exact hdiffers
      · rw [Bool.not_eq_true] at hobject
        -- Otherwise all of the base would be replaced, at the empty front.
        have hsame : same overrides default = true := by
          rw [← Bool.not_eq_false]
          intro hdiffers
          exact hfree [] List.nil_prefix ⟨overrides, rfl, hobject, hdiffers⟩
        rw [overlay_of_isObject_eq_false hobject, if_pos hsame]
        exact hbase

/-- What an overlay adds to an object of the base: every key that the overrides mention there, with
null where the override is the same as its default. -/
theorem at?_overlay_concat (h : overrides.IsProper) {fields overrideFields : List (Text × Json)}
    (hbase : base.at? path = some (.obj fields)) (hlacks : fields.lookup key = none)
    (hoverrides : overrides.at? path = some (.obj overrideFields)) :
    (overlay base overrides default).at? (path ++ [key]) =
      (overrideFields.lookup key).map fun value =>
        if same value (default.atOrNull (path ++ [key])) then .null else value := by
  rw [at?_concat, at?_overlay h hbase hoverrides, overlay_obj, Option.bind_some, field?]
  cases hvalue : overrideFields.lookup key with
  | none =>
    rw [lookup_overlayFields_of_notMem (lookup_eq_none_iff_notMem.mp hvalue), hlacks]
    rfl
  | some value =>
    obtain ⟨hkeys, -⟩ := isProper_obj_iff.mp (h.at? hoverrides)
    rw [lookup_overlayFields hkeys hvalue, hlacks, Option.getD_none, overlay_null,
      Option.map_some, atOrNull_concat]

/-! ## 3. Overrides without effect -/

/-- What an overlay leaves alone.  A base with the defaults laid over it stays as it is exactly if
it covers them.  A value of the base stays as it is under an override that is the same as its
default exactly if it covers the override, and under no override at all unless something on the way
to it is replaced.  An object of the base gets exactly those of the keys it lacks that the overrides
mention, with null for an override that is the same as its default. -/
theorem overlay_keeps_paths (hoverrides : overrides.IsProper) (hdefault : default.IsProper)
    (base : Json) :
    (overlay base default default = base ↔ base.Covers default) ∧
    (∀ path below value, base.at? path = some below → overrides.at? path = some value →
      same value (default.atOrNull path) = true →
      ((overlay base overrides default).at? path = some below ↔ below.Covers value)) ∧
    (∀ path below, base.at? path = some below → overrides.at? path = none →
      ((overlay base overrides default).at? path = some below ↔
        ∀ front, front <+: path → ¬ overrides.ReplacesAt default front)) ∧
    ∀ path fields overrideFields key, base.at? path = some (.obj fields) →
      overrides.at? path = some (.obj overrideFields) → fields.lookup key = none →
      (overlay base overrides default).at? (path ++ [key]) =
        (overrideFields.lookup key).map fun value =>
          if same value (default.atOrNull (path ++ [key])) then .null else value := by
  refine ⟨overlay_eq_self_iff hdefault (same_self hdefault), ?_, ?_, ?_⟩
  · intro path below value hbase hvalue hsame
    rw [at?_overlay hoverrides hbase hvalue, Option.some_inj]
    exact overlay_eq_self_iff (hoverrides.at? hvalue) hsame
  · intro path below hbase hnone
    exact at?_overlay_eq_some_iff hoverrides hbase hnone
  · intro path fields overrideFields key hbase hmentioned hlacks
    exact at?_overlay_concat hoverrides hbase hlacks hmentioned

/-- A lamp and a fan, with settings of their own. -/
def panel : Json :=
  .obj
    [("lamp".toList, .obj [("dimmed".toList, .num 1), ("tinted".toList, .num 2)]),
     ("fan".toList, .obj [("speed".toList, .num 5)])]

/-- Settings of the lamp of which one differs from its default, and no fan. -/
def panelOverrides : Json :=
  .obj
    [("lamp".toList,
      .obj [("dimmed".toList, .num 0), ("tinted".toList, .num 3), ("shaded".toList, .num 7)]),
     ("fan".toList, .bool false)]

def panelDefaults : Json :=
  .obj
    [("lamp".toList,
      .obj [("dimmed".toList, .num 0), ("tinted".toList, .num 0), ("shaded".toList, .num 7)])]

theorem overlay_keeps_paths_panel :
    panelOverrides.IsProper ∧ panelDefaults.IsProper ∧
      overlay panel panelDefaults panelDefaults ≠ panel ∧
      (overlay panel panelOverrides panelDefaults).at? ["lamp".toList, "dimmed".toList] =
        some (.num 1) ∧
      (overlay panel panelOverrides panelDefaults).at? ["fan".toList, "speed".toList] ≠
        some (.num 5) ∧
      (overlay panel panelOverrides panelDefaults).at? ["lamp".toList, "shaded".toList] =
        some .null := by
  have hoverrides : panelOverrides.IsProper := by simp [panelOverrides]
  have hdefaults : panelDefaults.IsProper := by simp [panelDefaults]
  obtain ⟨hsilent, hequal, habsent, hadded⟩ := overlay_keeps_paths hoverrides hdefaults panel
  refine ⟨hoverrides, hdefaults, ?_, ?_, ?_, ?_⟩
  · -- The panel has no shade.
    intro hkept
    have hshaded := hsilent.mp hkept ["lamp".toList] "shaded".toList rfl rfl
    cases hshaded
  · refine (hequal ["lamp".toList, "dimmed".toList] (.num 1) (.num 0) rfl rfl rfl).mpr ?_
    exact covers_of_not_both (by simp [isObject])
  · intro hkept
    refine (habsent ["fan".toList, "speed".toList] (.num 5) rfl rfl).mp hkept ["fan".toList] ?_ ?_
    · exact ⟨["speed".toList], rfl⟩
    · exact ⟨.bool false, rfl, rfl, rfl⟩
  · exact hadded ["lamp".toList] _ _ "shaded".toList rfl rfl rfl

/-- Defaults laid over a base that lacks their key leave a null there. -/
theorem overlay_default_leaves_null :
    overlay (.obj []) (.obj [("verbosity".toList, .num 1)]) (.obj [("verbosity".toList, .num 1)]) =
        .obj [("verbosity".toList, .null)] ∧
      ¬ ∀ base default : Json, base.IsProper → default.IsProper →
        overlay base default default = base := by
  have hnull : overlay (.obj []) (.obj [("verbosity".toList, .num 1)])
      (.obj [("verbosity".toList, .num 1)]) = .obj [("verbosity".toList, .null)] := rfl
  refine ⟨hnull, fun hsilent => ?_⟩
  have hkept := hsilent (.obj []) (.obj [("verbosity".toList, .num 1)]) (by simp) (by simp)
  rw [hnull] at hkept
  cases hkept

end ShaderVariants.Json
