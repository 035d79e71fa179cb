import ShaderVariants.Proofs.Json.Overlay
import ShaderVariants.Settings

/-!
# Layers of settings

Settings are laid over others as JSON objects, and this comes to a choice for each setting: the one
laid over wins unless it is the default (`merge?_eq_layered`).  So layers can be grouped in any way
(`layered_assoc`), and the defaults are a layer that shows nothing.
-/

namespace ShaderVariants.Settings

/-! ## 1. Choosing a setting -/

section

variable {α : Type} [DecidableEq α]

/-- The setting laid over another, unless it is the standard one. -/
def prefer (standard base override : α) : α :=
  if override = standard then base else override

@[simp] theorem prefer_standard (standard base : α) : prefer standard base standard = base :=
  if_pos rfl

@[simp] theorem standard_prefer (standard override : α) :
    prefer standard standard override = override := by
  rw [prefer]
  split
  · next h => exact h.symm
  · rfl

@[simp] theorem prefer_self (standard base : α) : prefer standard base base = base :=
  ite_self base

/-- Of three layers the last one wins that is not the standard. -/
theorem prefer_assoc (standard base override top : α) :
    prefer standard (prefer standard base override) top =
      prefer standard base (prefer standard override top) := by
  by_cases htop : top = standard
  · rw [htop, prefer_standard, prefer_standard]
  · have hover : prefer standard override top = top := if_neg htop
    rw [hover, prefer, if_neg htop, prefer, if_neg htop]

end

/-- Settings laid over others, setting by setting. -/
def layered (base overrides : Settings) : Settings where
  pushConstantsSize :=
    prefer default.pushConstantsSize base.pushConstantsSize overrides.pushConstantsSize
  backendMajor := prefer default.backendMajor base.backendMajor overrides.backendMajor
  backendMinor := prefer default.backendMinor base.backendMinor overrides.backendMinor
  vendor := prefer default.vendor base.vendor overrides.vendor
  packing := prefer default.packing base.packing overrides.packing
  storage := prefer default.storage base.storage overrides.storage

theorem layered_assoc (base overrides top : Settings) :
    (base.layered overrides).layered top = base.layered (overrides.layered top) := by
  simp only [layered, prefer_assoc]

theorem layered_self (base : Settings) : base.layered base = base := by
  simp only [layered, prefer_self]

theorem default_layered (overrides : Settings) : default.layered overrides = overrides := by
  simp only [layered, standard_prefer]

theorem layered_default (base : Settings) : base.layered default = base := by
  simp only [layered, prefer_standard]

theorem prefer_lt {standard base override bound : Nat} (hbase : base < bound)
    (hoverride : override < bound) : prefer standard base override < bound := by
  rw [prefer]
  split
  · exact hbase
  · exact hoverride

theorem layered_inRange {base overrides : Settings} (hbase : base.InRange)
    (hoverrides : overrides.InRange) : (base.layered overrides).InRange := by
  obtain ⟨hsize, hmajor, hminor⟩ := hbase
  obtain ⟨hsize', hmajor', hminor'⟩ := hoverrides
  exact ⟨prefer_lt hsize hsize', prefer_lt hmajor hmajor', prefer_lt hminor hminor'⟩

/-! ## 2. Choosing among written settings -/

/-- The fields of written settings. -/
def fields (settings : Settings) : List (Text × Json) :=
  [("push_constants_size".toList, .num settings.pushConstantsSize),
   ("backend_major".toList, .num settings.backendMajor),
   ("backend_minor".toList, .num settings.backendMinor),
   ("gpu_vendor".toList, .str settings.vendor.key),
   ("packing".toList, .str settings.packing.qualifier),
   ("uniform_storage".toList, .str settings.storage.key)]

theorem toJson_eq (settings : Settings) : settings.toJson = .obj settings.fields := rfl

theorem nodup_fields (settings : Settings) : (settings.fields.map Prod.fst).Nodup := by
  show ["push_constants_size".toList, "backend_major".toList, "backend_minor".toList,
    "gpu_vendor".toList, "packing".toList, "uniform_storage".toList].Nodup
  decide

/-- A written setting that is laid over another is read as the preferred one of both. -/
theorem fieldOr_overlayFields {β : Type} [DecidableEq β] {key : String}
    {standard base override : β} {read : Json → Option β} (write : β → Json)
    {baseFields overrideFields defaultFields : List (Text × Json)}
    (hkeys : (overrideFields.map Prod.fst).Nodup)
    (hbase : baseFields.lookup key.toList = some (write base))
    (hoverride : overrideFields.lookup key.toList = some (write override))
    (hdefault : defaultFields.lookup key.toList = some (write standard))
    (hplain : (write override).isObject = false)
    (hsame : Json.same (write override) (write standard) = true ↔ override = standard)
    (hreadBase : read (write base) = some base)
    (hreadOverride : read (write override) = some override) :
    fieldOr key standard read
        (Json.overlayFields baseFields overrideFields (.obj defaultFields)) =
      some (prefer standard base override) := by
  rw [fieldOr, Json.lookup_overlayFields hkeys hoverride, hbase, Option.getD_some, Json.field?,
    hdefault, Option.getD_some, Json.overlay_of_isObject_eq_false hplain, prefer]
  by_cases heq : override = standard
  · rw [if_pos heq, if_pos (hsame.mpr heq)]
    exact hreadBase
  · rw [if_neg heq, if_neg (mt hsame.mp heq)]
    exact hreadOverride

theorem same_num_iff (m n : Nat) : Json.same (.num m) (.num n) = true ↔ m = n := by
  rw [Json.same, beq_iff_eq]
  exact Int.ofNat_inj

/-- Names that are read back are the same only for the same choice. -/
theorem same_str_iff {α : Type} {name : α → Text} {ofName? : Text → Option α}
    (h : ∀ choice, ofName? (name choice) = some choice) (a b : α) :
    Json.same (.str (name a)) (.str (name b)) = true ↔ a = b := by
  rw [Json.same, beq_iff_eq]
  constructor
  · intro hname
    apply Option.some.inj
    rw [← h a, ← h b, hname]
  · intro heq
    rw [heq]

/-- Merging settings never fails and lays them over one another. -/
theorem merge?_eq_layered {base overrides : Settings} (hbase : base.InRange)
    (hoverrides : overrides.InRange) : merge? base overrides = some (base.layered overrides) := by
  obtain ⟨hsize, hmajor, hminor⟩ := hbase
  obtain ⟨hsize', hmajor', hminor'⟩ := hoverrides
  have hkeys := nodup_fields overrides
  -- Setting by setting: a number, or a choice that is written by its name.
  rw [merge?, toJson_eq, toJson_eq, toJson_eq, Json.overlay_obj, ofJson?, ofFields?,
    fieldOr_overlayFields (fun n : Nat => .num n) hkeys rfl rfl rfl rfl (same_num_iff _ _)
      (number?_natCast hsize) (number?_natCast hsize'),
    fieldOr_overlayFields (fun n : Nat => .num n) hkeys rfl rfl rfl rfl (same_num_iff _ _)
      (number?_natCast hmajor) (number?_natCast hmajor'),
    fieldOr_overlayFields (fun n : Nat => .num n) hkeys rfl rfl rfl rfl (same_num_iff _ _)
      (number?_natCast hminor) (number?_natCast hminor'),
    fieldOr_overlayFields (fun vendor : Vendor => .str vendor.key) hkeys rfl rfl rfl rfl
      (same_str_iff Vendor.ofKey?_key _ _) (Vendor.ofKey?_key _) (Vendor.ofKey?_key _),
    fieldOr_overlayFields (fun rule : Packing => .str rule.qualifier) hkeys rfl rfl rfl rfl
      (same_str_iff Packing.ofKey?_qualifier _ _) (Packing.ofKey?_qualifier _)
      (Packing.ofKey?_qualifier _),
    fieldOr_overlayFields (fun storage : Storage => .str storage.key) hkeys rfl rfl rfl rfl
      (same_str_iff Storage.ofKey?_key _ _) (Storage.ofKey?_key _) (Storage.ofKey?_key _)]
  rfl

/-! ## 3. Layers -/

/-- Merging settings gives each setting that differs from its default in the overrides, and that of
the base otherwise.  So three layers can be merged in any grouping, and merging settings with
themselves or with the defaults changes nothing. -/
theorem merge?_layers {base overrides : Settings} (hbase : base.InRange)
    (hoverrides : overrides.InRange) :
    (∃ merged, merge? base overrides = some merged ∧ merged.InRange ∧
      merged.pushConstantsSize =
        (if overrides.pushConstantsSize = default.pushConstantsSize then base.pushConstantsSize
          else overrides.pushConstantsSize) ∧
      merged.backendMajor =
        (if overrides.backendMajor = default.backendMajor then base.backendMajor
          else overrides.backendMajor) ∧
      merged.backendMinor =
        (if overrides.backendMinor = default.backendMinor then base.backendMinor
          else overrides.backendMinor) ∧
      merged.vendor =
        (if overrides.vendor = default.vendor then base.vendor else overrides.vendor) ∧
      merged.packing =
        (if overrides.packing = default.packing then base.packing else overrides.packing) ∧
      merged.storage =
        (if overrides.storage = default.storage then base.storage else overrides.storage)) ∧
    (∀ top : Settings, top.InRange → ∃ merged,
      (merge? base overrides).bind (fun lower => merge? lower top) = some merged ∧
        (merge? overrides top).bind (fun upper => merge? base upper) = some merged) ∧
    merge? base base = some base ∧ merge? default base = some base ∧
    merge? base default = some base := by
  refine ⟨?_, ?_, ?_, ?_, ?_⟩
  · exact ⟨base.layered overrides, merge?_eq_layered hbase hoverrides,
      layered_inRange hbase hoverrides, rfl, rfl, rfl, rfl, rfl, rfl⟩
  · intro top htop
    refine ⟨(base.layered overrides).layered top, ?_, ?_⟩
    · rw [merge?_eq_layered hbase hoverrides, Option.bind_some,
        merge?_eq_layered (layered_inRange hbase hoverrides) htop]
    · rw [merge?_eq_layered hoverrides htop, Option.bind_some,
        merge?_eq_layered hbase (layered_inRange hoverrides htop), layered_assoc]
  · rw [merge?_eq_layered hbase hbase, layered_self]
  · rw [merge?_eq_layered default_inRange hbase, default_layered]
  · rw [merge?_eq_layered hbase default_inRange, layered_default]

/-- Settings of a file. -/
def bench : Settings :=
  ⟨256, 3, 1, .nvidia, .std140, .uniformBuffer⟩

/-- Settings of a command, with the largest number and a default that is asked for. -/
def lathe : Settings :=
  ⟨4294967295, 1, 0, .intel, .std430, .auto⟩

theorem merge?_layers_bench :
    bench.InRange ∧ lathe.InRange ∧
      merge? bench lathe = some ⟨4294967295, 3, 0, .intel, .std430, .uniformBuffer⟩ ∧
      (merge? bench lathe).bind (fun lower => merge? lower bench) =
        (merge? lathe bench).bind (fun upper => merge? bench upper) ∧
      merge? lathe lathe = some lathe := by
  have hbench : bench.InRange := by simp [InRange, bench, numberBound]
  have hlathe : lathe.InRange := by simp [InRange, lathe, numberBound]
  obtain ⟨⟨merged, hmerged, -, hsize, hmajor, hminor, hvendor, hpacking, hstorage⟩, hgroups, -⟩ :=
    merge?_layers hbench hlathe
  refine ⟨hbench, hlathe, ?_, ?_, (merge?_layers hlathe hbench).2.2.1⟩
  · rw [hmerged]
    obtain ⟨size, major, minor, vendor, packing, storage⟩ := merged
    simp only at hsize hmajor hminor hvendor hpacking hstorage
    subst hsize hmajor hminor hvendor hpacking hstorage
    rfl
  · obtain ⟨merged, hleft, hright⟩ := hgroups bench hbench
    rw [hleft, hright]

end ShaderVariants.Settings
