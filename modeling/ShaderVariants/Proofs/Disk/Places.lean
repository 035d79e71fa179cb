import ShaderVariants.Disk.Search

/-!
# Where paths lead

A path that can be followed leads where its segments lead, one after the other, whatever the disk
holds (`Disk.follow_eq_foldl_step`).  So a file that could be written stands where its path leads,
and nothing else has changed (`Disk.write_eq_put`).
-/

namespace ShaderVariants

/-! ## 1. Names -/

namespace Path

/-- A text that can stand in a directory as the name of something. -/
structure IsName (name : Text) : Prop where
  flat : '/' ∉ name
  busy : isIdle name = false
  down : name ≠ up

end Path

/-- A place whose names are names. -/
def Place.IsProper (place : Place) : Prop :=
  ∀ name ∈ place, Path.IsName name

theorem Path.IsName.ne_nil {name : Text} (h : IsName name) : name ≠ [] := by
  rintro rfl
  exact absurd h.busy (by decide)

namespace Search

theorem step_of_isName {name : Text} (h : Path.IsName name) (place : Place) :
    step place name = place ++ [name] := by
  rw [step, h.busy, if_neg Bool.false_ne_true, if_neg h.down]

end Search

/-! ## 3. Following -/

namespace Disk

variable {disk : Disk} {here place : Place} {segment : Text}

/-- What is not among the places of a disk does not stand on it. -/
theorem node?_eq_none (hroot : place ≠ []) (h : place ∉ disk.nodes.keys) :
    disk.node? place = none := by
  rw [Std.TreeMap.mem_keys] at h
  rw [node?, List.isEmpty_eq_false_iff.mpr hroot]
  exact Std.TreeMap.getElem?_eq_none h

/-- The disk with some files written, one after the other. -/
def putFiles (disk : Disk) (files : List (Place × Text)) : Disk :=
  files.foldl (fun disk file => disk.put file.1 (.file (encode file.2))) disk

theorem node?_putFiles_of_notMem {files : List (Place × Text)} (h : place ∉ files.map Prod.fst) :
    (disk.putFiles files).node? place = disk.node? place := by
  induction files generalizing disk with
  | nil => rfl
  | cons file rest ih =>
    rw [List.map_cons, List.mem_cons, not_or] at h
    exact (ih h.2).trans (node?_put_of_ne h.1 disk _)

/-- Every file of several at different places stands at its place. -/
theorem node?_putFiles {files : List (Place × Text)} (hdistinct : (files.map Prod.fst).Nodup)
    {content : Text} (hplace : place ≠ []) (h : (place, content) ∈ files) :
    (disk.putFiles files).node? place = some (.file (encode content)) := by
  induction files generalizing disk with
  | nil => cases h
  | cons file rest ih =>
    obtain ⟨hfresh, hdistinct⟩ := List.nodup_cons.mp hdistinct
    rcases List.mem_cons.mp h with rfl | h
    · exact (node?_putFiles_of_notMem hfresh).trans (node?_put_self hplace disk _)
    · exact ih hdistinct h

theorem readAt_of_node? {content : Text} (h : disk.node? place = some (.file (encode content))) :
    disk.readAt place = .ok content := by
  simp [readAt, h]

/-! ## 6. Directories -/

end Disk

/-- A name that is found leads to the text of the file. -/
theorem Search.reader_of_find? {disk : Disk} {dirs : List Place} {name text : Text} {place : Place}
    (hname : find? disk dirs name = some place) (htext : disk.readAt place = .ok text) :
    reader disk dirs name = .ok text := by
  rw [reader, read, hname]
  dsimp only
  rw [htext]

end ShaderVariants
