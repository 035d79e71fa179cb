import ShaderVariants.Disk.Basic
import ShaderVariants.Include

/-!
# Search directories

Files are looked up by name in several directories, the first match winning.  A name is joined to a
directory without looking at the disk: two dots take the last name away, whatever it is.
-/

namespace ShaderVariants

/-- Why a file was not read. -/
inductive SearchFault where
  /-- None of the directories holds the file. -/
  | nowhere (dirs : List Place)
  /-- The file that was found cannot be read. -/
  | unreadable (fault : DiskFault)
  deriving Repr, DecidableEq

namespace SearchFault

def fault : SearchFault → DiskFault
  | .nowhere _ => .notFound
  | .unreadable fault => fault

def message : SearchFault → Text
  | .nowhere dirs =>
    "not found in any of ".toList ++
      List.intercalate ", ".toList (dirs.map fun dir => '\'' :: dir.toText ++ ['\''])
  | .unreadable .invalidData => "stream did not contain valid UTF-8".toList
  | .unreadable fault => fault.message.toList

end SearchFault

namespace Search

def places (disk : Disk) (known : List Place) : List Text → Except DiskFault (List Place)
  | [] => .ok known
  | t :: rest =>
    match disk.resolve t with
    | .error fault => .error fault
    | .ok place => places disk (if known.contains place then known else known ++ [place]) rest

/-- Goes one segment on without looking at the disk. -/
def step (place : Place) (segment : Text) : Place :=
  if Path.isIdle segment then place
  else if segment = Path.up then place.dropLast
  else place ++ [segment]

def locate (dir : Place) (name : Text) : Place :=
  (Path.segments name).foldl step dir

def find? (disk : Disk) (dirs : List Place) (name : Text) : Option Place :=
  (dirs.map fun dir => locate dir name).find? disk.isFile

def read (disk : Disk) (dirs : List Place) (name : Text) : Except SearchFault Text :=
  match find? disk dirs name with
  | none => .error (.nowhere dirs)
  | some place =>
    match disk.readAt place with
    | .ok t => .ok t
    | .error fault => .error (.unreadable fault)

/-- Where a program's files come from when they are looked up in directories. -/
def reader (disk : Disk) (dirs : List Place) : FileReader := fun name =>
  match read disk dirs name with
  | .ok t => .ok t
  | .error fault => .error fault.message

theorem places_nodup {disk : Disk} {known places' : List Place} {paths : List Text}
    (hk : known.Nodup) (h : places disk known paths = .ok places') : places'.Nodup := by
  induction paths generalizing known with
  | nil =>
    rw [places] at h
    exact Except.ok.inj h ▸ hk
  | cons t rest ih =>
    rw [places] at h
    split at h
    · cases h
    · next place _ =>
      refine ih ?_ h
      split
      · exact hk
      · next hc =>
        refine List.nodup_append.mpr ⟨hk, by simp, ?_⟩
        rintro a ha b hb rfl
        exact hc (by simpa using (List.mem_singleton.mp hb) ▸ ha)

end Search

end ShaderVariants
