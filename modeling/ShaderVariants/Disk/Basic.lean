import Std.Data.TreeMap.Lemmas
import ShaderVariants.Disk.Path

/-!
# Disks

A tree of directories and files, and what can be done with it: finding the place that a path leads
to, reading a file, making directories and writing files.  Main facts: what was written is read
back, and writing leaves every other place alone.
-/

namespace ShaderVariants

/-! ## 1. Faults -/

/-- Why something cannot be done on a disk. -/
inductive DiskFault where
  | notFound
  | notADirectory
  | isADirectory
  | alreadyExists
  | invalidData
  | invalidInput
  | invalidFilename
  deriving Repr, DecidableEq

def DiskFault.message : DiskFault → String
  | .notFound => "io:NotFound"
  | .notADirectory => "io:NotADirectory"
  | .isADirectory => "io:IsADirectory"
  | .alreadyExists => "io:AlreadyExists"
  | .invalidData => "io:InvalidData"
  | .invalidInput => "io:InvalidInput"
  | .invalidFilename => "io:InvalidFilename"

/-! ## 2. Trees -/

/-- What stands at a place. -/
inductive Node where
  | directory
  | file (bytes : List UInt8)
  deriving DecidableEq

/-- A tree of directories and files, seen from one of its directories. -/
structure Disk where
  /-- The directory where paths start that do not start at the root. -/
  home : Place
  /-- What stands at each place except for the root. -/
  nodes : Std.TreeMap Place Node

namespace Disk

/-- What stands at a place.  The root is always a directory. -/
def node? (disk : Disk) (place : Place) : Option Node :=
  if place.isEmpty then some .directory else disk.nodes[place]?

def isDirectory (disk : Disk) (place : Place) : Bool :=
  match disk.node? place with
  | some .directory => true
  | _ => false

def isFile (disk : Disk) (place : Place) : Bool :=
  match disk.node? place with
  | some (.file _) => true
  | _ => false

def put (disk : Disk) (place : Place) (node : Node) : Disk :=
  { disk with nodes := disk.nodes.insert place node }

theorem node?_put_self {place : Place} (h : place ≠ []) (disk : Disk) (node : Node) :
    (disk.put place node).node? place = some node := by
  cases place with
  | nil => exact absurd rfl h
  | cons name names => simp [node?, put]

theorem node?_put_of_ne {place other : Place} (h : other ≠ place) (disk : Disk) (node : Node) :
    (disk.put place node).node? other = disk.node? other := by
  simp [node?, put, Std.TreeMap.getElem?_insert, h.symm]

/-! ## 3. Following paths -/

/-- The most bytes that a name can have. -/
def nameLimit : Nat := 255

/-- The most bytes that the path of something to be used can have. -/
def pathLimit : Nat := 4095

/-- Goes from a directory to what one segment names in it. -/
def enter (disk : Disk) (here : Place) (segment : Text) : Except DiskFault Place :=
  match disk.node? here with
  | none => .error .notFound
  | some (.file _) => .error .notADirectory
  | some .directory =>
    if Path.isIdle segment then .ok here
    else if segment = Path.up then .ok here.dropLast
    else if nameLimit < Text.byteCount segment then .error .invalidFilename
    else if (disk.node? (here ++ [segment])).isSome then .ok (here ++ [segment])
    else .error .notFound

def follow (disk : Disk) : (here : Place) → List Text → Except DiskFault Place
  | here, [] => .ok here
  | here, segment :: rest =>
    match disk.enter here segment with
    | .error fault => .error fault
    | .ok next => disk.follow next rest

def start (disk : Disk) (t : Text) : Except DiskFault Place :=
  if t.isEmpty then .error .notFound
  else if t.contains '\x00' then .error .invalidInput
  else if Path.isAbsolute t then .ok []
  else .ok disk.home

/-- The place that a path leads to.  The path is followed name by name, so it can be of any
length. -/
def resolve (disk : Disk) (t : Text) : Except DiskFault Place :=
  match disk.start t with
  | .error fault => .error fault
  | .ok here => disk.follow here (Path.segments t)

/-- Where a path starts that is used as a whole, and so cannot be of any length. -/
def startWhole (disk : Disk) (t : Text) : Except DiskFault Place :=
  match disk.start t with
  | .error fault => .error fault
  | .ok here => if pathLimit < Text.byteCount t then .error .invalidFilename else .ok here

/-- The place that a path leads to, for something to be done there. -/
def reach (disk : Disk) (t : Text) : Except DiskFault Place :=
  match disk.startWhole t with
  | .error fault => .error fault
  | .ok here => disk.follow here (Path.segments t)

/-- A path that is short enough reaches the place it leads to. -/
theorem reach_eq_resolve {t : Text} (h : Text.byteCount t ≤ pathLimit) (disk : Disk) :
    disk.reach t = disk.resolve t := by
  rw [reach, startWhole, resolve]
  cases disk.start t with
  | error fault => rfl
  | ok here => simp [Nat.not_lt.mpr h]

def leadsToDirectory (disk : Disk) (t : Text) : Bool :=
  match disk.reach t with
  | .ok place => disk.isDirectory place
  | .error _ => false

def leadsToFile (disk : Disk) (t : Text) : Bool :=
  match disk.reach t with
  | .ok place => disk.isFile place
  | .error _ => false

/-! ## 4. Reading -/

def encode (t : Text) : List UInt8 :=
  (String.ofList t).toUTF8.data.toList

def decode? (bytes : List UInt8) : Option Text :=
  (String.fromUTF8? ⟨bytes.toArray⟩).map String.toList

@[simp] theorem decode?_encode (t : Text) : decode? (encode t) = some t := by
  have h : String.fromUTF8? (String.ofList t).toUTF8 = some (String.ofList t) :=
    dif_pos (String.ofList t).isValidUTF8
  rw [decode?, encode, h, Option.map_some, String.toList_ofList]

def readAt (disk : Disk) (place : Place) : Except DiskFault Text :=
  match disk.node? place with
  | none => .error .notFound
  | some .directory => .error .isADirectory
  | some (.file bytes) =>
    match decode? bytes with
    | some t => .ok t
    | none => .error .invalidData

/-- The text of the file that a path leads to. -/
def read (disk : Disk) (t : Text) : Except DiskFault Text :=
  match disk.reach t with
  | .error fault => .error fault
  | .ok place => disk.readAt place

/-- The last step of a path. -/
structure LastStep where
  /-- The directory that the step starts from. -/
  directory : Place
  segment : Text
  /-- Whether a slash follows the segment. -/
  slash : Bool
  deriving Repr, DecidableEq

/-- The last step of a path, once everything before it has been followed. -/
def lastStep (disk : Disk) (t : Text) : Except DiskFault LastStep :=
  match disk.startWhole t with
  | .error fault => .error fault
  | .ok here =>
    let names := (Path.segments t).reverse.dropWhile List.isEmpty
    match disk.follow here ((names.drop 1).reverse ++ [[]]) with
    | .error fault => .error fault
    | .ok directory =>
      .ok ⟨directory, names.headD [], (Path.segments t).getLast? == some []⟩

def makeDirectory (disk : Disk) (t : Text) : Except DiskFault Disk :=
  match disk.lastStep t with
  | .error fault => .error fault
  | .ok step =>
    match disk.enter step.directory step.segment with
    | .ok _ => .error .alreadyExists
    | .error .notFound => .ok (disk.put (step.directory ++ [step.segment]) .directory)
    | .error fault => .error fault

/-- Makes the directory that a path names unless there is one. -/
def ensureDirectory (disk : Disk) (t : Text) : Except DiskFault Disk :=
  match disk.makeDirectory t with
  | .ok next => .ok next
  | .error fault => if disk.leadsToDirectory t then .ok disk else .error fault

def ensureDirectories (disk : Disk) : List Text → Disk × Option DiskFault
  | [] => (disk, none)
  | t :: rest =>
    match disk.ensureDirectory t with
    | .error fault => (disk, some fault)
    | .ok next => next.ensureDirectories rest

/-- The beginnings of a list that are neither empty nor all of it. -/
def beginnings {α : Type} : List α → List (List α)
  | [] => []
  | [_] => []
  | a :: b :: rest => [a] :: (beginnings (b :: rest)).map (a :: ·)

/-- The paths of the directories above what a path names, the outermost first. -/
def above (t : Text) : List Text :=
  let root : Text := if Path.isAbsolute t then ['/'] else []
  (beginnings ((Path.segments t).filter fun segment => !Path.isIdle segment)).map fun names =>
    root ++ List.intercalate ['/'] names

/-- Makes the directory that a path names and the missing ones above it. -/
def ensurePath (disk : Disk) (t : Text) : Disk × Option DiskFault :=
  if t.isEmpty then (disk, none)
  else
    match disk.makeDirectory t with
    | .error .notFound => disk.ensureDirectories (above t ++ [t])
    | _ => disk.ensureDirectories [t]

/-- Writes a file where a path leads, over the one that stands there. -/
def write (disk : Disk) (t content : Text) : Except DiskFault Disk :=
  match disk.lastStep t with
  | .error fault => .error fault
  | .ok step =>
    if step.slash then .error .isADirectory
    else
      match disk.enter step.directory step.segment with
      | .ok place =>
        if disk.isDirectory place then .error .isADirectory
        else .ok (disk.put place (.file (encode content)))
      | .error .notFound =>
        .ok (disk.put (step.directory ++ [step.segment]) (.file (encode content)))
      | .error fault => .error fault

/-! ## 6. Building -/

def addDirectory (disk : Disk) (place : Place) : Disk :=
  (beginnings place ++ [place]).foldl
    (fun disk place => if (disk.node? place).isSome then disk else disk.put place .directory) disk

def addFile (disk : Disk) (place : Place) (bytes : List UInt8) : Disk :=
  (disk.addDirectory place.dropLast).put place (.file bytes)

/-- A disk with nothing but the directory that paths start from. -/
def empty (home : Place) : Disk :=
  (Disk.mk home ∅).addDirectory home

/-- What a directory holds: the names in it. -/
def names (disk : Disk) (place : Place) : List Text :=
  disk.nodes.keys.filterMap fun other =>
    if other.dropLast = place then other.getLast? else none

end Disk

end ShaderVariants
