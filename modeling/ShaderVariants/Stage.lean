import ShaderVariants.Text.Basic

/-!
# Shader stages

The six stages in pipeline order, values kept per stage, and sets of stages.  A set is a word of
six bits; `mem_insert`, `mem_erase` and their companions say what each operation does to
membership, and `toList` lists the members in pipeline order.
-/

namespace ShaderVariants

/-! ## 1. Stages -/

/-- A shading stage. -/
inductive Stage where
  | vertex
  | tessControl
  | tessEvaluation
  | geometry
  | fragment
  | compute
  deriving Repr, DecidableEq

namespace Stage

def all : List Stage :=
  [.vertex, .tessControl, .tessEvaluation, .geometry, .fragment, .compute]

@[simp] theorem mem_all (stage : Stage) : stage ∈ all := by
  cases stage <;> decide

theorem all_nodup : all.Nodup := by
  decide

/-- The place of a stage in the pipeline. -/
def index : Stage → Nat
  | .vertex => 0
  | .tessControl => 1
  | .tessEvaluation => 2
  | .geometry => 3
  | .fragment => 4
  | .compute => 5

theorem index_lt (stage : Stage) : stage.index < 6 := by
  cases stage <;> decide

theorem index_inj {a b : Stage} : a.index = b.index ↔ a = b := by
  cases a <;> cases b <;> decide

/-- The short name of a stage: it opens a stage block and ends the name of a source file. -/
def name : Stage → Text
  | .vertex => "vert".toList
  | .tessControl => "tessc".toList
  | .tessEvaluation => "tesse".toList
  | .geometry => "geom".toList
  | .fragment => "frag".toList
  | .compute => "comp".toList

def ofName? (name : Text) : Option Stage :=
  all.find? fun stage => stage.name == name

@[simp] theorem ofName?_name (stage : Stage) : ofName? stage.name = some stage := by
  cases stage <;> decide

def title : Stage → String
  | .vertex => "Vertex"
  | .tessControl => "TessellationControl"
  | .tessEvaluation => "TessellationEvaluation"
  | .geometry => "Geometry"
  | .fragment => "Fragment"
  | .compute => "Compute"

def key : Stage → Text
  | .vertex => "vertex".toList
  | .tessControl => "tessellation_control".toList
  | .tessEvaluation => "tessellation_evaluation".toList
  | .geometry => "geometry".toList
  | .fragment => "fragment".toList
  | .compute => "compute".toList

/-- The name that the header of this stage's source defines as `1`. -/
def define : Stage → Text
  | .vertex => "ANKI_VERTEX_SHADER".toList
  | .tessControl => "ANKI_TESSELLATION_CONTROL_SHADER".toList
  | .tessEvaluation => "ANKI_TESSELLATION_EVALUATION_SHADER".toList
  | .geometry => "ANKI_GEOMETRY_SHADER".toList
  | .fragment => "ANKI_FRAGMENT_SHADER".toList
  | .compute => "ANKI_COMPUTE_SHADER".toList

end Stage

/-! ## 2. One value for each stage -/

/-- A value for each stage. -/
structure PerStage (α : Type) where
  vertex : α
  tessControl : α
  tessEvaluation : α
  geometry : α
  fragment : α
  compute : α
  deriving Repr, DecidableEq

namespace PerStage

variable {α : Type}

def const (a : α) : PerStage α := ⟨a, a, a, a, a, a⟩

def get (values : PerStage α) : Stage → α
  | .vertex => values.vertex
  | .tessControl => values.tessControl
  | .tessEvaluation => values.tessEvaluation
  | .geometry => values.geometry
  | .fragment => values.fragment
  | .compute => values.compute

def modify (values : PerStage α) (stage : Stage) (f : α → α) : PerStage α :=
  match stage with
  | .vertex => { values with vertex := f values.vertex }
  | .tessControl => { values with tessControl := f values.tessControl }
  | .tessEvaluation => { values with tessEvaluation := f values.tessEvaluation }
  | .geometry => { values with geometry := f values.geometry }
  | .fragment => { values with fragment := f values.fragment }
  | .compute => { values with compute := f values.compute }

def map {β : Type} (f : α → β) (values : PerStage α) : PerStage β :=
  ⟨f values.vertex, f values.tessControl, f values.tessEvaluation, f values.geometry,
    f values.fragment, f values.compute⟩

@[simp] theorem get_map {β : Type} (f : α → β) (values : PerStage α) (stage : Stage) :
    (values.map f).get stage = f (values.get stage) := by
  cases stage <;> rfl

@[simp] theorem get_const (a : α) (stage : Stage) : (const a).get stage = a := by
  cases stage <;> rfl

@[simp] theorem get_modify_self (values : PerStage α) (stage : Stage) (f : α → α) :
    (values.modify stage f).get stage = f (values.get stage) := by
  cases stage <;> rfl

theorem get_modify_of_ne (values : PerStage α) {stage other : Stage} (f : α → α)
    (h : other ≠ stage) : (values.modify stage f).get other = values.get other := by
  cases stage <;> cases other <;> simp_all [get, modify]

@[ext] theorem ext_get {a b : PerStage α} (h : ∀ stage, a.get stage = b.get stage) : a = b := by
  cases a
  cases b
  have h0 := h .vertex
  have h1 := h .tessControl
  have h2 := h .tessEvaluation
  have h3 := h .geometry
  have h4 := h .fragment
  have h5 := h .compute
  simp only [get] at h0 h1 h2 h3 h4 h5
  simp [h0, h1, h2, h3, h4, h5]

end PerStage

/-! ## 3. Sets of stages -/

/-- A set of stages: the bit at a stage's index tells whether the stage is a member. -/
structure StageSet where
  bits : BitVec 6
  deriving Repr, DecidableEq

namespace StageSet

def empty : StageSet := ⟨0⟩

def singleton (stage : Stage) : StageSet := ⟨BitVec.twoPow 6 stage.index⟩

/-- The stages of a graphics pipeline: all but the compute stage. -/
def graphics : StageSet := ⟨0b011111⟩

def mem (set : StageSet) (stage : Stage) : Bool :=
  set.bits.getLsbD stage.index

def union (a b : StageSet) : StageSet := ⟨a.bits ||| b.bits⟩

def inter (a b : StageSet) : StageSet := ⟨a.bits &&& b.bits⟩

/-- The stages of the first set that are not in the second. -/
def diff (a b : StageSet) : StageSet := ⟨a.bits &&& ~~~b.bits⟩

def symmDiff (a b : StageSet) : StageSet := ⟨a.bits ^^^ b.bits⟩

/-- Whether every stage of the second set is in the first. -/
def includes (a b : StageSet) : Bool :=
  a.bits &&& b.bits == b.bits

def insert (set : StageSet) (stage : Stage) : StageSet :=
  set.union (singleton stage)

def isEmpty (set : StageSet) : Bool :=
  set.bits == 0

def toList (set : StageSet) : List Stage :=
  Stage.all.filter set.mem

@[simp] theorem mem_empty (stage : Stage) : empty.mem stage = false := by
  simp [empty, mem]

@[simp] theorem mem_singleton (a b : Stage) : (singleton a).mem b = decide (a = b) := by
  cases a <;> cases b <;> decide

@[simp] theorem mem_union (a b : StageSet) (stage : Stage) :
    (a.union b).mem stage = (a.mem stage || b.mem stage) := by
  simp [union, mem]

@[simp] theorem mem_inter (a b : StageSet) (stage : Stage) :
    (a.inter b).mem stage = (a.mem stage && b.mem stage) := by
  simp [inter, mem]

@[simp] theorem mem_diff (a b : StageSet) (stage : Stage) :
    (a.diff b).mem stage = (a.mem stage && !b.mem stage) := by
  simp [diff, mem, stage.index_lt]

@[simp] theorem mem_symmDiff (a b : StageSet) (stage : Stage) :
    (a.symmDiff b).mem stage = (a.mem stage ^^ b.mem stage) := by
  simp [symmDiff, mem]

@[simp] theorem mem_insert (set : StageSet) (a b : Stage) :
    (set.insert a).mem b = (set.mem b || decide (a = b)) := by
  simp [insert]

@[simp] theorem mem_toList {set : StageSet} {stage : Stage} :
    stage ∈ set.toList ↔ set.mem stage = true := by
  simp [toList]

theorem toList_nodup (set : StageSet) : set.toList.Nodup :=
  List.Pairwise.filter _ Stage.all_nodup

end StageSet

end ShaderVariants
