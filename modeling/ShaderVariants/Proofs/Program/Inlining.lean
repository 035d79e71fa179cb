import ShaderVariants.Proofs.Program.Buffers
import ShaderVariants.Proofs.Text.Words

/-!
# Includes are read in place

A file can be put in place of the line that includes it (`Program.read_replace`).  Where a line
stands matters to no more than the messages about it (`Draft.Alike`), and what can be read above
some levels of includes can be read with more of them left (`Draft.exists_alike_of_readFile`).
-/

namespace ShaderVariants

/-- Whether other lines may follow a text: it is empty or ends with a line feed. -/
def Text.Ended (t : Text) : Prop :=
  t = [] ∨ t.getLast? = some '\n'

/-- The lines of a text and behind them those of what follows it. -/
theorem Text.lines_append_of_ended {s : Text} (hs : s.Ended) (t : Text) :
    lines (s ++ t) = lines s ++ lines t := by
  rcases hs with rfl | hs
  · simp
  · obtain ⟨front, rfl⟩ := List.getLast?_eq_some_iff.mp hs
    rw [List.append_assoc, List.singleton_append, lines_append_cons]

/-- The same files, but for the text of one of them. -/
def FileReader.replace (reader : FileReader) (file text : Text) : FileReader := fun name =>
  if name = file then .ok text else reader name

/-- Whether no file has a line that includes the given one. -/
def FileReader.NeverIncludes (reader : FileReader) (file : Text) : Prop :=
  ∀ other text, reader other = .ok text → ∀ line ∈ Text.lines text,
    (Line.ofText line).included? ≠ some file

theorem FileReader.mem_of_ofFiles {files : List (Text × Text)} {file text : Text}
    (h : ofFiles files file = .ok text) : (file, text) ∈ files := by
  rw [ofFiles] at h
  cases hlookup : files.lookup file with
  | none =>
    rw [hlookup] at h
    cases h
  | some found =>
    rw [hlookup] at h
    obtain rfl := Except.ok.inj h
    obtain ⟨front, back, heq, -⟩ := List.lookup_eq_some_iff.mp hlookup
    exact heq ▸ List.mem_append_right _ List.mem_cons_self

theorem FileReader.neverIncludes_ofFiles {files : List (Text × Text)} {file : Text}
    (h : ∀ entry ∈ files, ∀ line ∈ Text.lines entry.2, (Line.ofText line).included? ≠ some file) :
    (FileReader.ofFiles files).NeverIncludes file :=
  fun _ _ htext => h _ (mem_of_ofFiles htext)

namespace Draft

/-! ## 1. Changes that directives do not notice -/

/-- A change to a draft that leaves alone what its directives look at, and stays the same when they
change that. -/
structure Unnoticed (change : Draft → Draft) : Prop where
  mutators : ∀ draft, (change draft).mutators = draft.mutators
  instanceMutator : ∀ draft, (change draft).instanceMutator = draft.instanceMutator
  inputs : ∀ draft, (change draft).inputs = draft.inputs
  descriptorSet : ∀ draft, (change draft).descriptorSet = draft.descriptorSet
  addMutator : ∀ draft counts name values,
    (change draft).addMutator counts name values = change (draft.addMutator counts name values)
  addRewrite : ∀ draft rule, { change draft with rewrites := rule :: (change draft).rewrites } =
    change { draft with rewrites := rule :: draft.rewrites }
  setDescriptorSet : ∀ draft set,
    { change draft with descriptorSet := set } = change { draft with descriptorSet := set }

namespace Unnoticed

variable {change : Draft → Draft} (h : Unnoticed change) (draft : Draft)
include h

theorem instanceCounter? : (change draft).instanceCounter? = draft.instanceCounter? := by
  rw [Draft.instanceCounter?, Draft.instanceCounter?, h.mutators, h.instanceMutator]

theorem readMutator (tokens : List Text) :
    (change draft).readMutator tokens = (draft.readMutator tokens).map change := by
  unfold Draft.readMutator declareMutator
  simp only [h.mutators, h.instanceCounter?, h.addMutator]
  split
  · rfl
  split
  · rfl
  split
  · rfl
  split
  · rfl
  split
  · rfl
  · rfl

theorem readRewrite (tokens : List Text) :
    (change draft).readRewrite tokens = (draft.readRewrite tokens).map change := by
  have hrule : readRule (change draft).mutators tokens = readRule draft.mutators tokens := by
    rw [h.mutators]
  rw [Draft.readRewrite, Draft.readRewrite, hrule]
  split
  · rfl
  · exact congrArg Except.ok (h.addRewrite draft _)

/-- An input is code as well, which the change has to let pass. -/
theorem readInput
    (hadd : ∀ constant instanced type name,
      (change draft).addInput constant instanced type name =
        change (draft.addInput constant instanced type name)) (tokens : List Text) :
    (change draft).readInput tokens = (draft.readInput tokens).map change := by
  have hconflict : ∀ constant instanced type,
      (change draft).conflict? constant instanced type =
        draft.conflict? constant instanced type := fun constant instanced type => by
    rw [conflict?, conflict?, h.instanceCounter?]
  unfold Draft.readInput declareInput
  simp only [h.inputs, hconflict, hadd]
  split
  · rfl
  · split
    · rfl
    split
    · rfl
    split
    · rfl
    split
    · rfl
    split
    · rfl
    · rfl
  · rfl

theorem readDescriptorSet (tokens : List Text) :
    (change draft).readDescriptorSet tokens = (draft.readDescriptorSet tokens).map change := by
  unfold Draft.readDescriptorSet
  simp only [h.descriptorSet, h.setDescriptorSet]
  split
  · rfl
  split
  · split
    · rfl
    · rfl
  · rfl

end Unnoticed

/-! ## 2. Stage blocks opened elsewhere -/

/-- The same declarations, with a stage block that was opened elsewhere. -/
def withBlock (draft : Draft) (openStage : Option OpenStage) : Draft :=
  { draft with openStage := openStage }

/-- Two drafts that differ at most in where their stage block was opened. -/
def Alike (draft other : Draft) : Prop :=
  ∃ opened : Option OpenStage,
    opened.map OpenStage.stage = draft.block ∧ other = draft.withBlock opened

namespace Alike

theorem refl (draft : Draft) : draft.Alike draft :=
  ⟨draft.openStage, rfl, rfl⟩

theorem once_eq {draft other : Draft} (h : draft.Alike other) : other.once = draft.once := by
  obtain ⟨opened, -, rfl⟩ := h
  rfl

/-- Outside of all stage blocks there is nothing left to differ in. -/
theorem eq_of_none {draft other : Draft} (h : draft.Alike other)
    (hnone : draft.openStage = none) : other = draft := by
  obtain ⟨opened, hblock, rfl⟩ := h
  rw [block, hnone, Option.map_none, Option.map_eq_none_iff] at hblock
  rw [withBlock, hblock, ← hnone]

theorem markOnce {draft other : Draft} (h : draft.Alike other) (file : Text) :
    (draft.markOnce file).Alike (other.markOnce file) := by
  obtain ⟨opened, hblock, rfl⟩ := h
  exact ⟨opened, hblock, rfl⟩

end Alike

section

variable {draft : Draft} {opened : Option OpenStage}

/-- A line of code goes by the stage of the block, not by the place where it was opened. -/
theorem pushCode_withBlock (h : opened.map OpenStage.stage = draft.block) (line : Text) :
    (draft.withBlock opened).pushCode line = (draft.pushCode line).withBlock opened := by
  rw [block] at h
  rw [pushCode, pushCode]
  cases hopen : draft.openStage with
  | none =>
    rw [hopen, Option.map_none, Option.map_eq_none_iff] at h
    rw [h]
    rfl
  | some there =>
    rw [hopen] at h
    cases opened with
    | none => cases h
    | some here =>
      have hstage : here.stage = there.stage := Option.some.inj h
      simp only [withBlock, hstage]

theorem addInput_withBlock (h : opened.map OpenStage.stage = draft.block)
    (constant instanced : Bool) (type : DataType) (name : Text) :
    (draft.withBlock opened).addInput constant instanced type name =
      (draft.addInput constant instanced type name).withBlock opened := by
  have htwo : ∀ declared other : Draft, declared.block = draft.block →
      other = declared.withBlock opened → ∀ first second,
        (other.pushCode first).pushCode second =
          ((declared.pushCode first).pushCode second).withBlock opened := by
    rintro declared _ hdeclared rfl first second
    rw [pushCode_withBlock (h.trans hdeclared.symm),
      pushCode_withBlock (h.trans (hdeclared.symm.trans (block_pushCode declared first).symm))]
  unfold addInput
  dsimp only
  refine htwo _ _ ?_ ?_ _ _
  · rfl
  · rfl

/-! ## 3. Directives -/

theorem unnoticed_withBlock (opened : Option OpenStage) :
    Unnoticed fun draft => draft.withBlock opened :=
  ⟨fun _ => rfl, fun _ => rfl, fun _ => rfl, fun _ => rfl, fun _ _ _ _ => rfl, fun _ _ => rfl,
    fun _ _ => rfl⟩

/-- Whether a stage block may be opened depends on the stage of the one that is open. -/
theorem startFault?_withBlock (h : opened.map OpenStage.stage = draft.block) (stage : Stage) :
    (draft.withBlock opened).startFault? stage = draft.startFault? stage := by
  rw [block] at h
  rw [startFault?, startFault?]
  cases hopen : draft.openStage with
  | none =>
    rw [hopen, Option.map_none, Option.map_eq_none_iff] at h
    rw [h]
    rfl
  | some there =>
    rw [hopen] at h
    cases opened with
    | none => cases h
    | some here =>
      have hstage : here.stage = there.stage := Option.some.inj h
      simp only [withBlock, hstage]

end

/-- A directive is followed alike wherever it stands. -/
theorem Alike.follow {draft other next : Draft} {file : Text} {number : Nat} {tokens : List Text}
    (h : draft.Alike other) (hfollow : draft.follow file number tokens = .ok next) (file' : Text)
    (number' : Nat) :
    ∃ next', other.follow file' number' tokens = .ok next' ∧ next.Alike next' := by
  obtain ⟨opened, hblock, rfl⟩ := h
  -- All directives but `start` and `end` leave the block alone.
  have hmap : ∀ (read : Draft → Except Cause Draft),
      read (draft.withBlock opened) = (read draft).map (fun next => next.withBlock opened) →
      read draft = .ok next → next.block = draft.block →
      ∃ next', read (draft.withBlock opened) = .ok next' ∧ next.Alike next' := by
    intro read hread hnext hsame
    rw [hread, hnext]
    exact ⟨next.withBlock opened, rfl, opened, hblock.trans hsame.symm, rfl⟩
  rw [Draft.follow.eq_def] at hfollow ⊢
  split at hfollow
  · cases hfollow
  next word tokens =>
  split at hfollow
  next hword =>
    rw [if_pos hword]
    refine hmap (fun draft => draft.readMutator tokens)
      ((unnoticed_withBlock opened).readMutator draft tokens) hfollow ?_
    obtain ⟨counts, name, values, -, rfl⟩ := exists_of_readMutator hfollow
    rfl
  next hword =>
  rw [if_neg hword]
  split at hfollow
  next hword =>
    rw [if_pos hword]
    refine hmap (fun draft => draft.readRewrite tokens)
      ((unnoticed_withBlock opened).readRewrite draft tokens) hfollow ?_
    obtain ⟨rule, -, -, rfl⟩ := exists_of_readRewrite hfollow
    rfl
  next hword =>
  rw [if_neg hword]
  split at hfollow
  next hword =>
    rw [if_pos hword]
    refine hmap (fun draft => draft.readInput tokens)
      ((unnoticed_withBlock opened).readInput draft (addInput_withBlock hblock) tokens) hfollow ?_
    obtain ⟨constant, instanced, typeName, name, type, -, -, rfl⟩ := exists_of_readInput hfollow
    exact block_addInput draft constant instanced type name
  next hword =>
  rw [if_neg hword]
  split at hfollow
  next hword =>
    rw [if_pos hword]
    obtain ⟨name, stage, rfl, hstage, hfree, rfl⟩ := exists_of_readStart hfollow
    rw [readStart, hstage]
    dsimp only
    rw [startFault?_withBlock hblock, hfree]
    exact ⟨_, rfl, some ⟨stage, file', number'⟩, rfl, rfl⟩
  next hword =>
  rw [if_neg hword]
  split at hfollow
  next hword =>
    rw [if_pos hword]
    obtain ⟨hopen, rfl⟩ := eq_of_readEnd hfollow
    have hopened : (draft.withBlock opened).openStage.isNone = false := by
      have hsome : (opened.map OpenStage.stage).isSome = true := by
        rw [hblock, block, Option.isSome_map]
        exact Option.isSome_iff_ne_none.mpr hopen
      rw [Option.isSome_map] at hsome
      exact Option.isNone_eq_false_iff.mpr hsome
    rw [readEnd] at hfollow ⊢
    split at hfollow
    · cases hfollow
    next hform =>
    rw [if_neg hform, hopened, if_neg Bool.false_ne_true]
    exact ⟨_, rfl, none, rfl, rfl⟩
  next hword =>
  rw [if_neg hword]
  split at hfollow
  next hword =>
    rw [if_pos hword]
    refine hmap (fun draft => draft.readDescriptorSet tokens)
      ((unnoticed_withBlock opened).readDescriptorSet draft tokens) hfollow ?_
    obtain ⟨set, -, -, rfl⟩ := exists_of_readDescriptorSet hfollow
    rfl
  · cases hfollow

/-! ## 4. Files -/

section

variable {enter enter' : (line : Nat) → (name : Text) → Draft → Except ParseError Draft}
  {root file file' : Text} {seenOnce seenOnce' : Bool} {lines : List Text}

/-- Includes of other files than the root come to the same, wherever they stand. -/
def EntersAlike (root : Text)
    (enter enter' : (line : Nat) → (name : Text) → Draft → Except ParseError Draft) : Prop :=
  ∀ (name : Text) (number number' : Nat) (draft draft' next : Draft), name ≠ root →
    draft.Alike draft' → enter number name draft = .ok next →
      ∃ next', enter' number' name draft' = .ok next' ∧ next.Alike next'

/-- Lines are read alike at another place, if the files that they include are.  Only the line that
bars a file from being read again takes note of the file that it stands in. -/
theorem exists_alike_of_readLines {number number' : Nat} {draft other last : Draft}
    (henter : EntersAlike root enter enter')
    (hlines : ∀ line ∈ lines, (Line.ofText line).included? ≠ some root)
    (honce : hasOnce lines = false ∨ file' = file ∧ seenOnce' = seenOnce)
    (h : draft.Alike other) (hread : readLines enter file number seenOnce lines draft = .ok last) :
    ∃ last', readLines enter' file' number' seenOnce' lines other = .ok last' ∧
      last.Alike last' := by
  induction lines generalizing number number' seenOnce seenOnce' draft other with
  | nil => exact ⟨other, rfl, Except.ok.inj hread ▸ h⟩
  | cons line rest ih =>
    obtain ⟨next, hnext, hread⟩ := exists_of_readLines_cons hread
    obtain ⟨hfirst, hrest⟩ := List.forall_mem_cons.mp hlines
    have hline : ∃ next', readLine enter' file' number' seenOnce' line other = .ok next' ∧
        next.Alike next' := by
      rw [readLine] at hnext ⊢
      cases hkind : Line.ofText line with
      | fileInclude tokens =>
        rw [hkind] at hnext hfirst
        dsimp only [Line.included?] at hnext hfirst ⊢
        cases htarget : Include.target tokens with
        | error cause =>
          rw [htarget] at hnext
          cases hnext
        | ok name =>
          rw [htarget] at hnext hfirst
          exact henter name number number' draft other next (fun heq => hfirst (heq ▸ rfl)) h hnext
      | once =>
        rw [hkind] at hnext
        rcases honce with honce | ⟨rfl, rfl⟩
        · simp [hasOnce, hkind, Line.isOnce] at honce
        · dsimp only at hnext ⊢
          split at hnext
          · cases hnext
          next hseen =>
            rw [if_neg hseen]
            exact ⟨_, rfl, Except.ok.inj hnext ▸ h.markOnce file'⟩
      | onceWithArguments =>
        rw [hkind] at hnext
        cases hnext
      | anki tokens =>
        rw [hkind] at hnext
        dsimp only at hnext ⊢
        cases hfollow : draft.follow file number tokens with
        | error cause =>
          rw [hfollow] at hnext
          cases hnext
        | ok followed =>
          rw [hfollow] at hnext
          obtain rfl := Except.ok.inj hnext
          obtain ⟨next', hnext', halike⟩ := h.follow hfollow file' number'
          rw [hnext']
          exact ⟨next', rfl, halike⟩
      | code =>
        rw [hkind] at hnext
        obtain ⟨opened, hblock, rfl⟩ := h
        obtain rfl := Except.ok.inj hnext
        refine ⟨_, rfl, opened, ?_, pushCode_withBlock hblock line⟩
        rw [block_pushCode, hblock]
    obtain ⟨next', hnext', halike⟩ := hline
    rw [readLines_cons, hnext']
    refine ih hrest ?_ halike hread
    rcases honce with honce | ⟨rfl, rfl⟩
    · rw [hasOnce, List.any_cons, Bool.or_eq_false_iff] at honce
      exact Or.inl honce.2
    · exact Or.inr ⟨rfl, rfl⟩

/-- Reading lines bars no file but their own, and that only by the line for it. -/
theorem notMem_once_of_readLines {number : Nat} {draft last : Draft} {name : Text}
    (henter : ∀ number other (draft next : Draft), enter number other draft = .ok next →
      name ∉ draft.once → name ∉ next.once)
    (hlines : file = name → hasOnce lines = false)
    (hread : readLines enter file number seenOnce lines draft = .ok last)
    (h : name ∉ draft.once) : name ∉ last.once := by
  induction lines generalizing number seenOnce draft with
  | nil => exact Except.ok.inj hread ▸ h
  | cons line rest ih =>
    obtain ⟨next, hnext, hread⟩ := exists_of_readLines_cons hread
    refine ih (fun hfile => ?_) hread ?_
    · have hboth := hlines hfile
      rw [hasOnce, List.any_cons, Bool.or_eq_false_iff] at hboth
      exact hboth.2
    · cases lineRead_of_readLine hnext with
      | entered names entered => exact henter _ _ _ _ entered h
      | once kind =>
        intro hmem
        rcases List.mem_cons.mp hmem with rfl | hmem
        · simpa [hasOnce, kind, Line.isOnce] using hlines rfl
        · exact h hmem
      | follow kind followed => rwa [once_of_follow followed]
      | code kind => rwa [once_pushCode]

end

section

variable {reader other : FileReader} {root : Text}

/-- Files come to the same with other room for includes and for other files. -/
def ReadsAlike (reader other : FileReader) (room room' : Nat) : Prop :=
  ∀ (file text : Text) (draft draft' last : Draft), reader file = .ok text → draft.Alike draft' →
    readFile reader room file text draft = .ok last →
      ∃ last', readFile other room' file text draft' = .ok last' ∧ last.Alike last'

theorem entersAlike_of_readsAlike {room room' : Nat}
    (hother : ∀ name, name ≠ root → other name = reader name) (hroom : room ≤ room')
    (hbelow : ∀ below below', below < room → below ≤ below' → ReadsAlike reader other below below')
    (file file' : Text) :
    EntersAlike root (enter reader room file) (enter other room' file') := by
  intro name number number' draft draft' next hname h henter
  rw [enter, Include.resolve.eq_def, h.once_eq]
  obtain ⟨honce, rfl⟩ | ⟨honce, below, included, rfl, hincluded, hread⟩ := cases_of_enter henter
  · rw [if_pos (List.contains_iff_mem.mpr honce)]
    exact ⟨draft', rfl, h⟩
  · rw [if_neg (mt List.contains_iff_mem.mp honce)]
    obtain ⟨below', rfl⟩ : ∃ below', room' = below' + 1 := ⟨room' - 1, by omega⟩
    dsimp only
    rw [hother name hname, hincluded]
    exact hbelow below below' (by omega) (by omega) name included draft draft' next hincluded h
      hread

/-- With more room files come to the same, whatever the root is that none of them includes. -/
theorem readsAlike_of_le (hother : ∀ name, name ≠ root → other name = reader name)
    (hfree : reader.NeverIncludes root) {room room' : Nat} (hroom : room ≤ room') :
    ReadsAlike reader other room room' := by
  -- By induction on the room: what a file includes is read with less of it.
  induction room using Nat.strongRecOn generalizing room' with
  | ind room ih =>
    intro file text draft draft' last hfile h hread
    rw [readFile_eq] at hread ⊢
    exact exists_alike_of_readLines
      (entersAlike_of_readsAlike hother hroom (fun below below' hlt hle => ih below hlt hle) file
        file)
      (hfree file text hfile) (Or.inr ⟨rfl, rfl⟩) h hread

theorem entersAlike_of_le (hother : ∀ name, name ≠ root → other name = reader name)
    (hfree : reader.NeverIncludes root) {room room' : Nat} (hroom : room ≤ room')
    (file file' : Text) :
    EntersAlike root (enter reader room file) (enter other room' file') :=
  entersAlike_of_readsAlike hother hroom
    (fun _ _ _ hle => readsAlike_of_le hother hfree hle) file file'

/-- Reading bars no file whose text does not ask for it. -/
theorem notMem_once_of_readFile {name : Text}
    (hname : ∀ text, reader name = .ok text → hasOnce (Text.lines text) = false) {room : Nat}
    {file text : Text} {draft last : Draft} (hfile : reader file = .ok text)
    (hread : readFile reader room file text draft = .ok last) (h : name ∉ draft.once) :
    name ∉ last.once := by
  induction room using Nat.strongRecOn generalizing file text draft last with
  | ind room ih =>
    rw [readFile_eq] at hread
    refine notMem_once_of_readLines ?_ (fun heq => hname text (heq ▸ hfile)) hread h
    intro number other draft next henter hdraft
    obtain ⟨-, rfl⟩ | ⟨-, below, included, rfl, hincluded, hread⟩ := cases_of_enter henter
    · exact hdraft
    · exact ih below (Nat.lt_succ_self below) hincluded hread hdraft

/-- What an include line comes to, the lines of the file come to in its place. -/
theorem exists_alike_of_include (hother : ∀ name, name ≠ root → other name = reader name)
    (hfree : reader.NeverIncludes root) {room number number' : Nat} {seenOnce seenOnce' : Bool}
    {line name included : Text} {draft draft' next : Draft}
    (hname : (Line.ofText line).included? = some name) (hincluded : reader name = .ok included)
    (honce : hasOnce (Text.lines included) = false) (hbarred : name ∉ draft.once)
    (h : draft.Alike draft')
    (hread : readLine (enter reader room root) root number seenOnce line draft = .ok next) :
    ∃ next', readLines (enter other room root) root number' seenOnce' (Text.lines included)
        draft' = .ok next' ∧ next.Alike next' := by
  rw [readLine_of_included? hname] at hread
  obtain ⟨hmem, -⟩ | ⟨-, below, text, rfl, htext, hfile⟩ := cases_of_enter hread
  · exact absurd hmem hbarred
  obtain rfl : included = text := Except.ok.inj (hincluded.symm.trans htext)
  rw [readFile_eq] at hfile
  exact exists_alike_of_readLines (entersAlike_of_le hother hfree (Nat.le_succ below) name root)
    (hfree name included hincluded) (Or.inl honce) h hfile

/-- The lines of the root, with those of a file in place of the line that includes it. -/
theorem exists_alike_of_inline (hother : ∀ name, name ≠ root → other name = reader name)
    (hfree : reader.NeverIncludes root) {room : Nat} {text name included line : Text}
    {before after : List Text} {last : Draft} (hroot : reader root = .ok text)
    (htext : Text.lines text = before ++ line :: after)
    (hname : (Line.ofText line).included? = some name) (hincluded : reader name = .ok included)
    (honce : hasOnce (Text.lines included) = false)
    (hread : readFile reader room root text .empty = .ok last) :
    ∃ last', readLines (enter other room root) root 1 false
        (before ++ (Text.lines included ++ after)) .empty = .ok last' ∧ last.Alike last' := by
  have henter := entersAlike_of_le hother hfree (Nat.le_refl room) root root
  have hlines := hfree root text hroot
  rw [htext] at hlines
  obtain ⟨hbefore, hafter⟩ := List.forall_mem_append.mp hlines
  obtain ⟨hline, hafter⟩ := List.forall_mem_cons.mp hafter
  rw [readFile_eq, htext, readLines_append] at hread
  rw [readLines_append]
  split at hread
  · cases hread
  next first hfirst =>
  obtain ⟨second, hsecond, hread⟩ := exists_of_readLines_cons hread
  -- First come the lines in front of the include, in the same place as before.
  obtain ⟨first', hfirst', halike⟩ := exists_alike_of_readLines henter hbefore
    (Or.inr ⟨rfl, rfl⟩) (Alike.refl .empty) hfirst
  rw [hfirst']
  dsimp only
  rw [readLines_append]
  have hbarred : name ∉ first.once := by
    have hempty : name ∉ Draft.empty.once := List.not_mem_nil
    refine notMem_once_of_readLines ?_ (fun heq => absurd hname (heq ▸ hline)) hfirst hempty
    intro number other draft next henter hdraft
    obtain ⟨-, rfl⟩ | ⟨-, below, text, rfl, htext, hread⟩ := cases_of_enter henter
    · exact hdraft
    · refine notMem_once_of_readFile (fun text htext => ?_) htext hread hdraft
      obtain rfl : included = text := Except.ok.inj (hincluded.symm.trans htext)
      exact honce
  obtain ⟨second', hsecond', halike⟩ := exists_alike_of_include hother hfree hname hincluded honce
    hbarred halike hsecond
  rw [hsecond']
  dsimp only
  -- Neither the include nor the file bars the root, so the rest is read as before.
  rw [Line.isOnce_of_included? hname, Bool.or_false] at hread
  rw [honce, Bool.or_false]
  exact exists_alike_of_readLines henter hafter (Or.inr ⟨rfl, rfl⟩) halike hread

end

/-- A file that ends outside of all stage blocks leaves the same program behind, wherever the
blocks were opened. -/
theorem Alike.finish {draft other : Draft} {settings : Settings} {fileName : Text}
    {lastLine lastLine' : Nat} {program : Program} (h : draft.Alike other)
    (hfinish : draft.finish fileName lastLine settings = .ok program) :
    other.finish fileName lastLine' settings = .ok program := by
  have hprogram := finish_eq_ok_iff.mp hfinish
  rw [h.eq_of_none hprogram.1]
  exact finish_eq_ok_iff.mpr hprogram

end Draft

/-! ## 5. Programs -/

namespace Program

/-- A file can be put in place of the line that includes it, if it does not bar itself from being
read again and if its last line is ended; the program stays the same.  No file may include the
root, whose text is another one then. -/
theorem read_replace {reader : FileReader} {settings : Settings}
    {root name before piece line after included : Text} {program : Program}
    (hroot : reader root = .ok (before ++ (piece ++ after))) (hbefore : before.Ended)
    (hpiece : Text.lines piece = [line]) (hended : piece.Ended ∨ after = [])
    (hname : (Line.ofText line).included? = some name) (hincluded : reader name = .ok included)
    (hwhole : included.Ended) (honce : hasOnce (Text.lines included) = false)
    (hfree : reader.NeverIncludes root)
    (hread : Program.read reader settings root = .ok program) :
    Program.read (reader.replace root (before ++ (included ++ after))) settings root =
      .ok program := by
  have hlines : Text.lines (before ++ (piece ++ after)) =
      Text.lines before ++ line :: Text.lines after := by
    rw [Text.lines_append_of_ended hbefore]
    rcases hended with hended | rfl
    · rw [Text.lines_append_of_ended hended, hpiece, List.singleton_append]
    · rw [List.append_nil, hpiece, Text.lines_nil]
  have hlines' : Text.lines (before ++ (included ++ after)) =
      Text.lines before ++ (Text.lines included ++ Text.lines after) := by
    rw [Text.lines_append_of_ended hbefore, Text.lines_append_of_ended hwhole]
  have hother : ∀ other, other ≠ root →
      reader.replace root (before ++ (included ++ after)) other = reader other :=
    fun other hne => if_neg hne
  have hself : reader.replace root (before ++ (included ++ after)) root =
      .ok (before ++ (included ++ after)) := if_pos rfl
  rw [Program.read, hroot] at hread
  dsimp only at hread
  split at hread
  · cases hread
  next draft hdraft =>
  obtain ⟨draft', hdraft', halike⟩ := Draft.exists_alike_of_inline hother hfree hroot hlines hname
    hincluded honce hdraft
  rw [Program.read, hself]
  dsimp only
  rw [Draft.readFile_eq, hlines', hdraft']
  exact halike.finish hread

/-- A root that includes a file inside of a stage block; the file includes another one, which bars
itself and includes the first one in turn. -/
def easelFiles : List (Text × Text) :=
  [("easel".toList,
    Text.unlines ["#pragma once".toList, "#pragma anki start frag".toList] ++
      ("#include \"brush\"\r\n".toList ++
        Text.unlines ["#pragma anki input Vec3 tint".toList, "#pragma anki end".toList,
          "#include <paint>".toList])),
   ("brush".toList,
    Text.unlines ["#include \"paint\"".toList, "float stroke();".toList]),
   ("paint".toList,
    Text.unlines ["#pragma once".toList, "#include <brush>".toList, "vec3 tone();".toList])]

theorem read_replace_easel :
    (∀ entry ∈ easelFiles, ∀ line ∈ Text.lines entry.2,
        (Line.ofText line).included? ≠ some "easel".toList) ∧
      ∃ program, Program.read (.ofFiles easelFiles) .default "easel".toList = .ok program ∧
        program.stageCode.get .fragment =
          ["float stroke();".toList, "vec3 tone();".toList, "float stroke();".toList,
           "#define _ANKI_INPUT_SITE_tint".toList, "#define tint _anki_unis._m_tint".toList] ∧
        Program.read
          ((FileReader.ofFiles easelFiles).replace "easel".toList
            (Text.unlines ["#pragma once".toList, "#pragma anki start frag".toList] ++
              (Text.unlines ["#include \"paint\"".toList, "float stroke();".toList] ++
                Text.unlines ["#pragma anki input Vec3 tint".toList, "#pragma anki end".toList,
                  "#include <paint>".toList])))
          .default "easel".toList = .ok program := by
  have hfree : ∀ entry ∈ easelFiles, ∀ line ∈ Text.lines entry.2,
      (Line.ofText line).included? ≠ some "easel".toList := by
    -- A literal is spelled out once, in the goal, and not wherever the evaluation looks at it.
    unfold easelFiles
    repeat rewrite [String.toList_ofList]
    decide +kernel
  have hpiece : Text.lines "#include \"brush\"\r\n".toList = ["#include \"brush\"".toList] := by
    decide
  have hname : (Line.ofText "#include \"brush\"".toList).included? = some "brush".toList := by
    decide +kernel
  have hcode : (Program.read (.ofFiles easelFiles) .default "easel".toList).map
      (fun program => program.stageCode.get .fragment) =
        .ok ["float stroke();".toList, "vec3 tone();".toList, "float stroke();".toList,
          "#define _ANKI_INPUT_SITE_tint".toList, "#define tint _anki_unis._m_tint".toList] := by
    unfold easelFiles
    repeat rewrite [String.toList_ofList]
    decide +kernel
  cases hread : Program.read (.ofFiles easelFiles) .default "easel".toList with
  | error e =>
    rw [hread] at hcode
    cases hcode
  | ok program =>
    rw [hread] at hcode
    refine ⟨hfree, program, rfl, Except.ok.inj hcode, ?_⟩
    exact read_replace rfl (Or.inr (by decide)) hpiece
      (Or.inl (Or.inr (by decide))) hname rfl (Or.inr (by decide))
      (by decide) (FileReader.neverIncludes_ofFiles hfree) hread

end Program

end ShaderVariants
