import ShaderVariants.Proofs.Program.Inlining
import ShaderVariants.Proofs.Program.Standing

/-!
# Programs of a single file

A file whose include lines are all passed over is read without looking at any other
(`Draft.readLines_eq_passOver`), and a program that opens no file but its root is read from such a
file (`Program.opensNothing_of_read`).
-/

namespace ShaderVariants

/-! ## 1. Lines that open nothing -/

/-- Whether no line of a file opens another: all that is included is the file itself, behind the
line that bars it. -/
def opensNothing (file : Text) : (barred : Bool) → List Text → Bool
  | _, [] => true
  | barred, line :: rest =>
    ((Line.ofText line).included?.all fun name => barred && name == file) &&
      opensNothing file (barred || (Line.ofText line).isOnce) rest

theorem opensNothing_append (file : Text) (barred : Bool) (lines more : List Text) :
    opensNothing file barred (lines ++ more) =
      (opensNothing file barred lines && opensNothing file (barred || hasOnce lines) more) := by
  induction lines generalizing barred with
  | nil => simp [opensNothing, hasOnce]
  | cons line rest ih =>
    simp only [List.cons_append, opensNothing, ih, hasOnce, List.any_cons, Bool.or_assoc,
      Bool.and_assoc]

theorem opensNothing_of_no_includes {lines : List Text} (file : Text) (barred : Bool)
    (h : ∀ line ∈ lines, (Line.ofText line).included? = none) :
    opensNothing file barred lines = true := by
  induction lines generalizing barred with
  | nil => rfl
  | cons line rest ih =>
    obtain ⟨hline, hrest⟩ := List.forall_mem_cons.mp h
    rw [opensNothing, hline, ih _ hrest]
    rfl

namespace Draft

variable {enter : (line : Nat) → (name : Text) → Draft → Except ParseError Draft}
  {reader : FileReader} {room number : Nat} {file line : Text} {barred : Bool} {lines : List Text}
  {draft next : Draft}

/-- A line that includes nothing is read the same whatever includes come to. -/
theorem readLine_of_no_include (h : (Line.ofText line).included? = none)
    (other : (line : Nat) → (name : Text) → Draft → Except ParseError Draft) :
    readLine enter file number barred line draft =
      readLine other file number barred line draft := by
  rw [readLine, readLine]
  cases hkind : Line.ofText line with
  | fileInclude tokens =>
    rw [hkind, Line.included?] at h
    dsimp only
    cases htarget : Include.target tokens with
    | error cause => rfl
    | ok name =>
      rw [htarget] at h
      cases h
  | once | onceWithArguments | anki | code => rfl

/-- A line that includes nothing bars no file but its own, and only if it is the line for it. -/
theorem once_of_readLine (h : (Line.ofText line).included? = none)
    (hread : readLine enter file number barred line draft = .ok next) :
    next.once = if (Line.ofText line).isOnce then file :: draft.once else draft.once := by
  cases lineRead_of_readLine hread with
  | entered names =>
    rw [h] at names
    cases names
  | once kind => simp [kind, Line.isOnce, markOnce]
  | follow kind followed => simp [kind, Line.isOnce, once_of_follow followed]
  | code kind => simp [kind, Line.isOnce, once_pushCode]

/-- What reading does with an include if it opens nothing. -/
def passOver (_number : Nat) (_name : Text) (draft : Draft) : Except ParseError Draft :=
  .ok draft

/-- Lines of a file that open nothing are read as if there were no other files. -/
theorem readLines_eq_passOver (h : opensNothing file barred lines = true)
    (hbarred : barred = true → file ∈ draft.once) :
    readLines (Draft.enter reader room file) file number barred lines draft =
      readLines passOver file number barred lines draft := by
  induction lines generalizing number barred draft with
  | nil => rfl
  | cons line rest ih =>
    rw [opensNothing, Bool.and_eq_true] at h
    obtain ⟨hline, hrest⟩ := h
    rw [readLines_cons, readLines_cons]
    cases hkind : (Line.ofText line).included? with
    | some name =>
      rw [hkind, Option.all_some, Bool.and_eq_true, beq_iff_eq] at hline
      obtain ⟨hseen, rfl⟩ := hline
      rw [readLine_of_included? hkind, readLine_of_included? hkind, Draft.enter,
        Include.resolve_of_mem (hbarred hseen), passOver]
      exact ih hrest fun _ => hbarred hseen
    | none =>
      rw [readLine_of_no_include hkind passOver]
      cases hnext : readLine passOver file number barred line draft with
      | error e => rfl
      | ok next =>
        refine ih hrest fun hseen => ?_
        -- Either the file was barred before, or by this line.
        rw [once_of_readLine hkind hnext]
        cases honce : (Line.ofText line).isOnce with
        | true => exact List.mem_cons_self
        | false =>
          rw [honce, Bool.or_false] at hseen
          exact hbarred hseen

/-- Includes that are passed over are passed over wherever they stand. -/
theorem entersAlike_passOver (root : Text) : EntersAlike root passOver passOver := by
  intro name number number' draft draft' next _ h hnext
  exact ⟨draft', rfl, Except.ok.inj hnext ▸ h⟩

end Draft

/-! ## 2. Programs that open no file but their root -/

namespace Program

/-- What happens in the rest of a file that reading stands in happens in the whole reading. -/
theorem Stands.mem_events {reader : FileReader} {root : Text} {depth : Nat} {file : Text}
    {before rest : List Text} {draft : Draft}
    (h : Stands reader root depth file before rest draft) {event : Event}
    (hevent : event ∈ Draft.restEvents reader depth file before rest draft) :
    event ∈ events reader root := by
  induction h with
  | root found =>
    rw [events_eq found]
    exact List.mem_cons_of_mem _ hevent
  | behind _ hline ih =>
    refine ih ?_
    rw [Draft.restEvents_cons, hline]
    exact List.mem_append_right _ hevent
  | inside _ names opened ih =>
    refine ih ?_
    rw [Draft.restEvents_cons, Draft.lineEvents_of_included names, Draft.entered_of_opened opened]
    exact List.mem_append_left _ (List.mem_cons_of_mem _ (List.mem_cons_of_mem _ hevent))

/-- A file that is entered at a line has been opened. -/
theorem Stands.opens_mem_events {reader : FileReader} {root : Text} {depth : Nat}
    {file line name text : Text} {before rest : List Text} {draft : Draft}
    (h : Stands reader root depth file before (line :: rest) draft)
    (names : (Line.ofText line).included? = some name)
    (opened : Include.resolve reader draft.once (Include.room (depth + 1)) name =
      .ok (some text)) : .opens name ∈ events reader root := by
  refine h.mem_events ?_
  rw [Draft.restEvents_cons, Draft.lineEvents_of_included names, Draft.entered_of_opened opened]
  exact List.mem_append_left _ (List.mem_cons_of_mem _ List.mem_cons_self)

section

variable {reader : FileReader} {settings : Settings} {root text : Text} {program : Program}
  (hread : read reader settings root = .ok program) (hroot : reader root = .ok text)
  (honly : ∀ name, .opens name ∈ events reader root → name = root)
include hread hroot honly

/-- Either the rest of the root opens nothing, or the root is entered once more below. -/
theorem opensNothing_or_deeper {depth : Nat} {before rest : List Text} {draft : Draft}
    (h : Stands reader root depth root before rest draft)
    (honce : ∀ file ∈ draft.once, file = root ∧ hasOnce before = true) :
    opensNothing root (hasOnce before) rest = true ∨
      ∃ draft, Stands reader root (depth + 1) root [] (Text.lines text) draft ∧
        draft.once = [] := by
  induction rest generalizing before draft with
  | nil => exact Or.inl rfl
  | cons line rest ih =>
    obtain ⟨next, hnext, hline⟩ := h.exists_behind hread
    -- A line that is behind opens nothing if those before and behind it do not.
    have hstep : ((Line.ofText line).included?.all fun name => hasOnce before && name == root) =
          true → (∀ file ∈ next.once, file = root ∧ hasOnce (before ++ [line]) = true) →
        opensNothing root (hasOnce before) (line :: rest) = true ∨
          ∃ draft, Stands reader root (depth + 1) root [] (Text.lines text) draft ∧
            draft.once = [] := by
      intro hpassed hnextOnce
      refine (ih hnext hnextOnce).imp_left fun hrest => ?_
      rw [opensNothing, hpassed, Bool.true_and, ← Draft.hasOnce_concat, hrest]
    cases hkind : (Line.ofText line).included? with
    | none =>
      refine hstep (by rw [hkind]; rfl) fun file hfile => ?_
      rw [Draft.once_of_readLine hkind hline] at hfile
      rw [Draft.hasOnce_concat]
      split at hfile
      next hisOnce =>
        rcases List.mem_cons.mp hfile with rfl | hfile
        · exact ⟨rfl, by rw [hisOnce, Bool.or_true]⟩
        · exact ⟨(honce file hfile).1, by rw [hisOnce, Bool.or_true]⟩
      · exact ⟨(honce file hfile).1, by rw [(honce file hfile).2, Bool.true_or]⟩
    | some name =>
      by_cases hbarred : name ∈ draft.once
      · obtain ⟨rfl, hseen⟩ := honce name hbarred
        have hsame : next = draft := by
          rw [Draft.lineAt, Draft.readLine_of_included? hkind, Draft.enter,
            Include.resolve_of_mem hbarred] at hline
          exact (Except.ok.inj hline).symm
        refine hstep (by rw [hkind, hseen]; simp) fun file hfile => ?_
        rw [Draft.hasOnce_concat, hseen, Bool.true_or]
        exact ⟨(honce file (hsame ▸ hfile)).1, rfl⟩
      · obtain ⟨found, hfound, hopened, hinside⟩ := h.exists_inside hread hkind hbarred
        obtain rfl := honly name (h.opens_mem_events hkind hopened)
        obtain rfl : found = text := Except.ok.inj (hfound.symm.trans hroot)
        refine Or.inr ⟨draft, hinside, List.eq_nil_iff_forall_not_mem.mpr fun file hfile => ?_⟩
        exact hbarred ((honce file hfile).1 ▸ hfile)

/-- If no file but the root is opened, the root opens nothing: it could not be read to its end if
it were entered again and again. -/
theorem opensNothing_of_read : opensNothing root false (Text.lines text) = true := by
  have hdeep : ∀ levels depth draft, maxIncludeDepth - depth = levels →
      Stands reader root depth root [] (Text.lines text) draft → draft.once = [] →
        opensNothing root false (Text.lines text) = true := by
    intro levels
    induction levels with
    | zero =>
      intro depth draft hlevels h honce
      rcases opensNothing_or_deeper hread hroot honly h (by simp [honce]) with
        hnothing | ⟨draft, hdeeper, -⟩
      · exact hnothing
      · have hdepth := hdeeper.depth_le
        omega
    | succ levels ih =>
      intro depth draft hlevels h honce
      rcases opensNothing_or_deeper hread hroot honly h (by simp [honce]) with
        hnothing | ⟨draft, hdeeper, hnone⟩
      · exact hnothing
      · exact ih (depth + 1) draft (by omega) hdeeper hnone
  exact hdeep _ 0 .empty rfl (.root hroot) rfl

end

end Program

end ShaderVariants
