import ShaderVariants.Proofs.Program.Reading
import ShaderVariants.Proofs.Program.Step

/-!
# Invariants of reading

A property of drafts that holds at the start, and that no line of a file breaks, holds of what has
been declared when all files have been read, whatever they include (`Draft.Invariant.read`).
-/

namespace ShaderVariants.Draft

/-- A property that no line of a file breaks. -/
structure Invariant (P : Draft → Prop) : Prop where
  code : ∀ draft line, Line.ofText line = .code → P draft → P (draft.pushCode line)
  once : ∀ draft file, P draft → P (draft.markOnce file)
  step : ∀ draft file line next, Step draft file line next → P draft → P next

namespace Invariant

variable {P : Draft → Prop}

theorem readLines (h : Invariant P)
    {enter : (line : Nat) → (name : Text) → Draft → Except ParseError Draft} {file : Text}
    (henter : ∀ line name draft next, enter line name draft = .ok next → P draft → P next)
    {number : Nat} {seenOnce : Bool} {lines : List Text} {draft next : Draft}
    (hread : Draft.readLines enter file number seenOnce lines draft = .ok next)
    (hdraft : P draft) : P next := by
  induction lines generalizing number seenOnce draft with
  | nil =>
    rw [Draft.readLines] at hread
    exact Except.ok.inj hread ▸ hdraft
  -- One case for each kind of line: an include, a mark, a bad line, a directive, code.
  | cons line rest ih =>
    rw [Draft.readLines] at hread
    split at hread
    · split at hread
      · cases hread
      · split at hread
        · cases hread
        · next hnext => exact ih hread (henter _ _ _ _ hnext hdraft)
    · split at hread
      · cases hread
      · exact ih hread (h.once _ _ hdraft)
    · cases hread
    · split at hread
      · cases hread
      · next hnext => exact ih hread (h.step _ _ _ _ (step_of_follow hnext) hdraft)
    · next hcode => exact ih hread (h.code _ _ hcode hdraft)

theorem readFile (h : Invariant P) {reader : FileReader} {room : Nat} {file text : Text}
    {draft next : Draft} (hread : Draft.readFile reader room file text draft = .ok next)
    (hdraft : P draft) : P next := by
  -- A file that is entered has less room, so the invariant is carried through it by induction.
  induction room generalizing file text draft next with
  | zero =>
    rw [Draft.readFile] at hread
    refine h.readLines (fun line name draft next henter hdraft => ?_) hread hdraft
    split at henter
    · cases henter
    · exact Except.ok.inj henter ▸ hdraft
  | succ room ih =>
    rw [Draft.readFile] at hread
    refine h.readLines (fun line name draft next henter hdraft => ?_) hread hdraft
    split at henter
    · cases henter
    · exact Except.ok.inj henter ▸ hdraft
    · exact ih henter hdraft

/-- What was declared by the end of a file that could be read. -/
theorem read (h : Invariant P) {reader : FileReader} {settings : Settings} {fileName : Text}
    {program : Program} (hread : Program.read reader settings fileName = .ok program)
    (hempty : P .empty) :
    ∃ draft, P draft ∧ ∃ lastLine, draft.finish fileName lastLine settings = .ok program := by
  obtain ⟨text, draft, -, hdraft, hfinish⟩ := Program.exists_of_read hread
  exact ⟨draft, h.readFile hdraft hempty, _, hfinish⟩

/-- Two properties that no line breaks are kept together. -/
theorem and {Q : Draft → Prop} (h : Invariant P) (h' : Invariant Q) :
    Invariant fun draft => P draft ∧ Q draft where
  code := fun draft line hcode hdraft =>
    ⟨h.code draft line hcode hdraft.1, h'.code draft line hcode hdraft.2⟩
  once := fun draft file hdraft => ⟨h.once draft file hdraft.1, h'.once draft file hdraft.2⟩
  step := fun draft file line next hstep hdraft =>
    ⟨h.step draft file line next hstep hdraft.1, h'.step draft file line next hstep hdraft.2⟩

end Invariant

end ShaderVariants.Draft
