import Mathlib.Data.List.Nodup
import ShaderVariants.Condition.ActiveInputs
import ShaderVariants.Proofs.Condition.Names
import ShaderVariants.Proofs.Text.Lines

/-!
# Runs of a scan

How a run over some lines follows from runs over parts of them, what lines that open no chain
leave alone, what a run over written lines comes to, and which lines cannot make an input active.
-/

namespace ShaderVariants.Condition.Scan

variable {inputs : List Input} {scan : Scan}

/-! ## 1. Parts -/

/-- The lines behind some others are read with what is known after those. -/
theorem run_append (scan : Scan) (number : Nat) (lines more : List Text) :
    run inputs scan number (lines ++ more) =
      match run inputs scan number lines with
      | .error e => .error e
      | .ok next => run inputs next (number + lines.length) more := by
  induction lines generalizing scan number with
  | nil => rfl
  | cons line rest ih =>
    rw [List.cons_append, run, run]
    cases scan.step inputs number line with
    | error e => rfl
    | ok next =>
      simp only [ih, List.length_cons]
      rw [show number + 1 + rest.length = number + (rest.length + 1) by omega]

/-- Lines that change nothing, in front of others. -/
theorem run_append_of_run_eq_self {number : Nat} {lines : List Text}
    (h : run inputs scan number lines = .ok scan) (more : List Text) :
    run inputs scan number (lines ++ more) = run inputs scan (number + lines.length) more := by
  rw [run_append, h]

theorem step_of_ofLine?_eq_none {number : Nat} {line : Text} (h : Directive.ofLine? line = none) :
    scan.step inputs number line = .ok scan := by
  rw [step, h]

/-! ## 2. Quiet lines -/

/-- Definitions open no chain. -/
theorem chains_of_define {symbol : Text} {value : Option Int} {next : Scan}
    (hopen : scan.chains = []) (h : scan.define inputs symbol value = .ok next) :
    next.chains = [] := by
  rw [define] at h
  split at h
  · split at h
    · rw [reach, hopen, Chain.askAll] at h
      obtain rfl := Except.ok.inj h
      rfl
    · exact Except.ok.inj h ▸ hopen
  · split at h
    · exact Except.ok.inj h ▸ hopen
    · exact Except.ok.inj h ▸ hopen

theorem chains_of_run {number : Nat} {lines : List Text} {last : Scan}
    (hlines : ∀ line ∈ lines, IsQuiet line) (hopen : scan.chains = [])
    (h : run inputs scan number lines = .ok last) : last.chains = [] := by
  induction lines generalizing scan number with
  | nil => exact Except.ok.inj h ▸ hopen
  | cons line rest ih =>
    obtain ⟨hline, hrest⟩ := List.forall_mem_cons.mp hlines
    rw [run] at h
    split at h
    · cases h
    next next hnext =>
      refine ih hrest ?_ h
      rw [step] at hnext
      cases hdirective : Directive.ofLine? line with
      | none =>
        rw [hdirective] at hnext
        exact Except.ok.inj hnext ▸ hopen
      | some directive =>
        obtain ⟨symbol, value, rfl⟩ := hline directive hdirective
        rw [hdirective] at hnext
        exact chains_of_define hopen hnext

/-! ## 3. Written lines -/

/-- A carriage return at the end of a line is a blank like any other. -/
theorem step_chomp (scan : Scan) (number : Nat) (line : Text) :
    scan.step inputs number (Text.chomp line) = scan.step inputs number line := by
  have htrim : Text.trim (Text.chomp line) = Text.trim line := by
    by_cases hreturn : line.getLast? = some '\r'
    · obtain ⟨front, rfl⟩ := List.getLast?_eq_some_iff.mp hreturn
      rw [Text.chomp_append_return, Text.trim_append_blanks (by simpa using Text.isBlank_return)]
    · rw [Text.chomp_eq_self hreturn]
  rw [step, step, Directive.ofLine?_chomp, htrim]

theorem run_map_chomp (scan : Scan) (number : Nat) (lines : List Text) :
    run inputs scan number (lines.map Text.chomp) = run inputs scan number lines := by
  induction lines generalizing scan number with
  | nil => rfl
  | cons line rest ih =>
    rw [List.map_cons, run, run, step_chomp]
    cases scan.step inputs number line with
    | error e => rfl
    | ok next => exact ih next (number + 1)

/-- A source is analyzed by a run over any lines that are read as its lines are. -/
theorem activeInputs_eq_of_run_eq {source : Text} {lines : List Text}
    (h : run inputs .start 1 (Text.lines source) = run inputs .start 1 lines) :
    activeInputs source inputs =
      match run inputs .start 1 lines with
      | .error e => .error e
      | .ok scan => scan.finish := by
  unfold activeInputs
  generalize run inputs .start 1 (Text.lines source) = outcome at h ⊢
  subst h
  rfl

/-- The text of some lines is analyzed by a run over those lines. -/
theorem activeInputs_unlines {lines : List Text} (hlines : ∀ line ∈ lines, '\n' ∉ line) :
    activeInputs (Text.unlines lines) inputs =
      match run inputs .start 1 lines with
      | .error e => .error e
      | .ok scan => scan.finish := by
  refine activeInputs_eq_of_run_eq ?_
  rw [Text.lines_unlines_eq_map hlines, run_map_chomp]

/-- The lines of a text are read as those that stand between its line feeds. -/
theorem run_lines_intercalate {lines : List Text} (h : ∀ line ∈ lines, '\n' ∉ line) (scan : Scan)
    (number : Nat) :
    run inputs scan number (Text.lines (['\n'].intercalate lines)) =
      run inputs scan number lines := by
  induction lines generalizing scan number with
  | nil => rw [List.intercalate_nil, Text.lines_nil]
  | cons line rest ih =>
    obtain ⟨hline, hrest⟩ := List.forall_mem_cons.mp h
    cases rest with
    | nil =>
      rw [List.intercalate_singleton]
      by_cases hnil : line = []
      -- An empty last line is none, and says nothing either.
      · subst hnil
        rw [Text.lines_nil]
        rfl
      · rw [Text.lines_eq_singleton hline hnil]
    | cons next more =>
      rw [List.intercalate_cons_cons, List.append_assoc, List.singleton_append,
        Text.lines_append_lineFeed_chomp hline, run, run, step_chomp]
      cases scan.step inputs number line with
      | error e => rfl
      | ok reached => exact ih hrest reached (number + 1)

/-- The same for lines of which the last one is not ended. -/
theorem activeInputs_intercalate {lines : List Text} (hlines : ∀ line ∈ lines, '\n' ∉ line) :
    activeInputs (['\n'].intercalate lines) inputs =
      match run inputs .start 1 lines with
      | .error e => .error e
      | .ok scan => scan.finish :=
  activeInputs_eq_of_run_eq (run_lines_intercalate hlines .start 1)

/-- Inputs are active in the text of some lines as the run over those lines finds them. -/
theorem exists_run_of_activeInputs {lines : List Text} {active : InputSet}
    (hlines : ∀ line ∈ lines, '\n' ∉ line)
    (h : activeInputs (Text.unlines lines) inputs = .ok active) :
    ∃ last, run inputs .start 1 lines = .ok last ∧ last.active = active := by
  rw [activeInputs_unlines hlines] at h
  split at h
  · cases h
  next last hlast =>
    refine ⟨last, hlast, ?_⟩
    rw [finish] at h
    split at h
    · exact Except.ok.inj h
    · cases h

/-- A mark outside of all chains is reached. -/
theorem run_mark {number : Nat} {line name : Text} {rest : List Text} {input : Input}
    {value : Option Int} (hopen : scan.chains = [])
    (hline : Directive.ofLine? line = some (.define (siteMark ++ name) value))
    (hfind : (inputs.find? fun other => other.name == name) = some input) :
    run inputs scan number (line :: rest) =
      run inputs { scan with active := scan.active.insert input.index } (number + 1) rest := by
  have hstep : scan.step inputs number line =
      .ok { scan with active := scan.active.insert input.index } := by
    rw [step, hline]
    dsimp only [define]
    rw [Text.strip?_append]
    dsimp only
    rw [hfind]
    dsimp only
    rw [reach, hopen, Chain.askAll]
    rfl
  rw [run, hstep]

/-! ## 4. Inputs that are not marked -/

section

variable {input : Input} {number : Nat} (hinput : input ∈ inputs)
  (hindices : (inputs.map Input.index).Nodup)

include hinput hindices

/-- A line that does not mark an input leaves it active or not, as it was. -/
theorem mem_active_of_step {line : Text} {next : Scan}
    (hline : ∀ value, Directive.ofLine? line ≠ some (.define (siteMark ++ input.name) value))
    (h : scan.step inputs number line = .ok next) :
    next.active.mem input.index = scan.active.mem input.index := by
  rw [step] at h
  cases hdirective : Directive.ofLine? line with
  | none =>
    rw [hdirective] at h
    rw [Except.ok.inj h]
  | some directive =>
    rw [hdirective] at h
    cases directive with
    | openChain test =>
      obtain rfl := Except.ok.inj h
      rfl
    | elseIf _ | elseArm =>
      dsimp only [pushArm] at h
      split at h
      · cases h
      · obtain rfl := Except.ok.inj h
        rfl
    | closeChain =>
      dsimp only at h
      split at h
      · cases h
      · obtain rfl := Except.ok.inj h
        rfl
    | define name value =>
      dsimp only [define] at h
      split at h
      next inputName hmark =>
        obtain rfl := Text.strip?_eq_some_iff.mp hmark
        split at h
        next other hfind =>
          have hname : other.name = inputName := by simpa using List.find?_some hfind
          -- The mark belongs to another input, and that has another index.
          have hne : other.index ≠ input.index := by
            intro hindex
            obtain rfl := List.inj_on_of_nodup_map hindices (List.mem_of_find?_eq_some hfind) hinput
              hindex
            exact hline value (hname ▸ hdirective)
          rw [reach] at h
          split at h
          · cases h
          next kept asked hask =>
            obtain rfl := Except.ok.inj h
            cases kept with
            | false => rfl
            | true => simp [hne]
        next => rw [Except.ok.inj h]
      next =>
        split at h
        · obtain rfl := Except.ok.inj h
          rfl
        · rw [Except.ok.inj h]

theorem mem_active_of_run {lines : List Text} {last : Scan}
    (hlines : ∀ line ∈ lines, ∀ value,
      Directive.ofLine? line ≠ some (.define (siteMark ++ input.name) value))
    (h : run inputs scan number lines = .ok last) :
    last.active.mem input.index = scan.active.mem input.index := by
  induction lines generalizing scan number with
  | nil => rw [Except.ok.inj h]
  | cons line rest ih =>
    obtain ⟨hline, hrest⟩ := List.forall_mem_cons.mp hlines
    rw [run] at h
    split at h
    · cases h
    next next hnext =>
      rw [ih hrest h, mem_active_of_step hinput hindices hline hnext]

end

end ShaderVariants.Condition.Scan
