import ShaderVariants.Proofs.Condition.Grammar
import ShaderVariants.Proofs.Condition.Guards
import ShaderVariants.Proofs.Variant.Header

/-!
# Arms of a chain

Lines that an eager preprocessor follows from one state to another (`Eager.Leads`) are followed by
the analysis as well, and they can be put one behind the other.  So a chain is read arm by arm: each
guard is an expression that is read back from its text, and under symbols that define its names it
holds exactly if its value is not zero (`Eager.holds_of_writtenAs`).
-/

namespace ShaderVariants.Condition

/-! ## 1. Lines between two states -/

namespace Eager

/-- The lines lead from one state to another: every expression among them has a value, and every
line that continues or closes a chain has an open one. -/
structure Leads (lines : List Text) (pass next : Pass) : Prop where
  evaluable : Evaluable pass lines
  depth : lines.foldlM depthAfter? pass.levels.length = some next.levels.length
  next_eq : lines.foldl Pass.step pass = next

variable {pass next last : Pass} {line : Text} {lines more : List Text}

theorem Leads.nil (pass : Pass) : Leads [] pass pass :=
  ⟨.nil pass, rfl, rfl⟩

/-- As many chains are open behind a line as the preprocessor knows of. -/
theorem depthAfter?_eq_some {depth : Nat} (h : depthAfter? pass.levels.length line = some depth) :
    (pass.step line).levels.length = depth := by
  unfold depthAfter? at h
  unfold Pass.step
  cases hline : Directive.ofLine? line with
  | none =>
    rw [hline] at h
    exact Option.some.inj h
  | some directive =>
    rw [hline] at h
    cases directive with
    | openChain test => exact Option.some.inj h
    | elseIf _ | elseArm | closeChain =>
      obtain ⟨symbols, levels, sites⟩ := pass
      cases levels with
      | nil => cases h
      | cons level outer => exact Option.some.inj h
    | define name value =>
      have hdefine : (pass.define name value).levels = pass.levels := by
        unfold Pass.define
        split
        · rfl
        · split <;> rfl
      show (pass.define name value).levels.length = depth
      rw [hdefine]
      exact Option.some.inj h

theorem Leads.cons (hvalue : ∀ text, expressionOf? line = some text → HasValue pass.symbols text)
    (hdepth : (depthAfter? pass.levels.length line).isSome = true)
    (h : Leads lines (pass.step line) next) : Leads (line :: lines) pass next := by
  obtain ⟨depth, hdepth⟩ := Option.isSome_iff_exists.mp hdepth
  refine ⟨.cons hvalue h.evaluable, ?_, h.next_eq⟩
  rw [List.foldlM_cons, hdepth, ← depthAfter?_eq_some hdepth]
  exact h.depth

theorem Leads.append (h : Leads lines pass next) (h' : Leads more next last) :
    Leads (lines ++ more) pass last := by
  obtain ⟨hevaluable, hdepth, rfl⟩ := h
  refine ⟨?_, ?_, ?_⟩
  · clear hdepth
    induction hevaluable with
    | nil pass => exact h'.evaluable
    | cons hvalue _ ih => exact .cons hvalue (ih h')
  · rw [List.foldlM_append, hdepth]
    exact h'.depth
  · rw [List.foldl_append, h'.next_eq]

/-- Lines that at most define something are followed wherever they stand, and open no chain. -/
theorem leads_of_isQuiet (hlines : ∀ line ∈ lines, IsQuiet line) (pass : Pass) :
    Leads lines pass (lines.foldl Pass.step pass) := by
  induction lines generalizing pass with
  | nil => exact .nil pass
  | cons line rest ih =>
    obtain ⟨hline, hrest⟩ := List.forall_mem_cons.mp hlines
    refine .cons (fun text htext => ?_) ?_ (ih hrest (pass.step line))
    · rw [hline.expressionOf?] at htext
      cases htext
    · unfold depthAfter?
      cases hdirective : Directive.ofLine? line with
      | none => rfl
      | some directive =>
        obtain ⟨name, value, rfl⟩ := hline directive hdirective
        rfl

theorem levels_of_isQuiet (hlines : ∀ line ∈ lines, IsQuiet line) (pass : Pass) :
    (lines.foldl Pass.step pass).levels = pass.levels := by
  induction lines generalizing pass with
  | nil => rfl
  | cons line rest ih =>
    obtain ⟨hline, hrest⟩ := List.forall_mem_cons.mp hlines
    rw [List.foldl_cons, ih hrest, Pass.step]
    cases hdirective : Directive.ofLine? line with
    | none => rfl
    | some directive =>
      obtain ⟨name, value, rfl⟩ := hline directive hdirective
      dsimp only [Pass.define]
      split
      · rfl
      · split <;> rfl

/-- What the preprocessor can follow is followed by the analysis. -/
theorem Leads.run {inputs : List Input} (hnames : (inputs.map Input.name).Nodup)
    (hindex : ∀ input ∈ inputs, input.index < inputCapacity) {scan : Scan}
    (h : Leads lines pass next) (hfollows : scan.Follows inputs pass) (number : Nat) :
    ∃ last, Scan.run inputs scan number lines = .ok last ∧ last.Follows inputs next := by
  have hrun := Scan.run_of_follows hnames hindex h.evaluable hfollows number
  rw [← Chain.length_of_allFollow hfollows.chains, h.depth, h.next_eq] at hrun
  obtain ⟨last, hlast, hfollowsLast, -⟩ := hrun
  exact ⟨last, hlast, hfollowsLast⟩

end Eager

/-! ## 2. Lines of a chain -/

/-- A line with an expression behind the word that opens or continues a chain. -/
theorem keyword?_writtenAs (word : Text) {text : Text} {expr : Expr}
    (hword : Text.isIdentifier word = true) (h : expr.WrittenAs text) :
    Directive.keyword? ('#' :: (word ++ ' ' :: text)) = some (word, Text.trim text) := by
  obtain ⟨lexemes, -, hwrites⟩ := h
  rw [keyword?_append (.of_isIdentifier hword), Text.beforeComment_eq_self_of_not_slash hwrites.slash_notMem,
    Text.trim_space_cons]

theorem ofLine?_if {text : Text} {expr : Expr} (h : expr.WrittenAs text) :
    Directive.ofLine? ("#if ".toList ++ text) =
      some (.openChain (.expression (Text.trim text))) := by
  have hkeyword := keyword?_writtenAs "if".toList (by decide) h
  have hline : "#if ".toList ++ text = '#' :: ("if".toList ++ ' ' :: text) := rfl
  rw [Directive.ofLine?, hline, hkeyword]
  rfl

theorem ofLine?_elif {text : Text} {expr : Expr} (h : expr.WrittenAs text) :
    Directive.ofLine? ("#elif ".toList ++ text) = some (.elseIf (Text.trim text)) := by
  have hkeyword := keyword?_writtenAs "elif".toList (by decide) h
  have hline : "#elif ".toList ++ text = '#' :: ("elif".toList ++ ' ' :: text) := rfl
  rw [Directive.ofLine?, hline, hkeyword]
  rfl

theorem ofLine?_else : Directive.ofLine? "#else".toList = some .elseArm := by
  decide

theorem ofLine?_endif : Directive.ofLine? "#endif".toList = some .closeChain := by
  decide

/-! ## 3. Guards -/

namespace Eager

variable {symbols : Symbols} {values : Text → Int} {expr : Expr} {text : Text}

theorem hasValue_of_writtenAs (h : expr.WrittenAs text)
    (hnames : ∀ name ∈ expr.names, symbols[name]? = some (some (values name))) :
    HasValue symbols (Text.trim text) :=
  ⟨expr, expr.value values, Expr.ofText_of_writtenAs h.trim, Expr.eval_eq_value hnames⟩

/-- A guard holds exactly if its value is not zero. -/
theorem holds_of_writtenAs (h : expr.WrittenAs text)
    (hnames : ∀ name ∈ expr.names, symbols[name]? = some (some (values name))) :
    holds symbols (.expression (Text.trim text)) = decide (expr.value values ≠ 0) := by
  rw [holds, Expr.ofText_of_writtenAs h.trim]
  dsimp only
  rw [Expr.eval_eq_value hnames, Bool.eq_iff_iff]
  simp

end Eager

end ShaderVariants.Condition
