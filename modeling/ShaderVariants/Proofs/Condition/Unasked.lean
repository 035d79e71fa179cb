import ShaderVariants.Proofs.Condition.Runs
import ShaderVariants.Proofs.Variant.Header

/-!
# Conditions that are not looked at

A chain that encloses no mark of an input is read without asking any of its tests: once its last
line is read, nothing is left of it.  So whatever stands behind the keywords of its conditions, and
of those of the chains inside it, the same inputs are active, or the same line is at fault
(`activeInputs_reworded`).
-/

namespace ShaderVariants.Condition

/-! ## 1. Chains in a source -/

/-- How many chains are open inside of a chain after a line, `none` if the line closes that one. -/
def insideAfter? (depth : Nat) (line : Text) : Option Nat :=
  match Directive.ofLine? line with
  | some (.openChain _) => some (depth + 1)
  | some .closeChain =>
    match depth with
    | 0 => none
    | outer + 1 => some outer
  | _ => some depth

/-- The lines of a chain, from the one that opens it to the one that closes it. -/
inductive IsChain : List Text → Prop
  | lines {opening closing : Text} {body : List Text} {test : Test}
      (opens : Directive.ofLine? opening = some (.openChain test))
      (inside : body.foldlM insideAfter? 0 = some 0)
      (closes : Directive.ofLine? closing = some .closeChain) :
      IsChain (opening :: (body ++ [closing]))

/-- Whether a line marks the site of one of the inputs. -/
def marksInput (inputs : List Input) (line : Text) : Bool :=
  match Directive.ofLine? line with
  | some (.define name _) => inputs.any fun input => name == siteMark ++ input.name
  | _ => false

/-! ## 2. Reading a chain -/

namespace Scan

variable {inputs : List Input}

/-- A definition that marks no input says nothing inside of a chain. -/
theorem define_of_unmarked {scan : Scan} {name : Text} {value : Option Int}
    (hopen : scan.chains ≠ []) (h : ∀ input ∈ inputs, name ≠ siteMark ++ input.name) :
    scan.define inputs name value = .ok scan := by
  rw [define]
  split
  next inputName hmark =>
    obtain rfl := Text.strip?_eq_some_iff.mp hmark
    have hnone : (inputs.find? fun input => input.name == inputName) = none := by
      rw [List.find?_eq_none]
      intro input hinput hname
      exact h input hinput (by rw [beq_iff_eq.mp hname])
    rw [hnone]
  · rw [if_neg (by simpa using hopen)]

/-- A line inside of a chain that marks no input changes nothing but the chains that are open
inside. -/
theorem exists_step_inside (scan : Scan) (number : Nat) {line : Text}
    {depth after : Nat} (hline : insideAfter? depth line = some after)
    (hunmarked : marksInput inputs line = false) {inner : List Chain}
    (hinner : inner.length = depth + 1) :
    ∃ inner' : List Chain, inner'.length = after + 1 ∧
      ({ scan with chains := inner ++ scan.chains } : Scan).step inputs number line =
        .ok { scan with chains := inner' ++ scan.chains } := by
  obtain ⟨chain, rest, rfl⟩ := List.exists_cons_of_length_eq_add_one hinner
  rw [insideAfter?.eq_def] at hline
  rw [marksInput] at hunmarked
  rw [step]
  cases hdirective : Directive.ofLine? line with
  | none =>
    rw [hdirective] at hline
    obtain rfl := Option.some.inj hline
    exact ⟨chain :: rest, hinner, rfl⟩
  | some directive =>
    rw [hdirective] at hline hunmarked
    cases directive with
    | openChain test =>
      obtain rfl := Option.some.inj hline
      exact ⟨.ofArm ⟨test, number, Text.trim line⟩ :: chain :: rest, by simpa using hinner, rfl⟩
    | elseIf text =>
      obtain rfl := Option.some.inj hline
      exact ⟨chain.push ⟨.expression text, number, Text.trim line⟩ :: rest, hinner, rfl⟩
    | elseArm =>
      obtain rfl := Option.some.inj hline
      exact ⟨chain.push ⟨.otherwise, number, Text.trim line⟩ :: rest, hinner, rfl⟩
    | closeChain =>
      cases depth with
      | zero => cases hline
      | succ outer =>
        obtain rfl := Option.some.inj hline
        exact ⟨rest, Nat.succ.inj hinner, rfl⟩
    | define name value =>
      obtain rfl := Option.some.inj hline
      refine ⟨chain :: rest, hinner, define_of_unmarked (by simp) fun input hinput hname => ?_⟩
      have hmarked : (inputs.any fun input => name == siteMark ++ input.name) = true :=
        List.any_eq_true.mpr ⟨input, hinput, beq_iff_eq.mpr hname⟩
      exact absurd (hmarked.symm.trans hunmarked) (by decide)

/-- The same for some lines. -/
theorem exists_run_inside (scan : Scan) (number : Nat) {lines : List Text} {depth after : Nat}
    (hlines : lines.foldlM insideAfter? depth = some after)
    (hunmarked : ∀ line ∈ lines, marksInput inputs line = false) {inner : List Chain}
    (hinner : inner.length = depth + 1) :
    ∃ inner' : List Chain, inner'.length = after + 1 ∧
      run inputs { scan with chains := inner ++ scan.chains } number lines =
        .ok { scan with chains := inner' ++ scan.chains } := by
  -- The induction is on the lines.  The chains that were open before stay below those of `inner`,
  -- of which there is one more than the depth says.
  induction lines generalizing number depth inner with
  | nil =>
    obtain rfl := Option.some.inj hlines
    exact ⟨inner, hinner, rfl⟩
  | cons line rest ih =>
    obtain ⟨hline, hrest⟩ := List.forall_mem_cons.mp hunmarked
    rw [List.foldlM_cons, Option.bind_eq_bind, Option.bind_eq_some_iff] at hlines
    obtain ⟨between, hbetween, hlines⟩ := hlines
    obtain ⟨inner', hinner', hstep⟩ := exists_step_inside scan number hbetween hline hinner
    rw [run, hstep]
    exact ih (number + 1) hlines hrest hinner'

/-- Nothing is left of a chain that marks no input. -/
theorem run_of_isChain (scan : Scan) (number : Nat) {chain : List Text} (hchain : IsChain chain)
    (hunmarked : ∀ line ∈ chain, marksInput inputs line = false) :
    run inputs scan number chain = .ok scan := by
  obtain @⟨opening, closing, body, test, opens, inside, closes⟩ := hchain
  have hbody : ∀ line ∈ body, marksInput inputs line = false :=
    fun line hline => hunmarked line (by simp [hline])
  obtain ⟨inner, hinner, hbody⟩ := exists_run_inside scan (number + 1) inside hbody
    (show [Chain.ofArm ⟨test, number, Text.trim opening⟩].length = 0 + 1 from rfl)
  obtain ⟨chain, rfl⟩ := List.length_eq_one_iff.mp hinner
  have hopening : scan.step inputs number opening =
      .ok { scan with chains := [.ofArm ⟨test, number, Text.trim opening⟩] ++ scan.chains } := by
    rw [step, opens]
    rfl
  have hclosing : ({ scan with chains := [chain] ++ scan.chains } : Scan).step inputs
      (number + 1 + body.length) closing = .ok scan := by
    rw [step, closes]
    rfl
  rw [run, hopening]
  dsimp only
  rw [run_append, hbody]
  dsimp only
  rw [run, hclosing]
  rfl

end Scan

/-! ## 3. Other conditions -/

/-- A preprocessor line with blanks in front of its mark and behind it. -/
def preprocessorLine (indent gap keyword rest : Text) : Text :=
  indent ++ '#' :: (gap ++ (keyword ++ rest))

/-- A line and another one that has any other text behind its keyword if it asks for an
expression. -/
inductive Reworded : Text → Text → Prop
  | same (line : Text) : Reworded line line
  | condition {indent gap keyword old : Text} (new : Text)
      (blanks : ∀ c ∈ indent ++ gap, Text.isBlank c = true)
      (asks : keyword = "if".toList ∨ keyword = "elif".toList)
      (ends : old.head?.all (fun c => !Text.isWordChar c) = true) :
      Reworded (preprocessorLine indent gap keyword old)
        (preprocessorLine indent gap keyword (' ' :: new))

theorem keyword?_preprocessorLine {indent gap keyword rest : Text}
    (blanks : ∀ c ∈ indent ++ gap, Text.isBlank c = true) (hkeyword : Text.IsWord keyword)
    (ends : rest.head?.all (fun c => !Text.isWordChar c) = true) :
    Directive.keyword? (preprocessorLine indent gap keyword rest) =
      some (keyword, Text.trim (Text.beforeComment rest)) :=
  keyword?_of_word blanks hkeyword ends

/-- A line whose condition is replaced keeps its place in its chain. -/
theorem Reworded.ofLine? {line line' : Text} (h : Reworded line line') :
    line = line' ∨
      (∃ old new, Directive.ofLine? line = some (.openChain (.expression old)) ∧
        Directive.ofLine? line' = some (.openChain (.expression new))) ∨
      ∃ old new, Directive.ofLine? line = some (.elseIf old) ∧
        Directive.ofLine? line' = some (.elseIf new) := by
  cases h with
  | same => exact Or.inl rfl
  | @condition indent gap keyword old new blanks asks ends =>
    have hword : Text.IsWord keyword := by
      rcases asks with rfl | rfl <;> exact .of_isIdentifier (by decide)
    have hbefore := keyword?_preprocessorLine blanks hword ends
    have hafter := keyword?_preprocessorLine blanks hword
      (show (' ' :: new).head?.all (fun c => !Text.isWordChar c) = true from rfl)
    rcases asks with rfl | rfl
    · exact Or.inr (Or.inl ⟨_, _, by rw [Directive.ofLine?, hbefore]; rfl,
        by rw [Directive.ofLine?, hafter]; rfl⟩)
    · exact Or.inr (Or.inr ⟨_, _, by rw [Directive.ofLine?, hbefore]; rfl,
        by rw [Directive.ofLine?, hafter]; rfl⟩)

-- None of what decides whether lines are a chain without marks looks at the text of a condition.
theorem insideAfter?_of_reworded {line line' : Text} (h : Reworded line line') (depth : Nat) :
    insideAfter? depth line' = insideAfter? depth line := by
  rcases h.ofLine? with rfl | ⟨old, new, hold, hnew⟩ | ⟨old, new, hold, hnew⟩
  · rfl
  all_goals rw [insideAfter?.eq_def, insideAfter?.eq_def, hold, hnew]

theorem marksInput_of_reworded {inputs : List Input} {line line' : Text} (h : Reworded line line') :
    marksInput inputs line' = marksInput inputs line := by
  rcases h.ofLine? with rfl | ⟨old, new, hold, hnew⟩ | ⟨old, new, hold, hnew⟩
  · rfl
  all_goals rw [marksInput, marksInput, hold, hnew]

theorem foldlM_insideAfter?_of_reworded {lines lines' : List Text}
    (h : List.Forall₂ Reworded lines lines') (depth : Nat) :
    lines'.foldlM insideAfter? depth = lines.foldlM insideAfter? depth := by
  induction h generalizing depth with
  | nil => rfl
  | cons hline _ ih =>
    rw [List.foldlM_cons, List.foldlM_cons, insideAfter?_of_reworded hline]
    exact bind_congr fun after => ih after

/-- A chain with other conditions is a chain. -/
theorem IsChain.reworded {chain chain' : List Text} (hchain : IsChain chain)
    (h : List.Forall₂ Reworded chain chain') : IsChain chain' := by
  obtain @⟨opening, closing, body, test, opens, inside, closes⟩ := hchain
  obtain ⟨opening', rest', hopening, hrest, rfl⟩ := List.forall₂_cons_left_iff.mp h
  obtain ⟨body', last', hbody, hlast, rfl⟩ : ∃ body' last', List.Forall₂ Reworded body body' ∧
      List.Forall₂ Reworded [closing] last' ∧ rest' = body' ++ last' := by
    refine ⟨rest'.take body.length, rest'.drop body.length, ?_, ?_, (List.take_append_drop _ _).symm⟩
    · have := List.forall₂_take body.length hrest
      rwa [List.take_left] at this
    · have := List.forall₂_drop body.length hrest
      rwa [List.drop_left] at this
  obtain ⟨closing', rest', hclosing, hnil, rfl⟩ := List.forall₂_cons_left_iff.mp hlast
  obtain rfl := List.forall₂_nil_left_iff.mp hnil
  have hopens : ∃ test', Directive.ofLine? opening' = some (.openChain test') := by
    rcases hopening.ofLine? with rfl | ⟨old, new, -, hnew⟩ | ⟨old, new, hold, -⟩
    · exact ⟨test, opens⟩
    · exact ⟨_, hnew⟩
    · rw [opens] at hold
      cases hold
  have hcloses : Directive.ofLine? closing' = some .closeChain := by
    rcases hclosing.ofLine? with rfl | ⟨old, new, hold, -⟩ | ⟨old, new, hold, -⟩
    · exact closes
    all_goals
      rw [closes] at hold
      cases hold
  obtain ⟨test', hopens⟩ := hopens
  exact .lines hopens ((foldlM_insideAfter?_of_reworded hbody 0).trans inside) hcloses

theorem unmarked_of_reworded {inputs : List Input} {lines lines' : List Text}
    (h : List.Forall₂ Reworded lines lines')
    (hunmarked : ∀ line ∈ lines, marksInput inputs line = false) :
    ∀ line ∈ lines', marksInput inputs line = false := by
  induction h with
  | nil => exact hunmarked
  | cons hline _ ih =>
    obtain ⟨hfirst, hrest⟩ := List.forall_mem_cons.mp hunmarked
    exact List.forall_mem_cons.mpr ⟨(marksInput_of_reworded hline).trans hfirst, ih hrest⟩

/-! ## 4. Sources -/

/-- The conditions of a chain that encloses no mark of an input do not matter: with any others in
their place the same inputs are active, or the same line is at fault. -/
theorem activeInputs_reworded {inputs : List Input} {before chain chain' after : List Text}
    (hlines : ∀ line ∈ before ++ chain ++ after, '\n' ∉ line)
    (hlines' : ∀ line ∈ chain', '\n' ∉ line)
    (hchain : IsChain chain) (hunmarked : ∀ line ∈ chain, marksInput inputs line = false)
    (hreworded : List.Forall₂ Reworded chain chain') :
    activeInputs (['\n'].intercalate (before ++ chain' ++ after)) inputs =
      activeInputs (['\n'].intercalate (before ++ chain ++ after)) inputs := by
  simp only [List.forall_mem_append] at hlines
  obtain ⟨⟨hbefore, hlines⟩, hafter⟩ := hlines
  have haround : ∀ lines : List Text, (∀ line ∈ lines, '\n' ∉ line) →
      ∀ line ∈ before ++ lines ++ after, '\n' ∉ line := by
    intro lines hlines
    simp only [List.forall_mem_append]
    exact ⟨⟨hbefore, hlines⟩, hafter⟩
  have hchain' : IsChain chain' := hchain.reworded hreworded
  have hunmarked' : ∀ line ∈ chain', marksInput inputs line = false :=
    unmarked_of_reworded hreworded hunmarked
  rw [Scan.activeInputs_intercalate (haround chain hlines),
    Scan.activeInputs_intercalate (haround chain' hlines'), List.append_assoc, List.append_assoc,
    Scan.run_append, Scan.run_append]
  -- The lines behind the chain are read with what is known in front of it.
  cases Scan.run inputs .start 1 before with
  | error e => rfl
  | ok scan =>
    dsimp only
    rw [Scan.run_append_of_run_eq_self (Scan.run_of_isChain scan _ hchain hunmarked),
      Scan.run_append_of_run_eq_self (Scan.run_of_isChain scan _ hchain' hunmarked'),
      hreworded.length_eq]

/-- A chain with two conditions that have the given texts, one of them in a chain inside. -/
def covered (outer inner : Text) : List Text :=
  [preprocessorLine "  ".toList [] "if".toList outer, "#ifdef FAST".toList,
   preprocessorLine [] " ".toList "elif".toList inner, "#endif".toList, "#endif".toList]

/-- A source with that chain in front of a mark. -/
def coveredText (outer inner : Text) : Text :=
  ['\n'].intercalate (["#define LOD 1".toList, "#ifdef LOD".toList] ++ covered outer inner ++
    ["#define _ANKI_INPUT_SITE_far".toList, "#endif".toList])

/-- The input that is marked in it. -/
def farInput : Input := ⟨"far".toList, 0, .f32, false, none, none⟩

/-- Neither of the new conditions can be read, and the mark behind the chain is reached all the same. -/
theorem activeInputs_reworded_covered :
    IsChain (covered " WIDE // or not".toList "(LOD)".toList) ∧
      activeInputs (coveredText " f(x) ? 1 : 2".toList " ((".toList) [farInput] =
        activeInputs (coveredText " WIDE // or not".toList "(LOD)".toList) [farInput] ∧
      (activeInputs (coveredText " WIDE // or not".toList "(LOD)".toList) [farInput]).toOption =
        some (InputSet.empty.insert farInput.index) := by
  have hopens : Directive.ofLine? (preprocessorLine "  ".toList [] "if".toList
      " WIDE // or not".toList) = some (.openChain (.expression "WIDE".toList)) := by
    decide +kernel
  have hinside : ["#ifdef FAST".toList, preprocessorLine [] " ".toList "elif".toList "(LOD)".toList,
      "#endif".toList].foldlM insideAfter? 0 = some 0 := by
    decide +kernel
  have hchain : IsChain (covered " WIDE // or not".toList "(LOD)".toList) :=
    .lines hopens hinside (by decide +kernel)
  have hfirst : ∀ c ∈ "  ".toList ++ [], Text.isBlank c = true :=
    List.all_eq_true.mp (by decide +kernel)
  have hsecond : ∀ c ∈ [] ++ " ".toList, Text.isBlank c = true :=
    List.all_eq_true.mp (by decide +kernel)
  have hreworded : List.Forall₂ Reworded (covered " WIDE // or not".toList "(LOD)".toList)
      (covered " f(x) ? 1 : 2".toList " ((".toList) :=
    .cons (.condition _ hfirst (Or.inl rfl) (by decide +kernel)) <| .cons (.same _) <|
      .cons (.condition _ hsecond (Or.inr rfl) (by decide +kernel)) <| .cons (.same _) <|
      .cons (.same _) .nil
  exact ⟨hchain, activeInputs_reworded (by decide +kernel) (by decide +kernel) hchain
    (by decide +kernel) hreworded, by decide +kernel⟩

end ShaderVariants.Condition
