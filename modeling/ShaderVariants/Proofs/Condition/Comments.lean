import ShaderVariants.Proofs.Condition.Splice
import ShaderVariants.Proofs.Condition.Unasked
import ShaderVariants.Proofs.Text.Comments

/-!
# Comments between directives

A preprocessor line is read up to its first comment.  Where nothing but remarks is lost with that,
the comments of a source can be taken out: the same inputs are active
(`activeInputs_withoutComments`).  Text behind a comment is lost as well, and then the source can
mean something else (`activeInputs_ne_withoutComments`).
-/

namespace ShaderVariants.Condition

/-! ## 1. Lines -/

/-- Whether a line belongs to the preprocessor, its comments being blanks. -/
def isPreprocessor (line : Text) : Bool :=
  (Text.trimStart (Text.uncomment line)).head? == some '#'

/-- A line of the preprocessor with a blank in place of every block comment that ends in it. -/
def withoutComments (line : Text) : Text :=
  if isPreprocessor line then Text.uncomment line else line

/-- The keywords of the lines whose text behind the keyword is read. -/
def Directive.listening : List Text :=
  ["if".toList, "ifdef".toList, "ifndef".toList, "elif".toList, "define".toList]

/-- A line that tells everything in front of its first comment. -/
inductive TellsFirst (line : Text) : Prop
  /-- The line is none of the preprocessor's. -/
  | text (other : isPreprocessor line = false)
  /-- No block comment ends in the line. -/
  | plain (bare : Text.uncomment line = line)
  /-- Behind its mark nothing but blanks and comments follows the first comment. -/
  | remark {rest : Text} (starts : Text.trimStart line = '#' :: rest)
      (tail : Text.Remark (Text.fromComment rest))
  /-- Its keyword stands in front of the first comment, and nothing behind the keyword is read. -/
  | deaf {keyword body : Text} (reads : Directive.keyword? line = some (keyword, body))
      (word : keyword ≠ []) (deaf : keyword ∉ Directive.listening)

/-! ## 2. Directives without comments -/

theorem trimStart_uncomment {line rest : Text} (h : Text.trimStart line = '#' :: rest) :
    Text.trimStart (Text.uncomment line) = '#' :: Text.uncomment rest := by
  have hparts : line.takeWhile Text.isBlank ++ '#' :: rest = line := by
    rw [← h]
    exact List.takeWhile_append_dropWhile
  have hblank : ∀ c ∈ line.takeWhile Text.isBlank, Text.isBlank c = true :=
    fun c hc => List.mem_takeWhile_imp hc
  have hline : Text.uncomment line = line.takeWhile Text.isBlank ++ '#' :: Text.uncomment rest := by
    conv_lhs => rw [← hparts, Text.uncomment_append (Text.ne_slash_of_blanks hblank)]
    rw [Text.uncomment_cons (by rfl)]
  rw [hline, Text.trimStart_append hblank, Text.trimStart_eq_self (by decide)]

/-- Only remarks behind the first comment: the line is read as it was. -/
theorem keyword?_uncomment_of_remark {line rest : Text} (h : Text.trimStart line = '#' :: rest)
    (hremark : Text.Remark (Text.fromComment rest)) :
    Directive.keyword? (Text.uncomment line) = Directive.keyword? line := by
  obtain ⟨more, hmore, -, hblank⟩ := Text.beforeComment_uncomment rest
  have hblank : ∀ c ∈ more, Text.isBlank c = true := hblank hremark
  rw [Directive.keyword?_of_trimStart (trimStart_uncomment h), Directive.keyword?_of_trimStart h,
    Text.beforeComment_trimStart, Text.beforeComment_trimStart, hmore,
    Text.trimStart_append_blanks hblank]
  by_cases hnil : Text.trimStart (Text.beforeComment rest) = []
  · rw [if_pos hnil, hnil]
  · rw [if_neg hnil, Directive.cut_append_blanks hblank]

/-- A keyword in front of the first comment stays the keyword. -/
theorem keyword?_uncomment_of_word {line keyword body : Text}
    (h : Directive.keyword? line = some (keyword, body)) (hword : keyword ≠ []) :
    ∃ body', Directive.keyword? (Text.uncomment line) = some (keyword, body') := by
  obtain ⟨rest, hline⟩ : ∃ rest, Text.trimStart line = '#' :: rest := by
    unfold Directive.keyword? at h
    split at h
    next rest hrest => exact ⟨rest, hrest⟩
    · cases h
  obtain ⟨more, hmore, hhead, -⟩ := Text.beforeComment_uncomment rest
  rw [Directive.keyword?_of_trimStart hline, Text.beforeComment_trimStart] at h
  obtain ⟨rfl, -⟩ := Prod.mk.inj (Option.some.inj h)
  rw [Directive.keyword?_of_trimStart (trimStart_uncomment hline), Text.beforeComment_trimStart,
    hmore]
  -- The keyword is not empty, so what is trimmed in front ends before the first comment.
  have hstart : Text.trimStart (Text.beforeComment rest ++ more) =
      Text.trimStart (Text.beforeComment rest) ++ more := by
    rw [Text.trimStart, List.dropWhile_append]
    cases hrest : (Text.beforeComment rest).dropWhile Text.isBlank with
    | nil =>
      rw [Text.trimStart, hrest] at hword
      exact absurd rfl hword
    | cons c tail => simp [Text.trimStart, hrest]
  rw [hstart, Directive.cut, Directive.takeWhile_append_of_head? hhead]
  exact ⟨_, rfl⟩

/-- Behind the keywords that do not listen any text may stand. -/
theorem ofLine?_of_deaf {line line' keyword body body' : Text}
    (h : Directive.keyword? line = some (keyword, body))
    (h' : Directive.keyword? line' = some (keyword, body')) (hdeaf : keyword ∉ Directive.listening) :
    Directive.ofLine? line' = Directive.ofLine? line := by
  simp only [Directive.listening, List.mem_cons, List.not_mem_nil, or_false, not_or] at hdeaf
  obtain ⟨hif, hifdef, hifndef, helif, hdefine⟩ := hdeaf
  rw [Directive.ofLine?, Directive.ofLine?, h, h']
  simp only [if_neg hif, if_neg hifdef, if_neg hifndef, if_neg helif, if_neg hdefine]

/-- A line that tells everything in front of its first comment is the same directive without its
comments. -/
theorem TellsFirst.ofLine?_eq {line : Text} (h : TellsFirst line) :
    Directive.ofLine? (withoutComments line) = Directive.ofLine? line := by
  unfold withoutComments
  split
  next hpreprocessor =>
    cases h with
    | text other =>
      rw [hpreprocessor] at other
      cases other
    | plain bare => rw [bare]
    | remark starts tail =>
      rw [Directive.ofLine?, Directive.ofLine?, keyword?_uncomment_of_remark starts tail]
    | deaf reads word deaf =>
      obtain ⟨body', hbody'⟩ := keyword?_uncomment_of_word reads word
      exact ofLine?_of_deaf reads hbody' deaf
  next => rfl

/-! ## 3. Sources without comments -/

/-- What is found in a source is told by its directives. -/
theorem activeInputs_of_same {source other : Text} {inputs : List Input} {active : InputSet}
    (hsame : List.Forall₂ (fun line line' => Directive.ofLine? line' = Directive.ofLine? line)
      (Text.lines source) (Text.lines other))
    (h : activeInputs source inputs = .ok active) : activeInputs other inputs = .ok active := by
  -- Nothing is hidden: the scans differ at most in how the lines of their arms are written.
  have hspares : ∀ line ∈ Text.lines source, LineSpares (fun _ => False) line :=
    fun line _ test _ name _ hname => hname
  rw [activeInputs] at h ⊢
  split at h
  · cases h
  next last hlast =>
    obtain ⟨last', hlast', hlike⟩ :=
      Scan.run_of_like hsame hspares (Scan.like_refl rfl) 1 hlast
    rw [hlast']
    exact hlike.finish h

/-- Where every line tells everything in front of its first comment, comments do not matter. -/
theorem activeInputs_withoutComments {source bare : Text} {inputs : List Input}
    (hbare : Text.lines bare = (Text.lines source).map withoutComments)
    (htells : ∀ line ∈ Text.lines source, TellsFirst line) (active : InputSet) :
    activeInputs bare inputs = .ok active ↔ activeInputs source inputs = .ok active := by
  have hsame : List.Forall₂ (fun line line' => Directive.ofLine? line' = Directive.ofLine? line)
      (Text.lines source) (Text.lines bare) := by
    rw [hbare, List.forall₂_map_right_iff, List.forall₂_same]
    exact fun line hline => (htells line hline).ofLine?_eq
  exact ⟨activeInputs_of_same (hsame.flip.imp fun _ _ h => h.symm), activeInputs_of_same hsame⟩

/-- Lines with remarks, and one with a text behind a comment that is not read. -/
def remarked : List Text :=
  ["#define WIDE 2 /* texels */ // at most".toList, "#ifdef WIDE /* set above */".toList,
   "#define _ANKI_INPUT_SITE_far".toList, "#endif /* of */ WIDE".toList]

/-- The same lines without their block comments. -/
def unremarked : List Text :=
  ["#define WIDE 2   // at most".toList, "#ifdef WIDE  ".toList,
   "#define _ANKI_INPUT_SITE_far".toList, "#endif   WIDE".toList]

theorem activeInputs_withoutComments_remarked :
    Text.lines (Text.unlines unremarked) =
        (Text.lines (Text.unlines remarked)).map withoutComments ∧
      (∀ line ∈ Text.lines (Text.unlines remarked), TellsFirst line) ∧
      activeInputs (Text.unlines remarked) [farInput] = .ok (InputSet.empty.insert 0) ∧
      activeInputs (Text.unlines unremarked) [farInput] = .ok (InputSet.empty.insert 0) := by
  have hbare : Text.lines (Text.unlines unremarked) =
      (Text.lines (Text.unlines remarked)).map withoutComments := by decide +kernel
  have hlines : Text.lines (Text.unlines remarked) = remarked := by decide +kernel
  have htells : ∀ line ∈ Text.lines (Text.unlines remarked), TellsFirst line := by
    have hvalue : Text.Remark (Text.fromComment "define WIDE 2 /* texels */ // at most".toList) := by
      rw [show Text.fromComment "define WIDE 2 /* texels */ // at most".toList =
        "/* texels */ // at most".toList by decide +kernel]
      exact .block (by rfl) (.blank (by decide) (.line _))
    have hguard : Text.Remark (Text.fromComment "ifdef WIDE /* set above */".toList) := by
      rw [show Text.fromComment "ifdef WIDE /* set above */".toList = "/* set above */".toList by
        decide +kernel]
      exact .block (by rfl) .nil
    rw [hlines]
    simp only [remarked, List.forall_mem_cons]
    exact ⟨.remark (by rfl) hvalue, .remark (by rfl) hguard, .plain (by decide +kernel),
      .deaf (by rfl) (by decide) (by decide +kernel), by simp⟩
  have hactive : activeInputs (Text.unlines remarked) [farInput] =
      .ok (InputSet.empty.insert 0) := by decide +kernel
  exact ⟨hbare, htells, hactive, (activeInputs_withoutComments hbare htells _).mpr hactive⟩

/-- A source with the given text behind `#ifdef`. -/
def guardedBy (text : Text) : Text :=
  Text.unlines ["#define WIDE".toList, "#ifdef".toList ++ text,
    "#define _ANKI_INPUT_SITE_far".toList, "#endif".toList]

/-- A name behind a comment is lost, and with it the input that its guard keeps. -/
theorem activeInputs_ne_withoutComments :
    Text.lines (guardedBy "  WIDE".toList) =
        (Text.lines (guardedBy "/* set above */ WIDE".toList)).map withoutComments ∧
      activeInputs (guardedBy "  WIDE".toList) [farInput] = .ok (InputSet.empty.insert 0) ∧
      activeInputs (guardedBy "/* set above */ WIDE".toList) [farInput] = .ok InputSet.empty := by
  decide +kernel

end ShaderVariants.Condition
