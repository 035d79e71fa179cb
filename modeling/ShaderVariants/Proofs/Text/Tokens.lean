import ShaderVariants.Token

/-!
# Lines and their tokens

Which tokens a line has, said without the scanner: gaps and tokens stand in turn, every token goes
as far as it can, and behind the last one there is a gap and perhaps a comment (`Tokenized`).  The
scanner finds these tokens and no others (`tokenized_iff`).  A space ends every token that anything
but the end of its line could end, so a line that has these tokens between single spaces has the
same tokens (`Tokenized.spaced`).
-/

namespace ShaderVariants.Token

/-! ## 1. Words -/

/-- What ends a word: the end of its line, a gap or a comment. -/
inductive EndsWord : Text → Prop
  | lineEnd : EndsWord []
  | gap {c : Char} (rest : Text) (gap : isGap c = true) : EndsWord (c :: rest)
  | comment {rest : Text} (comment : Text.startsComment rest = true) : EndsWord rest

theorem EndsWord.of_gap {rest : Text} (h : ∀ c ∈ rest.head?, isGap c = true) : EndsWord rest := by
  cases rest with
  | nil => exact .lineEnd
  | cons c rest => exact .gap rest (h c rfl)

/-- A part of a word that `rest` follows: there is no gap in it, and no comment starts in it, not
even one whose second character belongs to `rest`. -/
structure Uncut (rest part : Text) : Prop where
  gaps : ∀ c ∈ part, isGap c = false
  comments : ∀ back, back <:+ part → back ≠ [] → Text.startsComment (back ++ rest) = false

theorem uncut_nil (rest : Text) : Uncut rest [] where
  gaps := List.forall_mem_nil _
  comments := fun _ hback hne => absurd (List.suffix_nil.mp hback) hne

theorem uncut_cons_iff {rest part : Text} {c : Char} :
    Uncut rest (c :: part) ↔
      (isGap c = false ∧ Text.startsComment (c :: (part ++ rest)) = false) ∧ Uncut rest part := by
  constructor
  · intro h
    have hcomment := h.comments (c :: part) (List.suffix_refl _) (List.cons_ne_nil c part)
    refine ⟨⟨h.gaps c List.mem_cons_self, hcomment⟩, ?_, ?_⟩
    · exact fun d hd => h.gaps d (List.mem_cons_of_mem c hd)
    · exact fun back hback => h.comments back (hback.trans (List.suffix_cons c part))
  · rintro ⟨⟨hgap, hcomment⟩, hpart⟩
    refine ⟨List.forall_mem_cons.mpr ⟨hgap, hpart.gaps⟩, fun back hback hne => ?_⟩
    rcases List.suffix_cons_iff.mp hback with rfl | hback
    · exact hcomment
    · exact hpart.comments back hback hne

theorem Uncut.of_plain {rest part : Text} (h : ∀ c ∈ part, isGap c = false ∧ c ≠ '/') :
    Uncut rest part := by
  induction part with
  | nil => exact uncut_nil rest
  | cons c part ih =>
    obtain ⟨⟨hgap, hslash⟩, hpart⟩ := List.forall_mem_cons.mp h
    exact uncut_cons_iff.mpr ⟨⟨hgap, Text.startsComment_eq_false hslash _⟩, ih hpart⟩

theorem takeWord_of_endsWord {rest : Text} (h : EndsWord rest) : takeWord rest = ([], rest) := by
  cases rest with
  | nil => rfl
  | cons c rest =>
    have hstop : (isGap c || Text.startsComment (c :: rest)) = true := by
      cases h with
      | gap _ hgap => rw [hgap, Bool.true_or]
      | comment hcomment => rw [hcomment, Bool.or_true]
    rw [takeWord, if_pos hstop]

/-- A word is taken as a whole. -/
theorem takeWord_append_of_uncut {word rest : Text} (hword : Uncut rest word)
    (hrest : EndsWord rest) : takeWord (word ++ rest) = (word, rest) := by
  induction word with
  | nil => exact takeWord_of_endsWord hrest
  | cons c word ih =>
    obtain ⟨⟨hgap, hcomment⟩, hword⟩ := uncut_cons_iff.mp hword
    rw [List.cons_append, takeWord, hgap, hcomment, Bool.or_self, if_neg Bool.false_ne_true,
      ih hword]

/-- Every text starts with a word, which may be empty. -/
theorem exists_uncut_append (t : Text) :
    ∃ word rest, t = word ++ rest ∧ Uncut rest word ∧ EndsWord rest := by
  induction t with
  | nil => exact ⟨[], [], rfl, uncut_nil [], .lineEnd⟩
  | cons c t ih =>
    cases hgap : isGap c with
    | true => exact ⟨[], c :: t, rfl, uncut_nil _, .gap t hgap⟩
    | false =>
      cases hcomment : Text.startsComment (c :: t) with
      | true => exact ⟨[], c :: t, rfl, uncut_nil _, .comment hcomment⟩
      | false =>
        obtain ⟨word, rest, rfl, hword, hrest⟩ := ih
        exact ⟨c :: word, rest, rfl, uncut_cons_iff.mpr ⟨⟨hgap, hcomment⟩, hword⟩, hrest⟩

/-! ## 2. Delimited tokens -/

/-- The characters that open a delimited token, each with the one that closes it. -/
inductive Delimits : Char → Char → Prop
  | quote : Delimits '"' '"'
  | angle : Delimits '<' '>'

theorem closing?_eq_some_iff {opening close : Char} :
    closing? opening = some close ↔ Delimits opening close := by
  constructor
  · intro h
    rw [closing?] at h
    split at h
    next hquote => exact hquote ▸ Option.some.inj h ▸ .quote
    split at h
    next hangle => exact hangle ▸ Option.some.inj h ▸ .angle
    · cases h
  · intro h
    cases h with
    | quote | angle => rfl

theorem closing?_eq_none_iff {c : Char} : closing? c = none ↔ c ≠ '"' ∧ c ≠ '<' := by
  rw [closing?]
  split
  next hquote => simp [hquote]
  next hquote =>
    split
    next hangle => simp [hangle]
    next hangle => simp [hquote, hangle]

/-- A character that opens a delimited token is no gap and starts no comment. -/
theorem Delimits.apart {opening close : Char} (h : Delimits opening close) :
    isGap opening = false ∧ opening ≠ '/' := by
  cases h with
  | quote | angle => decide

theorem takeThrough_append_close {close : Char} {inner : Text} (h : close ∉ inner) (rest : Text) :
    takeThrough close (inner ++ close :: rest) = (inner ++ [close], rest) := by
  induction inner with
  | nil => simp [takeThrough]
  | cons c inner ih =>
    obtain ⟨hc, hinner⟩ := not_or.mp (mt List.mem_cons.mpr h)
    rw [List.cons_append, takeThrough, if_neg (Ne.symm hc), ih hinner]
    rfl

theorem takeThrough_of_notMem {close : Char} {inner : Text} (h : close ∉ inner) :
    takeThrough close inner = (inner, []) := by
  induction inner with
  | nil => rfl
  | cons c inner ih =>
    obtain ⟨hc, hinner⟩ := not_or.mp (mt List.mem_cons.mpr h)
    rw [takeThrough, if_neg (Ne.symm hc), ih hinner]

/-! ## 3. Tokens in front of a rest -/

/-- A token of a line that goes on with `rest`. -/
inductive StandsBefore (rest : Text) : Text → Prop
  /-- A delimited token ends with the first closing character behind its opening one. -/
  | closed {opening close : Char} {inner : Text} (delimits : Delimits opening close)
      (first : close ∉ inner) : StandsBefore rest (opening :: (inner ++ [close]))
  /-- If there is no closing character, it ends with its line. -/
  | unclosed {opening close : Char} {inner : Text} (delimits : Delimits opening close)
      (unclosed : close ∉ inner) (last : rest = []) : StandsBefore rest (opening :: inner)
  /-- Any other token goes up to the next gap, the next comment or the end of its line. -/
  | word {c : Char} {more : Text} (plain : c ≠ '"' ∧ c ≠ '<') (uncut : Uncut rest (c :: more))
      (ends : EndsWord rest) : StandsBefore rest (c :: more)

theorem StandsBefore.ne_nil {rest token : Text} (h : StandsBefore rest token) : token ≠ [] := by
  cases h with
  | closed | unclosed | word => exact List.cons_ne_nil _ _

/-- The scanner takes a token as a whole. -/
theorem ofLine_append_of_standsBefore {rest token : Text} (h : StandsBefore rest token) :
    ofLine (token ++ rest) = token :: ofLine rest := by
  cases h with
  | @closed opening close inner delimits first =>
    obtain ⟨hgap, hslash⟩ := delimits.apart
    rw [List.cons_append, ofLine, hgap, if_neg Bool.false_ne_true,
      Text.startsComment_eq_false hslash, if_neg Bool.false_ne_true,
      closing?_eq_some_iff.mpr delimits, List.append_assoc, List.singleton_append]
    simp only [takeThrough_append_close first]
  | @unclosed opening close inner delimits unclosed last =>
    obtain ⟨hgap, hslash⟩ := delimits.apart
    rw [last, List.append_nil, ofLine_nil, ofLine, hgap, if_neg Bool.false_ne_true,
      Text.startsComment_eq_false hslash, if_neg Bool.false_ne_true,
      closing?_eq_some_iff.mpr delimits]
    simp only [takeThrough_of_notMem unclosed, ofLine_nil]
  | word plain uncut ends =>
    obtain ⟨⟨hgap, hcomment⟩, hmore⟩ := uncut_cons_iff.mp uncut
    rw [List.cons_append, ofLine, hgap, if_neg Bool.false_ne_true, hcomment,
      if_neg Bool.false_ne_true, closing?_eq_none_iff.mpr plain]
    simp only [takeWord_append_of_uncut hmore ends]

/-- A token starts wherever neither a gap nor a comment does. -/
theorem exists_standsBefore {c : Char} {t : Text} (hgap : isGap c = false)
    (hcomment : Text.startsComment (c :: t) = false) :
    ∃ token rest, c :: t = token ++ rest ∧ StandsBefore rest token := by
  cases hclosing : closing? c with
  | none =>
    obtain ⟨word, rest, rfl, hword, hrest⟩ := exists_uncut_append t
    have huncut := uncut_cons_iff.mpr ⟨⟨hgap, hcomment⟩, hword⟩
    exact ⟨c :: word, rest, rfl, .word (closing?_eq_none_iff.mp hclosing) huncut hrest⟩
  | some close =>
    have hdelimits := closing?_eq_some_iff.mp hclosing
    by_cases hclose : close ∈ t
    · obtain ⟨inner, rest, rfl, hfirst⟩ := List.eq_append_cons_of_mem hclose
      exact ⟨c :: (inner ++ [close]), rest, by simp, .closed hdelimits hfirst⟩
    · exact ⟨c :: t, [], by simp, .unclosed hdelimits hclose rfl⟩

/-! ## 4. Lines -/

/-- The tokens of a line, with what separates them. -/
inductive Tokenized : Text → List Text → Prop
  /-- Behind the last token there is a gap, and a comment may follow it. -/
  | tail (gap comment : Text) (gaps : ∀ c ∈ gap, isGap c = true)
      (rest : comment = [] ∨ Text.startsComment comment = true) : Tokenized (gap ++ comment) []
  /-- In front of a token there is a gap, which is empty where a delimited token ends. -/
  | token (gap : Text) {token rest : Text} {tokens : List Text} (gaps : ∀ c ∈ gap, isGap c = true)
      (stands : StandsBefore rest token) (more : Tokenized rest tokens) :
      Tokenized (gap ++ (token ++ rest)) (token :: tokens)

theorem ofLine_gaps_append {gap : Text} (h : ∀ c ∈ gap, isGap c = true) (t : Text) :
    ofLine (gap ++ t) = ofLine t := by
  induction gap with
  | nil => rfl
  | cons c gap ih =>
    obtain ⟨hc, hgap⟩ := List.forall_mem_cons.mp h
    rw [List.cons_append, ofLine, if_pos hc, ih hgap]

theorem ofLine_of_startsComment {t : Text} (h : Text.startsComment t = true) : ofLine t = [] := by
  cases t with
  | nil => exact ofLine_nil
  | cons c t =>
    have hslash : c = '/' := by
      apply Decidable.byContradiction
      intro hc
      rw [Text.startsComment_eq_false hc] at h
      cases h
    have hgap : isGap c = false := hslash ▸ by decide
    rw [ofLine, hgap, if_neg Bool.false_ne_true, if_pos h]

namespace Tokenized

variable {line : Text} {tokens : List Text}

theorem nil : Tokenized [] [] :=
  .tail [] [] (List.forall_mem_nil _) (Or.inl rfl)

theorem cons_gap {c : Char} (hc : isGap c = true) (h : Tokenized line tokens) :
    Tokenized (c :: line) tokens := by
  cases h with
  | tail gap comment gaps rest =>
    exact .tail (c :: gap) comment (List.forall_mem_cons.mpr ⟨hc, gaps⟩) rest
  | token gap gaps stands more =>
    exact .token (c :: gap) (List.forall_mem_cons.mpr ⟨hc, gaps⟩) stands more

theorem append_token {token : Text} (stands : StandsBefore line token)
    (h : Tokenized line tokens) : Tokenized (token ++ line) (token :: tokens) :=
  .token [] (List.forall_mem_nil _) stands h

/-- The scanner finds the tokens of a line. -/
theorem ofLine_eq (h : Tokenized line tokens) : ofLine line = tokens := by
  induction h with
  | tail gap comment gaps rest =>
    rw [ofLine_gaps_append gaps]
    rcases rest with rfl | hcomment
    · exact ofLine_nil
    · exact ofLine_of_startsComment hcomment
  | token gap gaps stands _ ih =>
    rw [ofLine_gaps_append gaps, ofLine_append_of_standsBefore stands, ih]

end Tokenized

/-- Every line has tokens. -/
theorem exists_tokenized (line : Text) : ∃ tokens, Tokenized line tokens := by
  -- The rest behind a token is shorter than the line, since no token is empty.
  induction hlength : line.length using Nat.strongRecOn generalizing line with
  | _ length ih =>
    subst hlength
    cases line with
    | nil => exact ⟨[], .nil⟩
    | cons c t =>
      cases hgap : isGap c with
      | true =>
        obtain ⟨tokens, htokens⟩ := ih t.length (Nat.lt_succ_self _) t rfl
        exact ⟨tokens, htokens.cons_gap hgap⟩
      | false =>
        cases hcomment : Text.startsComment (c :: t) with
        | true => exact ⟨[], .tail [] (c :: t) (List.forall_mem_nil _) (Or.inr hcomment)⟩
        | false =>
          obtain ⟨token, rest, hline, hstands⟩ := exists_standsBefore hgap hcomment
          have hshorter : rest.length < (c :: t).length := by
            rw [hline, List.length_append]
            have := List.length_pos_iff.mpr hstands.ne_nil
            omega
          obtain ⟨tokens, htokens⟩ := ih rest.length hshorter rest rfl
          exact ⟨token :: tokens, hline ▸ htokens.append_token hstands⟩

/-- The scanner finds the tokens that a line has. -/
theorem tokenized_iff {line : Text} {tokens : List Text} :
    Tokenized line tokens ↔ tokens = ofLine line := by
  constructor
  · exact fun h => h.ofLine_eq.symm
  · rintro rfl
    obtain ⟨tokens, htokens⟩ := exists_tokenized line
    rwa [htokens.ofLine_eq]

/-! ## 5. Tokens between single spaces -/

section

variable {rest other : Text}

/-- Whether a comment starts in a text depends on what stands behind only after a last slash, and
no gap makes a comment of that. -/
theorem startsComment_append_of_apart {back : Text} (hback : back ≠ [])
    (hother : ∀ c ∈ other.head?, isGap c = true)
    (h : Text.startsComment (back ++ rest) = false) : Text.startsComment (back ++ other) = false := by
  match back, other with
  | c :: d :: back, other =>
    simp only [List.cons_append, Text.startsComment_cons_cons] at h ⊢
    exact h
  | [c], [] => exact Text.startsComment_singleton c
  | [c], d :: other =>
    -- The second character is a gap, so it is neither a slash nor a star.
    have hd : d ≠ '/' ∧ d ≠ '*' := by
      constructor <;> (rintro rfl; exact absurd (hother _ rfl) (by decide))
    rw [List.singleton_append, Text.startsComment_cons_cons]
    simp [hd]
  | [], _ => exact absurd rfl hback

/-- A token stands in front of a gap, or at the end of a line, as it stands where it was found. -/
theorem StandsBefore.of_apart {token : Text} (h : StandsBefore rest token)
    (hlast : rest = [] → other = []) (hother : ∀ c ∈ other.head?, isGap c = true) :
    StandsBefore other token := by
  cases h with
  | closed delimits first => exact .closed delimits first
  | unclosed delimits unclosed last => exact .unclosed delimits unclosed (hlast last)
  | word plain uncut ends =>
    refine .word plain ⟨uncut.gaps, fun back hback hne => ?_⟩ (.of_gap hother)
    exact startsComment_append_of_apart hne hother (uncut.comments back hback hne)

end

/-- The tokens of a line are the tokens of the line that has them between single spaces. -/
theorem Tokenized.spaced {line : Text} {tokens : List Text} (h : Tokenized line tokens) :
    Tokenized (List.intercalate [' '] tokens) tokens := by
  induction h with
  | tail => exact .nil
  | @token gap token rest tokens gaps stands more ih =>
    cases tokens with
    | nil =>
      have hline : List.intercalate [' '] [token] = token ++ [] := by
        rw [List.intercalate_singleton, List.append_nil]
      rw [hline]
      exact Tokenized.nil.append_token (stands.of_apart (fun _ => rfl) (by simp))
    | cons next others =>
      -- A token that only its line ends is the last one.
      have hrest : rest ≠ [] := by
        rintro rfl
        exact absurd more.ofLine_eq (by simp)
      have hspace : isGap ' ' = true := by decide
      rw [List.intercalate_cons_cons, List.append_assoc, List.singleton_append]
      refine (ih.cons_gap hspace).append_token (stands.of_apart (fun h => absurd h hrest) ?_)
      exact fun c hc => Option.some.inj hc ▸ hspace

/-- The tokens of a line are exactly those that stand between its gaps and in front of its comment;
none is empty, and a line that has them between single spaces has the same tokens. -/
theorem ofLine_lossless (line : Text) :
    (∀ tokens, Tokenized line tokens ↔ tokens = ofLine line) ∧ [] ∉ ofLine line ∧
      ofLine (List.intercalate [' '] (ofLine line)) = ofLine line := by
  have htokens : Tokenized line (ofLine line) := tokenized_iff.mpr rfl
  refine ⟨fun tokens => tokenized_iff, ?_, htokens.spaced.ofLine_eq⟩
  exact fun hmem => ne_nil_of_mem_ofLine hmem rfl

example :
    ofLine "#include <a b>'c' \"d // e".toList =
      ["#include".toList, "<a b>".toList, "'c'".toList, "\"d // e".toList] := by
  decide +kernel

end ShaderVariants.Token
