import Mathlib.Data.List.Nodup
import Mathlib.Data.List.Sort
import ShaderVariants.Proofs.Program.Followed

/-!
# The grammar of rules

A rule is read from exactly the tokens of its grammar (`Draft.RuleForm`), and what is read has one
record for each mutator that its sides name.  The records stand in the order of the mutators, so
the order of the pairs on a side does not matter; a directive of any other form is refused, and
whoever follows it in place is left with the draft that there was
(`Draft.readRewriteInPlace_exact`).
-/

namespace ShaderVariants.Draft

/-! ## 1. The grammar -/

/-- The tokens of pairs of a name and a value. -/
def pairTokens (pairs : List (Text × Text)) : List Text :=
  pairs.flatMap fun pair => [pair.1, pair.2]

/-- A pair of a name and a value gives a declared value to the mutator of that name. -/
structure Gives (mutators : List Mutator) (pair : Text × Text) (assignment : Assignment) :
    Prop where
  place : mutators.findIdx? (fun mutator => mutator.name == pair.1) = some assignment.1
  number : readValue pair.2 = some assignment.2
  declared : DeclaredAt mutators assignment.1 assignment.2

/-- The pairs of a side: there are some, none names the mutator of another, and each gives a
declared value. -/
structure SideForm (mutators : List Mutator) (pairs : List (Text × Text)) : Prop where
  nonempty : pairs ≠ []
  once : (pairs.map Prod.fst).Nodup
  given : ∀ pair ∈ pairs, ∃ assignment, Gives mutators pair assignment

/-- The tokens of a rule: a single `to` between two sides that name the same mutators and differ in
some value. -/
structure RuleForm (mutators : List Mutator) (tokens : List Text)
    (left right : List (Text × Text)) : Prop where
  split : tokens = pairTokens left ++ "to".toList :: pairTokens right
  single : tokens.count "to".toList = 1
  sources : SideForm mutators left
  targets : SideForm mutators right
  same : ∀ name, name ∈ left.map Prod.fst ↔ name ∈ right.map Prod.fst
  changes : ∃ source ∈ left, ∃ target ∈ right,
    source.1 = target.1 ∧ readValue source.2 ≠ readValue target.2

/-- A rule has the records that the pairs of its sides ask for, by increasing place. -/
structure Denotes (mutators : List Mutator) (left right : List (Text × Text))
    (rule : Rewrite) : Prop where
  increasing : (rule.records.map RewriteRecord.mutator).Pairwise (· < ·)
  mem_iff : ∀ record, record ∈ rule.records ↔ ∃ source ∈ left, ∃ target ∈ right,
    Gives mutators source (record.mutator, record.source) ∧
      Gives mutators target (record.mutator, record.target)

section

variable {mutators : List Mutator} {left right left' right' : List (Text × Text)}
  {tokens : List Text}

/-! ## 2. What a pair gives -/

theorem Gives.name_eq {pair : Text × Text} {assignment : Assignment}
    (h : Gives mutators pair assignment) :
    ∃ mutator, mutators[assignment.1]? = some mutator ∧ mutator.name = pair.1 := by
  obtain ⟨hlt, hname, -⟩ := List.findIdx?_eq_some_iff_getElem.mp h.place
  exact ⟨_, List.getElem?_eq_getElem hlt, beq_iff_eq.mp hname⟩

/-- Pairs name the same mutator exactly if they have the same name. -/
theorem Gives.place_eq_iff {first second : Text × Text} {a b : Assignment}
    (hfirst : Gives mutators first a) (hsecond : Gives mutators second b) :
    a.1 = b.1 ↔ first.1 = second.1 := by
  constructor
  · intro hplace
    obtain ⟨mutator, hmutator, hname⟩ := hfirst.name_eq
    obtain ⟨other, hother, hsame⟩ := hsecond.name_eq
    rw [hplace, hother] at hmutator
    obtain rfl := Option.some.inj hmutator
    rw [← hname, hsame]
  · intro hname
    have hplace := hfirst.place
    rw [hname, hsecond.place] at hplace
    exact (Option.some.inj hplace).symm

theorem Gives.unique {pair : Text × Text} {a b : Assignment} (ha : Gives mutators pair a)
    (hb : Gives mutators pair b) : a = b :=
  Prod.ext ((ha.place_eq_iff hb).mpr rfl) (Option.some.inj (ha.number.symm.trans hb.number))

theorem readPair_eq_ok_iff {side : List Assignment} {pair : Text × Text} {assignment : Assignment} :
    readPair mutators side pair.1 pair.2 = .ok assignment ↔
      Gives mutators pair assignment ∧ assignment.1 ∉ side.map Prod.fst := by
  constructor
  · intro h
    rw [readPair] at h
    split at h
    · cases h
    next place hplace =>
    split at h
    · cases h
    next number hnumber =>
    split at h
    · cases h
    next hdeclared =>
    split at h
    · cases h
    next hfresh =>
    obtain rfl := Except.ok.inj h
    refine ⟨⟨hplace, hnumber, ?_⟩, fun hmem => hfresh ?_⟩
    · simpa [DeclaredAt, Option.any_eq_true] using hdeclared
    · obtain ⟨seen, hseen, hsame⟩ := List.mem_map.mp hmem
      exact List.any_eq_true.mpr ⟨seen, hseen, beq_iff_eq.mpr hsame⟩
  · rintro ⟨⟨hplace, hnumber, mutator, hmutator, hvalue⟩, hfresh⟩
    have hunused : (side.any fun seen => seen.1 == assignment.1) = false := by
      rw [List.any_eq_false]
      intro seen hseen hsame
      exact hfresh (beq_iff_eq.mp hsame ▸ List.mem_map_of_mem hseen)
    rw [readPair, hplace]
    simp only [hnumber, hmutator, Option.any_some, hvalue, hunused, Bool.not_true,
      Bool.false_eq_true, if_false]

/-! ## 3. Sides -/

theorem pairTokens_cons (pair : Text × Text) (pairs : List (Text × Text)) :
    pairTokens (pair :: pairs) = pair.1 :: pair.2 :: pairTokens pairs := rfl

theorem length_pairTokens (pairs : List (Text × Text)) :
    (pairTokens pairs).length = 2 * pairs.length := by
  induction pairs with
  | nil => rfl
  | cons pair pairs ih =>
    rw [pairTokens_cons, List.length_cons, List.length_cons, ih, List.length_cons]
    omega

theorem exists_pairTokens : ∀ tokens : List Text, tokens.length % 2 = 0 →
    ∃ pairs, tokens = pairTokens pairs
  | [], _ => ⟨[], rfl⟩
  | [token], h => by simp at h
  | name :: value :: rest, h => by
    have hrest : rest.length % 2 = 0 := by
      rw [List.length_cons, List.length_cons] at h
      omega
    obtain ⟨pairs, rfl⟩ := exists_pairTokens rest hrest
    exact ⟨(name, value) :: pairs, rfl⟩

/-- The pairs are read one by one, each into a mutator that none before it names. -/
theorem readPairs_eq_ok_iff (side : List Assignment) {result : List Assignment}
    (hside : (side.map Prod.fst).Nodup) :
    readPairs mutators side (pairTokens left) = .ok result ↔
      ∃ assignments, List.Forall₂ (Gives mutators) left assignments ∧
        result = side ++ assignments ∧ (result.map Prod.fst).Nodup := by
  induction left generalizing side with
  | nil =>
    show Except.ok side = .ok result ↔ _
    constructor
    · intro h
      obtain rfl := Except.ok.inj h
      exact ⟨[], .nil, (List.append_nil _).symm, hside⟩
    · rintro ⟨assignments, hgiven, rfl, -⟩
      cases hgiven
      rw [List.append_nil]
  | cons pair pairs ih =>
    rw [pairTokens_cons, readPairs]
    constructor
    · intro h
      split at h
      · cases h
      next assignment hread =>
      obtain ⟨hgives, hfresh⟩ := readPair_eq_ok_iff.mp hread
      have hnext : ((side ++ [assignment]).map Prod.fst).Nodup := by
        rw [List.map_append]
        exact hside.append (List.nodup_singleton _) (List.disjoint_singleton.mpr hfresh)
      obtain ⟨assignments, hgiven, rfl, hnodup⟩ := (ih (side ++ [assignment]) hnext).mp h
      exact ⟨assignment :: assignments, .cons hgives hgiven, by simp, hnodup⟩
    · rintro ⟨assignments, hgiven, rfl, hnodup⟩
      obtain ⟨assignment, rest, hgives, hrest, rfl⟩ := List.forall₂_cons_left_iff.mp hgiven
      have hnext : ((side ++ [assignment]).map Prod.fst).Nodup := by
        rw [List.append_cons, List.map_append] at hnodup
        exact (List.nodup_append.mp hnodup).1
      have hfresh : assignment.1 ∉ side.map Prod.fst := by
        rw [List.map_append, List.map_singleton] at hnext
        exact List.disjoint_singleton.mp (List.disjoint_of_nodup_append hnext)
      -- The places behind are free as well once the first assignment is among those read.
      rw [readPair_eq_ok_iff.mpr ⟨hgives, hfresh⟩]
      exact (ih (side ++ [assignment]) hnext).mpr ⟨rest, hrest, List.append_cons .., hnodup⟩

theorem exists_forall₂_iff :
    (∃ assignments, List.Forall₂ (Gives mutators) left assignments) ↔
      ∀ pair ∈ left, ∃ assignment, Gives mutators pair assignment := by
  induction left with
  | nil => simp
  | cons pair pairs ih =>
    rw [List.forall_mem_cons, ← ih]
    constructor
    · rintro ⟨_, hgives | ⟨hgives, hrest⟩⟩
      exact ⟨⟨_, hgives⟩, _, hrest⟩
    · rintro ⟨⟨assignment, hgives⟩, assignments, hrest⟩
      exact ⟨assignment :: assignments, .cons hgives hrest⟩

/-- Distinct names are distinct mutators. -/
theorem nodup_places_iff {assignments : List Assignment}
    (h : List.Forall₂ (Gives mutators) left assignments) :
    (assignments.map Prod.fst).Nodup ↔ (left.map Prod.fst).Nodup := by
  have hplaces : List.Forall₂
      (fun name place => ∃ pair a, Gives mutators pair a ∧ pair.1 = name ∧ a.1 = place)
      (left.map Prod.fst) (assignments.map Prod.fst) := by
    rw [List.forall₂_map_left_iff, List.forall₂_map_right_iff]
    exact h.imp fun pair a hgives => ⟨pair, a, hgives, rfl, rfl⟩
  refine (List.rel_nodup ⟨?_, ?_⟩ hplaces).symm
  · rintro name place other ⟨pair, a, ha, rfl, rfl⟩ ⟨pair', b, hb, rfl, hsame⟩
    exact (ha.place_eq_iff hb).mp hsame.symm
  · rintro name place other ⟨pair, a, ha, rfl, rfl⟩ ⟨pair', b, hb, hsame, rfl⟩
    exact (ha.place_eq_iff hb).mpr hsame.symm

theorem mem_iff_of_forall₂ {assignments : List Assignment}
    (h : List.Forall₂ (Gives mutators) left assignments) {assignment : Assignment} :
    assignment ∈ assignments ↔ ∃ pair ∈ left, Gives mutators pair assignment := by
  induction h with
  | nil => simp
  | @cons pair given pairs assignments hgives _ ih =>
    have hfirst : assignment = given ↔ Gives mutators pair assignment :=
      ⟨fun heq => heq ▸ hgives, fun h => h.unique hgives⟩
    rw [List.mem_cons, ih, hfirst, List.exists_mem_cons_iff]

/-- Lists in strict order are equal if they have the same members. -/
theorem eq_of_increasing {α : Type} (key : α → Nat) {xs ys : List α}
    (hxs : (xs.map key).Pairwise (· < ·)) (hys : (ys.map key).Pairwise (· < ·))
    (hmem : ∀ x, x ∈ xs ↔ x ∈ ys) : xs = ys := by
  have hperm : xs.Perm ys :=
    (List.perm_ext_iff_of_nodup (List.Nodup.of_map key (hxs.imp Nat.ne_of_lt))
      (List.Nodup.of_map key (hys.imp Nat.ne_of_lt))).mpr hmem
  rw [List.pairwise_map] at hxs hys
  exact hperm.eq_of_pairwise (fun a b _ _ hab hba => absurd hab (Nat.lt_asymm hba)) hxs hys

/-- What is read of a side: an assignment for each pair, by increasing place. -/
structure Side (mutators : List Mutator) (pairs : List (Text × Text))
    (side : List Assignment) : Prop where
  increasing : (side.map Prod.fst).Pairwise (· < ·)
  mem_iff : ∀ assignment, assignment ∈ side ↔ ∃ pair ∈ pairs, Gives mutators pair assignment

theorem readSide_pairTokens (pairs : List (Text × Text)) :
    readSide mutators (pairTokens pairs) =
      (readPairs mutators [] (pairTokens pairs)).map inOrder := by
  have heven : ¬ (pairTokens pairs).length % 2 ≠ 0 := by
    rw [length_pairTokens]
    omega
  rw [readSide, if_neg heven]

theorem side_of_readSide {side : List Assignment}
    (h : readSide mutators (pairTokens left) = .ok side) :
    (left.map Prod.fst).Nodup ∧ (∀ pair ∈ left, ∃ assignment, Gives mutators pair assignment) ∧
      Side mutators left side := by
  have hincreasing := (sideSound_of_readSide h).2
  rw [readSide_pairTokens] at h
  cases hread : readPairs mutators [] (pairTokens left) with
  | error fault => simp [hread, Except.map] at h
  | ok assignments =>
    obtain rfl : inOrder assignments = side := by simpa [hread, Except.map] using h
    obtain ⟨_, hgiven, rfl, hnodup⟩ := (readPairs_eq_ok_iff [] List.nodup_nil).mp hread
    refine ⟨(nodup_places_iff hgiven).mp hnodup, exists_forall₂_iff.mp ⟨_, hgiven⟩,
      hincreasing, fun assignment => ?_⟩
    rw [(perm_inOrder _).mem_iff]
    exact mem_iff_of_forall₂ hgiven

theorem exists_readSide (hform : SideForm mutators left) :
    ∃ side, readSide mutators (pairTokens left) = .ok side := by
  obtain ⟨assignments, hgiven⟩ := exists_forall₂_iff.mpr hform.given
  have hnodup := (nodup_places_iff hgiven).mpr hform.once
  rw [readSide_pairTokens, (readPairs_eq_ok_iff [] List.nodup_nil).mpr
    ⟨assignments, hgiven, rfl, hnodup⟩]
  exact ⟨inOrder assignments, rfl⟩

/-! ## 4. Joining the sides -/

/-- Sides that name the same mutators are joined mutator by mutator. -/
theorem mem_zipWith_iff {sources targets : List Assignment}
    (hsame : sources.map Prod.fst = targets.map Prod.fst) (hnodup : (sources.map Prod.fst).Nodup)
    {record : RewriteRecord} :
    record ∈ List.zipWith (fun a b => (⟨a.1, a.2, b.2⟩ : RewriteRecord)) sources targets ↔
      (record.mutator, record.source) ∈ sources ∧ (record.mutator, record.target) ∈ targets := by
  obtain ⟨place, source, target⟩ := record
  induction sources generalizing targets with
  | nil => simp
  | cons a sources ih =>
    cases targets with
    | nil => cases hsame
    | cons b targets =>
      obtain ⟨first, value⟩ := a
      obtain ⟨hplace, hrest⟩ : first = b.1 ∧ sources.map Prod.fst = targets.map Prod.fst :=
        List.cons.inj hsame
      obtain ⟨hfresh, hnodup⟩ := List.nodup_cons.mp hnodup
      have hsources : ∀ v, (first, v) ∉ sources := fun v hv =>
        hfresh (List.mem_map.mpr ⟨_, hv, rfl⟩)
      have htargets : ∀ v, (first, v) ∉ targets := fun v hv =>
        hfresh (hrest ▸ List.mem_map.mpr ⟨_, hv, rfl⟩)
      obtain ⟨_, new⟩ := b
      obtain rfl := hplace
      rw [List.zipWith_cons_cons, List.mem_cons, List.mem_cons, List.mem_cons, ih hrest hnodup]
      by_cases hfirst : place = first
      -- The first mutator of both sides is in neither of what follows.
      · subst hfirst
        simp [hsources, htargets]
      · simp [hfirst]

theorem joinSides_eq_ok_iff {sources targets : List Assignment} {rule : Rewrite} :
    joinSides sources targets = .ok rule ↔
      sources ≠ [] ∧ sources.map Prod.fst = targets.map Prod.fst ∧
        rule.records = List.zipWith (fun a b => ⟨a.1, a.2, b.2⟩) sources targets ∧
        ∃ record ∈ rule.records, record.source ≠ record.target := by
  obtain ⟨records⟩ := rule
  constructor
  · intro h
    rw [joinSides] at h
    split at h
    · cases h
    next hnonempty =>
    split at h
    · cases h
    next hsame =>
    simp only at h
    split at h
    · cases h
    next hchange =>
    obtain rfl := Rewrite.mk.inj (Except.ok.inj h)
    exact ⟨by simpa using hnonempty, Decidable.not_not.mp hsame, rfl, by simpa using hchange⟩
  · rintro ⟨hnonempty, hsame, rfl, hchange⟩
    rw [joinSides, if_neg (by simpa using hnonempty), if_neg (not_not_intro hsame)]
    exact if_neg (by simpa using hchange)

theorem mem_places_iff {side : List Assignment} (h : Side mutators left side) {place : Nat} :
    place ∈ side.map Prod.fst ↔ ∃ pair ∈ left, ∃ value, Gives mutators pair (place, value) := by
  constructor
  · intro hplace
    obtain ⟨assignment, hassignment, rfl⟩ := List.mem_map.mp hplace
    obtain ⟨pair, hpair, hgives⟩ := (h.mem_iff assignment).mp hassignment
    exact ⟨pair, hpair, assignment.2, hgives⟩
  · rintro ⟨pair, hpair, value, hgives⟩
    exact List.mem_map.mpr ⟨_, (h.mem_iff _).mpr ⟨pair, hpair, hgives⟩, rfl⟩

/-- A side whose mutators are all on the other side has all its names there, and conversely. -/
theorem places_subset_iff {sources targets : List Assignment}
    (hsources : Side mutators left sources) (htargets : Side mutators right targets)
    (hleft : ∀ pair ∈ left, ∃ assignment, Gives mutators pair assignment)
    (hright : ∀ pair ∈ right, ∃ assignment, Gives mutators pair assignment) :
    sources.map Prod.fst ⊆ targets.map Prod.fst ↔ left.map Prod.fst ⊆ right.map Prod.fst := by
  constructor
  · intro hsubset name hname
    obtain ⟨pair, hpair, rfl⟩ := List.mem_map.mp hname
    obtain ⟨assignment, hgives⟩ := hleft pair hpair
    have hplace := hsubset ((mem_places_iff hsources).mpr ⟨pair, hpair, assignment.2, hgives⟩)
    obtain ⟨other, hother, value, hsame⟩ := (mem_places_iff htargets).mp hplace
    rw [(hgives.place_eq_iff hsame).mp rfl]
    exact List.mem_map_of_mem hother
  · intro hsubset place hplace
    obtain ⟨pair, hpair, value, hgives⟩ := (mem_places_iff hsources).mp hplace
    obtain ⟨other, hother, hname⟩ := List.mem_map.mp (hsubset (List.mem_map_of_mem hpair))
    obtain ⟨assignment, hsame⟩ := hright other hother
    have heq : assignment.1 = place := (hsame.place_eq_iff hgives).mpr hname
    exact (mem_places_iff htargets).mpr ⟨other, hother, assignment.2, heq ▸ hsame⟩

theorem places_eq_iff {sources targets : List Assignment}
    (hsources : Side mutators left sources) (htargets : Side mutators right targets)
    (hleft : ∀ pair ∈ left, ∃ assignment, Gives mutators pair assignment)
    (hright : ∀ pair ∈ right, ∃ assignment, Gives mutators pair assignment) :
    sources.map Prod.fst = targets.map Prod.fst ↔
      ∀ name, name ∈ left.map Prod.fst ↔ name ∈ right.map Prod.fst := by
  have hforth := places_subset_iff hsources htargets hleft hright
  have hback := places_subset_iff htargets hsources hright hleft
  constructor
  · intro heq name
    exact ⟨fun h => hforth.mp (heq ▸ List.Subset.refl _) h,
      fun h => hback.mp (heq ▸ List.Subset.refl _) h⟩
  · intro hnames
    apply eq_of_increasing id (by simpa using hsources.increasing)
      (by simpa using htargets.increasing)
    intro place
    exact ⟨fun h => hforth.mpr (fun name => (hnames name).mp) h,
      fun h => hback.mpr (fun name => (hnames name).mpr) h⟩

theorem denotes_of_records {sources targets : List Assignment} {rule : Rewrite}
    (hsources : Side mutators left sources) (htargets : Side mutators right targets)
    (hsame : sources.map Prod.fst = targets.map Prod.fst)
    (hrecords : rule.records = List.zipWith (fun a b => ⟨a.1, a.2, b.2⟩) sources targets) :
    Denotes mutators left right rule := by
  constructor
  · rw [hrecords, map_mutator_zipWith hsame]
    exact hsources.increasing
  · intro record
    rw [hrecords, mem_zipWith_iff hsame (hsources.increasing.imp Nat.ne_of_lt), hsources.mem_iff,
      htargets.mem_iff]
    constructor
    · rintro ⟨⟨source, hsource, hgives⟩, target, htarget, hgives'⟩
      exact ⟨source, hsource, target, htarget, hgives, hgives'⟩
    · rintro ⟨source, hsource, target, htarget, hgives, hgives'⟩
      exact ⟨⟨source, hsource, hgives⟩, target, htarget, hgives'⟩

/-- A value is changed exactly if some pairs of the same name differ in the number. -/
theorem Denotes.changes_iff {rule : Rewrite} (h : Denotes mutators left right rule)
    (hleft : ∀ pair ∈ left, ∃ assignment, Gives mutators pair assignment)
    (hright : ∀ pair ∈ right, ∃ assignment, Gives mutators pair assignment) :
    (∃ record ∈ rule.records, record.source ≠ record.target) ↔
      ∃ source ∈ left, ∃ target ∈ right,
        source.1 = target.1 ∧ readValue source.2 ≠ readValue target.2 := by
  constructor
  · rintro ⟨record, hrecord, hchange⟩
    obtain ⟨source, hsource, target, htarget, hgives, hgives'⟩ := (h.mem_iff record).mp hrecord
    refine ⟨source, hsource, target, htarget, (hgives.place_eq_iff hgives').mp rfl, ?_⟩
    rw [hgives.number, hgives'.number]
    exact fun heq => hchange (Option.some.inj heq)
  · rintro ⟨source, hsource, target, htarget, hname, hchange⟩
    obtain ⟨a, ha⟩ := hleft source hsource
    obtain ⟨b, hb⟩ := hright target htarget
    have hplace : a.1 = b.1 := (ha.place_eq_iff hb).mpr hname
    have hb' : Gives mutators target (a.1, b.2) := hplace ▸ hb
    refine ⟨⟨a.1, a.2, b.2⟩, (h.mem_iff _).mpr ⟨source, hsource, target, htarget, ha, hb'⟩, ?_⟩
    rw [ha.number, hb.number] at hchange
    exact fun heq => hchange (congrArg some heq)

/-! ## 5. Rules -/

theorem count_to_eq_one_iff {sources targets : List Text} :
    (sources ++ "to".toList :: targets).count "to".toList = 1 ↔
      "to".toList ∉ sources ∧ "to".toList ∉ targets := by
  rw [List.count_append, List.count_cons_self, ← List.count_eq_zero, ← List.count_eq_zero]
  omega

/-- The tokens are cut at `to` if it is there exactly once. -/
theorem sides?_eq_some_iff {sources targets : List Text} :
    sides? tokens = some (sources, targets) ↔
      tokens = sources ++ "to".toList :: targets ∧ tokens.count "to".toList = 1 := by
  constructor
  · intro h
    have hcut := List.takeWhile_append_dropWhile (p := (· != "to".toList)) (l := tokens)
    have hstop := List.head?_dropWhile_not (· != "to".toList) tokens
    rw [sides?] at h
    split at h
    · cases h
    next word right hdrop =>
    split at h
    · cases h
    next hsingle =>
    obtain ⟨rfl, rfl⟩ := Prod.mk.inj (Option.some.inj h)
    rw [hdrop] at hcut hstop
    obtain rfl : word = "to".toList := by simpa using hstop
    refine ⟨hcut.symm, ?_⟩
    rw [← hcut, count_to_eq_one_iff]
    refine ⟨fun hmem => ?_, fun hmem => hsingle (List.contains_iff_mem.mpr hmem)⟩
    simpa using List.all_eq_true.mp List.all_takeWhile _ hmem
  · rintro ⟨rfl, hcount⟩
    obtain ⟨hleft, hright⟩ := count_to_eq_one_iff.mp hcount
    exact sides?_append (fun token htoken heq => hleft (heq ▸ htoken))
      (fun token htoken heq => hright (heq ▸ htoken))

theorem Denotes.unique {rule other : Rewrite} (h : Denotes mutators left right rule)
    (hother : Denotes mutators left right other) : rule = other := by
  obtain ⟨records⟩ := rule
  obtain ⟨others⟩ := other
  have hrecords : records = others := by
    apply eq_of_increasing RewriteRecord.mutator h.increasing hother.increasing
    intro record
    exact (h.mem_iff record).trans (hother.mem_iff record).symm
  rw [hrecords]

theorem length_of_readSide {side : List Assignment} (h : readSide mutators tokens = .ok side) :
    tokens.length % 2 = 0 := by
  rw [readSide] at h
  split at h
  · cases h
  next heven => exact Decidable.not_not.mp heven

/-- What is read has the form of a rule and means what its pairs say. -/
theorem ruleForm_of_readRule {rule : Rewrite} (h : readRule mutators tokens = .ok rule) :
    ∃ left right, RuleForm mutators tokens left right ∧ Denotes mutators left right rule := by
  rw [readRule] at h
  split at h
  · cases h
  next sourceTokens targetTokens hsides =>
  split at h
  · cases h
  next sources hsources =>
  split at h
  · cases h
  next targets htargets =>
  obtain ⟨left, rfl⟩ := exists_pairTokens sourceTokens (length_of_readSide hsources)
  obtain ⟨right, rfl⟩ := exists_pairTokens targetTokens (length_of_readSide htargets)
  obtain ⟨hsplit, hsingle⟩ := sides?_eq_some_iff.mp hsides
  obtain ⟨honce, hgiven, hleft⟩ := side_of_readSide hsources
  obtain ⟨honce', hgiven', hright⟩ := side_of_readSide htargets
  obtain ⟨-, hplaces, hrecords, record, hrecord, hdiffers⟩ := joinSides_eq_ok_iff.mp h
  have hdenotes := denotes_of_records hleft hright hplaces hrecords
  obtain ⟨source, hsource, target, htarget, -⟩ := (hdenotes.mem_iff record).mp hrecord
  refine ⟨left, right, ?_, hdenotes⟩
  exact {
    split := hsplit
    single := hsingle
    sources := ⟨List.ne_nil_of_mem hsource, honce, hgiven⟩
    targets := ⟨List.ne_nil_of_mem htarget, honce', hgiven'⟩
    same := (places_eq_iff hleft hright hgiven hgiven').mp hplaces
    changes := (hdenotes.changes_iff hgiven hgiven').mp ⟨record, hrecord, hdiffers⟩ }

/-- Whatever has the form of a rule is read. -/
theorem exists_readRule (form : RuleForm mutators tokens left right) :
    ∃ rule, readRule mutators tokens = .ok rule ∧ Denotes mutators left right rule := by
  obtain ⟨sources, hsources⟩ := exists_readSide form.sources
  obtain ⟨targets, htargets⟩ := exists_readSide form.targets
  obtain ⟨-, hgiven, hleft⟩ := side_of_readSide hsources
  obtain ⟨-, hgiven', hright⟩ := side_of_readSide htargets
  have hplaces := (places_eq_iff hleft hright hgiven hgiven').mpr form.same
  let rule : Rewrite := ⟨List.zipWith (fun a b => ⟨a.1, a.2, b.2⟩) sources targets⟩
  have hdenotes : Denotes mutators left right rule := denotes_of_records hleft hright hplaces rfl
  have hchange := (hdenotes.changes_iff hgiven hgiven').mpr form.changes
  -- Some pair is there, and what it gives is among what was read.
  have hnonempty : sources ≠ [] := by
    obtain ⟨pair, hpair⟩ := List.exists_mem_of_ne_nil left form.sources.nonempty
    obtain ⟨assignment, hgives⟩ := hgiven pair hpair
    exact List.ne_nil_of_mem ((hleft.mem_iff assignment).mpr ⟨pair, hpair, hgives⟩)
  have hjoin : joinSides sources targets = .ok rule :=
    joinSides_eq_ok_iff.mpr ⟨hnonempty, hplaces, rfl, hchange⟩
  refine ⟨rule, ?_, hdenotes⟩
  rw [readRule, sides?_eq_some_iff.mpr ⟨form.split, form.single⟩]
  simp only [hsources, htargets, hjoin]

/-! ## 6. The order of the pairs -/

theorem SideForm.perm (form : SideForm mutators left) (h : left'.Perm left) :
    SideForm mutators left' where
  nonempty := fun hnil => form.nonempty (hnil ▸ h.symm).eq_nil
  once := (h.map Prod.fst).nodup_iff.mpr form.once
  given := fun pair hpair => form.given pair (h.mem_iff.mp hpair)

theorem RuleForm.perm (form : RuleForm mutators tokens left right) (hleft : left'.Perm left)
    (hright : right'.Perm right) :
    RuleForm mutators (pairTokens left' ++ "to".toList :: pairTokens right') left' right' where
  split := rfl
  single := by
    have htokens : (pairTokens left' ++ "to".toList :: pairTokens right').Perm tokens := by
      rw [form.split]
      exact (hleft.flatMap_right _).append ((hright.flatMap_right _).cons _)
    rw [htokens.count_eq, form.single]
  sources := form.sources.perm hleft
  targets := form.targets.perm hright
  same := fun name => by
    rw [(hleft.map Prod.fst).mem_iff, (hright.map Prod.fst).mem_iff, form.same name]
  changes := by
    obtain ⟨source, hsource, target, htarget, hchange⟩ := form.changes
    exact ⟨source, hleft.mem_iff.mpr hsource, target, hright.mem_iff.mpr htarget, hchange⟩

theorem Denotes.perm {rule : Rewrite} (h : Denotes mutators left right rule)
    (hleft : left'.Perm left) (hright : right'.Perm right) :
    Denotes mutators left' right' rule where
  increasing := h.increasing
  mem_iff := fun record => by simp only [h.mem_iff, hleft.mem_iff, hright.mem_iff]

/-- Sides that are written in another order make the same rule. -/
theorem readRule_perm {rule : Rewrite} (form : RuleForm mutators tokens left right)
    (hread : readRule mutators tokens = .ok rule) (hleft : left'.Perm left)
    (hright : right'.Perm right) :
    readRule mutators (pairTokens left' ++ "to".toList :: pairTokens right') = .ok rule := by
  obtain ⟨found, hfound, hdenotes⟩ := exists_readRule form
  obtain rfl : found = rule := Except.ok.inj (hfound.symm.trans hread)
  obtain ⟨other, hother, hdenotes'⟩ := exists_readRule (form.perm hleft hright)
  rw [hother, hdenotes'.unique (hdenotes.perm hleft hright)]

end

/-! ## 7. The directive, followed in place -/

/-- A fault in a rule is what the directive fails with. -/
def orMalformed {α : Type} : Except RewriteFault α → ExceptT Cause (StateM Draft) α
  | .ok value => pure value
  | .error fault => throw (.malformedRewrite fault)

/-- Reads a side of a rule against the mutators declared so far. -/
def readSideInPlace (tokens : List Text) : ExceptT Cause (StateM Draft) (List Assignment) := do
  orMalformed (readSide (← get).mutators tokens)

/-- The directive `rewrite_mutation NAME VALUE ... to NAME VALUE ...`, which changes the draft. -/
def readRewriteInPlace (tokens : List Text) : ExceptT Cause (StateM Draft) Unit := do
  let some (left, right) := sides? tokens | throw (.malformedRewrite .form)
  let sources ← readSideInPlace left
  let targets ← readSideInPlace right
  let rule ← orMalformed (joinSides sources targets)
  modify fun draft => { draft with rewrites := rule :: draft.rewrites }

/-- How a directive ends and the draft that it leaves. -/
def leave (draft : Draft) : Except Cause Draft → Except Cause Unit × Draft
  | .ok next => (.ok (), next)
  | .error cause => (.error cause, draft)

theorem run_orMalformed_bind {α β : Type} (outcome : Except RewriteFault α)
    (rest : α → ExceptT Cause (StateM Draft) β) (draft : Draft) :
    (orMalformed outcome >>= rest).run.run draft =
      match outcome with
      | .ok value => (rest value).run.run draft
      | .error fault => (.error (.malformedRewrite fault), draft) := by
  cases outcome <;> rfl

theorem run_readSideInPlace_bind {β : Type} (tokens : List Text)
    (rest : List Assignment → ExceptT Cause (StateM Draft) β) (draft : Draft) :
    (readSideInPlace tokens >>= rest).run.run draft =
      (orMalformed (readSide draft.mutators tokens) >>= rest).run.run draft := rfl

/-- In place, the directive leaves the draft that it makes, or the one that there was. -/
theorem readRewriteInPlace_eq (draft : Draft) (tokens : List Text) :
    (readRewriteInPlace tokens).run.run draft = draft.leave (draft.readRewrite tokens) := by
  rw [readRewriteInPlace, readRewrite, readRule]
  cases sides? tokens with
  | none => rfl
  | some sides =>
    obtain ⟨left, right⟩ := sides
    simp only [run_readSideInPlace_bind, run_orMalformed_bind]
    cases readSide draft.mutators left with
    | error fault => rfl
    | ok sources =>
      cases readSide draft.mutators right with
      | error fault => rfl
      | ok targets =>
        dsimp only
        cases joinSides sources targets <;> rfl

theorem readRewriteInPlace_of_readRule {draft : Draft} {tokens : List Text} {rule : Rewrite}
    (h : readRule draft.mutators tokens = .ok rule) :
    (readRewriteInPlace tokens).run.run draft =
      (.ok (), { draft with rewrites := rule :: draft.rewrites }) := by
  rw [readRewriteInPlace_eq, readRewrite, h]
  rfl

theorem readRewriteInPlace_of_fault {draft : Draft} {tokens : List Text} {fault : RewriteFault}
    (h : readRule draft.mutators tokens = .error fault) :
    (readRewriteInPlace tokens).run.run draft = (.error (.malformedRewrite fault), draft) := by
  rw [readRewriteInPlace_eq, readRewrite, h]
  rfl

/-- The directive of a rule is followed exactly if its tokens are those of a rule.  It then adds
the one rule that its pairs ask for, however the pairs of a side are ordered; otherwise it fails as
a malformed rule and leaves the draft as it was. -/
theorem readRewriteInPlace_exact (draft : Draft) (tokens : List Text) :
    (readRewriteInPlace tokens).run.run draft = draft.leave (draft.readRewrite tokens) ∧
    ((∃ next, (readRewriteInPlace tokens).run.run draft = (.ok (), next)) ↔
      ∃ left right, RuleForm draft.mutators tokens left right) ∧
    (∀ left right, RuleForm draft.mutators tokens left right →
      ∃ rule, Denotes draft.mutators left right rule ∧
        (readRewriteInPlace tokens).run.run draft =
          (.ok (), { draft with rewrites := rule :: draft.rewrites }) ∧
        ∀ left' right', left'.Perm left → right'.Perm right →
          (readRewriteInPlace
              (pairTokens left' ++ "to".toList :: pairTokens right')).run.run draft =
            (.ok (), { draft with rewrites := rule :: draft.rewrites })) ∧
    (∀ cause next, (readRewriteInPlace tokens).run.run draft = (.error cause, next) →
      (∃ fault, cause = .malformedRewrite fault) ∧ next = draft) := by
  refine ⟨readRewriteInPlace_eq draft tokens, ⟨?_, ?_⟩, ?_, ?_⟩
  · rintro ⟨next, hnext⟩
    cases hread : readRule draft.mutators tokens with
    | error fault =>
      rw [readRewriteInPlace_of_fault hread] at hnext
      cases hnext
    | ok rule =>
      obtain ⟨left, right, form, -⟩ := ruleForm_of_readRule hread
      exact ⟨left, right, form⟩
  · rintro ⟨left, right, form⟩
    obtain ⟨rule, hread, -⟩ := exists_readRule form
    exact ⟨_, readRewriteInPlace_of_readRule hread⟩
  · intro left right form
    obtain ⟨rule, hread, hdenotes⟩ := exists_readRule form
    refine ⟨rule, hdenotes, readRewriteInPlace_of_readRule hread, ?_⟩
    intro left' right' hleft hright
    exact readRewriteInPlace_of_readRule (readRule_perm form hread hleft hright)
  · intro cause next hnext
    cases hread : readRule draft.mutators tokens with
    | error fault =>
      rw [readRewriteInPlace_of_fault hread] at hnext
      obtain ⟨hcause, hdraft⟩ := Prod.mk.inj hnext
      exact ⟨⟨fault, (Except.error.inj hcause).symm⟩, hdraft.symm⟩
    | ok rule =>
      rw [readRewriteInPlace_of_readRule hread] at hnext
      cases hnext

/-- Two mutators that a rule can name in either order. -/
def lightAndShade : Draft :=
  { empty with
    mutators := [⟨"LIGHT".toList, [0, 1], false⟩, ⟨"SHADE".toList, [0, 4], false⟩] }

theorem readRewriteInPlace_exact_swapped :
    RuleForm lightAndShade.mutators
      ["SHADE".toList, "4".toList, "LIGHT".toList, "0".toList, "to".toList,
        "LIGHT".toList, "1".toList, "SHADE".toList, "4".toList]
      [("SHADE".toList, "4".toList), ("LIGHT".toList, "0".toList)]
      [("LIGHT".toList, "1".toList), ("SHADE".toList, "4".toList)] ∧
    ∃ rule, (readRewriteInPlace ["LIGHT".toList, "0".toList, "SHADE".toList, "4".toList,
        "to".toList, "LIGHT".toList, "1".toList, "SHADE".toList, "4".toList]).run.run
          lightAndShade = (.ok (), { lightAndShade with rewrites := [rule] }) := by
  have hdark : Gives lightAndShade.mutators ("LIGHT".toList, "0".toList) (0, 0) :=
    ⟨rfl, by decide, _, rfl, by decide⟩
  have hlit : Gives lightAndShade.mutators ("LIGHT".toList, "1".toList) (0, 1) :=
    ⟨rfl, by decide, _, rfl, by decide⟩
  have hshade : Gives lightAndShade.mutators ("SHADE".toList, "4".toList) (1, 4) :=
    ⟨rfl, by decide, _, rfl, by decide⟩
  have form : RuleForm lightAndShade.mutators
      ["SHADE".toList, "4".toList, "LIGHT".toList, "0".toList, "to".toList,
        "LIGHT".toList, "1".toList, "SHADE".toList, "4".toList]
      [("SHADE".toList, "4".toList), ("LIGHT".toList, "0".toList)]
      [("LIGHT".toList, "1".toList), ("SHADE".toList, "4".toList)] :=
    { split := rfl
      single := by decide
      sources := ⟨by decide, by decide, by simpa using ⟨⟨_, _, hshade⟩, _, _, hdark⟩⟩
      targets := ⟨by decide, by decide, by simpa using ⟨⟨_, _, hlit⟩, _, _, hshade⟩⟩
      same := fun name => by simp [or_comm]
      changes := ⟨("LIGHT".toList, "0".toList), by decide, ("LIGHT".toList, "1".toList),
        by decide, rfl, by decide⟩ }
  obtain ⟨rule, -, -, hswapped⟩ := (readRewriteInPlace_exact lightAndShade _).2.2.1 _ _ form
  exact ⟨form, rule, hswapped _ _ (List.Perm.swap ..) (List.Perm.refl _)⟩

end ShaderVariants.Draft
