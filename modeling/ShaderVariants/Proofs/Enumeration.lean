import Mathlib.Algebra.BigOperators.Group.List.Basic
import ShaderVariants.Proofs.Rewriting

/-!
# The mutations of a program

An odometer with a dial for each mutator shows the mutations one after the other.  It shows those
that are valid, each of them once and in lexicographic order, and stops after as many as the product
of the value counts says (`Program.mutations_enumerate`).
-/

namespace ShaderVariants

/-! ## 1. Values -/

/-- Looks for a value among increasing ones: the middle one tells on which side it can stand. -/
def bisect (value : Int) (values : List Int) : Bool :=
  match _h : values[values.length / 2]? with
  | none => false
  | some middle =>
    if middle = value then true
    else if middle < value then bisect value (values.drop (values.length / 2 + 1))
    else bisect value (values.take (values.length / 2))
termination_by values.length
decreasing_by
  all_goals
    obtain ⟨hlt, -⟩ := List.getElem?_eq_some_iff.mp _h
    simp only [List.length_drop, List.length_take]
    omega

/-- Halving finds what is among increasing values. -/
theorem bisect_eq_contains {value : Int} {values : List Int} (h : values.Pairwise (· < ·)) :
    bisect value values = values.contains value := by
  induction hlength : values.length using Nat.strongRecOn generalizing values with
  | ind length ih =>
    subst hlength
    rw [bisect]
    split
    next hnone =>
      have hempty : values.length ≤ values.length / 2 := List.getElem?_eq_none_iff.mp hnone
      obtain rfl : values = [] := List.eq_nil_of_length_eq_zero (by omega)
      rfl
    next middle hmiddle =>
      obtain ⟨hlt, hget⟩ := List.getElem?_eq_some_iff.mp hmiddle
      have hsplit : values = values.take (values.length / 2) ++
          middle :: values.drop (values.length / 2 + 1) := by
        rw [← hget, List.getElem_cons_drop, List.take_append_drop]
      have hlow := ih _ (by rw [List.length_take]; omega)
        (h.sublist (List.take_sublist (values.length / 2) values)) rfl
      have hhigh := ih _ (by rw [List.length_drop]; omega)
        (h.sublist (List.drop_sublist (values.length / 2 + 1) values)) rfl
      rw [hlow, hhigh]
      generalize values.take (values.length / 2) = low at hsplit
      generalize values.drop (values.length / 2 + 1) = high at hsplit
      subst hsplit
      obtain ⟨-, hright, hcross⟩ := List.pairwise_append.mp h
      have hbelow : ∀ v ∈ low, v < middle := fun v hv => hcross v hv middle List.mem_cons_self
      have habove : ∀ v ∈ high, middle < v := (List.pairwise_cons.mp hright).1
      rw [Bool.eq_iff_iff, List.contains_iff_mem, List.mem_append, List.mem_cons]
      by_cases heq : middle = value
      · simp [heq]
      rw [if_neg heq]
      by_cases hless : middle < value
      · rw [if_pos hless, List.contains_iff_mem]
        refine ⟨fun hmem => Or.inr (Or.inr hmem), ?_⟩
        rintro (hmem | rfl | hmem)
        · have := hbelow value hmem
          omega
        · exact absurd rfl heq
        · exact hmem
      · rw [if_neg hless, List.contains_iff_mem]
        refine ⟨Or.inl, ?_⟩
        rintro (hmem | rfl | hmem)
        · exact hmem
        · exact absurd rfl heq
        · have := habove value hmem
          omega

namespace Mutation

/-! ## 2. All mutations -/

/-- A mutation is one of all exactly if it gives each mutator one of its values. -/
theorem mem_all_iff_forall₂ {mutators : List Mutator} {mutation : Mutation} :
    mutation ∈ all mutators ↔
      List.Forall₂ (fun mutator value => mutator.hasValue value = true) mutators mutation := by
  induction mutators generalizing mutation with
  | nil => simp [all]
  | cons mutator rest ih =>
    show mutation ∈ extend mutator.values (all rest) ↔ _
    simp only [extend, List.mem_flatMap, List.mem_map, List.forall₂_cons_left_iff, ih,
      Mutator.hasValue, List.contains_iff_mem]
    constructor
    · rintro ⟨value, hvalue, tail, htail, rfl⟩
      exact ⟨value, tail, hvalue, htail, rfl⟩
    · rintro ⟨value, tail, hvalue, htail, rfl⟩
      exact ⟨value, hvalue, tail, htail, rfl⟩

theorem undeclared?_eq_none_iff {mutators : List Mutator} {mutation : Mutation}
    (hlength : mutation.length = mutators.length) :
    undeclared? mutators mutation = none ↔
      List.Forall₂ (fun mutator value => mutator.hasValue value = true) mutators mutation := by
  induction mutators generalizing mutation with
  | nil =>
    rw [List.eq_nil_of_length_eq_zero hlength]
    simp [undeclared?]
  | cons mutator rest ih =>
    obtain ⟨value, tail, rfl⟩ := List.exists_cons_of_length_eq_add_one hlength
    rw [undeclared?, List.forall₂_cons, ← ih (Nat.succ.inj hlength)]
    by_cases hvalue : mutator.hasValue value = true
    · simp [hvalue]
    · simp [hvalue]

/-- The valid mutations are all mutations. -/
theorem validate_eq_ok_iff {mutators : List Mutator} {mutation : Mutation} :
    validate mutators mutation = .ok () ↔ mutation ∈ all mutators := by
  rw [mem_all_iff_forall₂]
  by_cases hlength : mutation.length = mutators.length
  · rw [validate, if_neg (not_not_intro hlength), ← undeclared?_eq_none_iff hlength]
    cases undeclared? mutators mutation <;> simp
  · rw [validate, if_pos hlength]
    refine ⟨fun h => (by cases h), fun h => ?_⟩
    exact absurd h.length_eq.symm hlength

/-- Values that increase give mutations that increase from one to the next. -/
theorem pairwise_all {mutators : List Mutator}
    (h : ∀ mutator ∈ mutators, mutator.values.Pairwise (· < ·)) :
    (all mutators).Pairwise (List.Lex (· < ·)) := by
  induction mutators with
  | nil => exact List.pairwise_singleton _ _
  | cons mutator rest ih =>
    obtain ⟨hvalues, hrest⟩ := List.forall_mem_cons.mp h
    show (extend mutator.values (all rest)).Pairwise _
    rw [extend, List.pairwise_flatMap]
    constructor
    -- With one value in front the tails decide.
    · intro value _
      exact List.Pairwise.map _ (fun _ _ => .cons) (ih hrest)
    -- Of two values in front the smaller one decides.
    · refine hvalues.imp fun hlt first hfirst second hsecond => ?_
      obtain ⟨_, -, rfl⟩ := List.mem_map.mp hfirst
      obtain ⟨_, -, rfl⟩ := List.mem_map.mp hsecond
      exact .rel hlt

/-! ## 3. Counting -/

/-- A product that is cut off at each factor is the product, cut off once. -/
theorem saturatingMul_min (a b c : Nat) :
    min (saturatingMul a b * c) countLimit = min (a * (b * c)) countLimit := by
  have hassoc : a * b * c = a * (b * c) := Nat.mul_assoc a b c
  rw [saturatingMul, ← hassoc]
  by_cases hsmall : a * b ≤ countLimit
  · rw [Nat.min_eq_left hsmall]
  · cases c with
    | zero => rfl
    | succ c =>
      have hlarge : countLimit ≤ a * b := Nat.le_of_not_le hsmall
      have hlimit : countLimit ≤ countLimit * (c + 1) := Nat.le_mul_of_pos_right _ (Nat.succ_pos c)
      rw [Nat.min_eq_right hlarge, Nat.min_eq_right hlimit, Nat.min_eq_right]
      exact Nat.le_trans hlimit (Nat.mul_le_mul_right _ hlarge)

theorem count_eq_prod (mutators : List Mutator) :
    count mutators = (mutators.map fun mutator => mutator.values.length).prod := by
  induction mutators with
  | nil => rfl
  | cons mutator rest ih => rw [count, ih, List.map_cons, List.prod_cons]

theorem reportedCount_eq (mutators : List Mutator) :
    reportedCount mutators = min (count mutators) countLimit := by
  suffices h : ∀ size ≤ countLimit,
      mutators.foldl (fun size mutator => saturatingMul size mutator.values.length) size =
        min (size * count mutators) countLimit by
    rw [reportedCount, h 1 (by decide), Nat.one_mul]
  -- The induction is on the mutators, with what the ones before them come to.
  induction mutators with
  | nil =>
    intro size hsize
    rw [List.foldl_nil, count, Nat.mul_one, Nat.min_eq_left hsize]
  | cons mutator rest ih =>
    intro size _
    have hcut : saturatingMul size mutator.values.length ≤ countLimit := Nat.min_le_right _ _
    rw [List.foldl_cons, ih _ hcut, saturatingMul_min]
    rfl

/-! ## 4. One mutation at a time -/

/-- Each dial stands at the place of a value. -/
def InPlace (mutators : List Mutator) (dials : List Nat) : Prop :=
  List.Forall₂ (fun mutator dial => dial < mutator.values.length) mutators dials

/-- The mutations from the one that is shown on. -/
def remaining : List Mutator → List Nat → List Mutation
  | mutator :: mutators, dial :: dials =>
    match mutator.values.drop dial with
    | [] => []
    | value :: later => (remaining mutators dials).map (value :: ·) ++ extend later (all mutators)
  | _, _ => [[]]

theorem inPlace_start {mutators : List Mutator}
    (h : ∀ mutator ∈ mutators, mutator.values ≠ []) :
    InPlace mutators (mutators.map fun _ => 0) := by
  induction mutators with
  | nil => exact .nil
  | cons mutator rest ih =>
    obtain ⟨hmutator, hrest⟩ := List.forall_mem_cons.mp h
    exact .cons (List.length_pos_of_ne_nil hmutator) (ih hrest)

theorem remaining_cons {mutator : Mutator} {mutators : List Mutator} {dial : Nat}
    {dials : List Nat} (h : dial < mutator.values.length) :
    remaining (mutator :: mutators) (dial :: dials) =
      (remaining mutators dials).map (mutator.values[dial] :: ·) ++
        extend (mutator.values.drop (dial + 1)) (all mutators) := by
  rw [remaining, List.drop_eq_getElem_cons h]

/-- At the start all mutations remain. -/
theorem remaining_start {mutators : List Mutator}
    (h : ∀ mutator ∈ mutators, mutator.values ≠ []) :
    remaining mutators (mutators.map fun _ => 0) = all mutators := by
  induction mutators with
  | nil => rfl
  | cons mutator rest ih =>
    obtain ⟨hmutator, hrest⟩ := List.forall_mem_cons.mp h
    have hpos : 0 < mutator.values.length := List.length_pos_of_ne_nil hmutator
    have hvalues : mutator.values = mutator.values[0] :: mutator.values.drop 1 :=
      List.drop_eq_getElem_cons hpos
    rw [List.map_cons, remaining_cons hpos, ih hrest, all]
    conv_rhs => rw [hvalues]
    rfl

theorem shown_cons {mutator : Mutator} {mutators : List Mutator} {dial : Nat} {dials : List Nat}
    (h : dial < mutator.values.length) :
    shown (mutator :: mutators) (dial :: dials) = mutator.values[dial] :: shown mutators dials := by
  simp only [shown, List.zip_cons_cons, List.filterMap_cons, List.getElem?_eq_getElem h]

/-- What one turn of the dials does: either the mutation that is shown is the last one and all dials
start again, or those behind it are the ones that remain then. -/
inductive Turned (mutators : List Mutator) (dials : List Nat) : Bool × List Nat → Prop
  | ended (last : remaining mutators dials = [shown mutators dials]) :
      Turned mutators dials (true, mutators.map fun _ => 0)
  | on {turned : List Nat} (inPlace : InPlace mutators turned)
      (next : remaining mutators dials = shown mutators dials :: remaining mutators turned) :
      Turned mutators dials (false, turned)

theorem turned_turn {mutators : List Mutator} {dials : List Nat}
    (hvalues : ∀ mutator ∈ mutators, mutator.values ≠ []) (h : InPlace mutators dials) :
    Turned mutators dials (turn mutators dials) := by
  induction h with
  | nil => exact .ended rfl
  | @cons mutator dial mutators dials hdial hdials ih =>
    obtain ⟨hmutator, hrest⟩ := List.forall_mem_cons.mp hvalues
    have hbehind := ih hrest
    rw [turn]
    generalize turn mutators dials = behind at hbehind ⊢
    cases hbehind with
    -- A dial behind turns on, so this one stays.
    | @on turned hturned hnext =>
      refine .on (.cons hdial hturned) ?_
      rw [remaining_cons hdial, remaining_cons hdial, hnext, shown_cons hdial]
      rfl
    -- The dials behind start again, so this one is turned.
    | ended hlast =>
      show Turned _ _ (if dial + 1 < mutator.values.length then _ else _)
      by_cases hmore : dial + 1 < mutator.values.length
      · rw [if_pos hmore]
        refine .on (.cons hmore (inPlace_start hrest)) ?_
        rw [remaining_cons hdial, remaining_cons hmore, hlast, shown_cons hdial,
          remaining_start hrest, List.drop_eq_getElem_cons hmore]
        rfl
      · rw [if_neg hmore]
        refine .ended ?_
        have hnone : mutator.values.drop (dial + 1) = [] :=
          List.drop_eq_nil_of_le (Nat.le_of_not_lt hmore)
        rw [remaining_cons hdial, hnone, hlast, shown_cons hdial]
        rfl

namespace Odometer

/-- The mutations that an odometer shows until it stops. -/
inductive Shows : Odometer → List Mutation → Prop
  | stop {odometer : Odometer} (ends : odometer.next? = none) : Shows odometer []
  | next {odometer later : Odometer} {mutation : Mutation} {mutations : List Mutation}
      (shows : odometer.next? = some (mutation, later)) (behind : Shows later mutations) :
      Shows odometer (mutation :: mutations)

theorem shows_remaining {mutators : List Mutator}
    (hvalues : ∀ mutator ∈ mutators, mutator.values ≠ []) {dials : List Nat}
    (h : InPlace mutators dials) : Shows ⟨mutators, some dials⟩ (remaining mutators dials) := by
  -- The induction is on how many mutations remain; one turn leaves one less.
  generalize hcount : (remaining mutators dials).length = count
  induction count generalizing dials with
  | zero =>
    have hturned := turned_turn hvalues h
    generalize turn mutators dials = result at hturned
    cases hturned with
    | ended hlast => simp [hlast] at hcount
    | on _ hnext => simp [hnext] at hcount
  | succ count ih =>
    have hturned := turned_turn hvalues h
    have hnext : next? ⟨mutators, some dials⟩ = some (shown mutators dials,
        ⟨mutators, if (turn mutators dials).1 then none else some (turn mutators dials).2⟩) := rfl
    generalize turn mutators dials = result at hturned hnext
    cases hturned with
    | ended hlast =>
      rw [hlast]
      exact .next hnext (.stop rfl)
    | on hinPlace hremaining =>
      rw [hremaining] at hcount ⊢
      exact .next hnext (ih hinPlace (Nat.succ.inj hcount))

/-- Started anew, an odometer shows all mutations. -/
theorem shows_all {mutators : List Mutator} (h : ∀ mutator ∈ mutators, mutator.values ≠ []) :
    Shows (start mutators) (all mutators) := by
  rw [← remaining_start h]
  exact shows_remaining h (inPlace_start h)

theorem take_eq {odometer : Odometer} {mutations : List Mutation} (h : Shows odometer mutations)
    (limit : Nat) : odometer.take limit = mutations.take limit := by
  induction h generalizing limit with
  | stop ends =>
    cases limit with
    | zero => rfl
    | succ limit => rw [take, ends, List.take_nil]
  | next shows _ ih =>
    cases limit with
    | zero => rfl
    | succ limit => rw [take, shows, List.take_succ_cons, ← ih]

end Odometer

/-- The first mutations are the start of the enumeration. -/
theorem first_eq_take {mutators : List Mutator} (h : ∀ mutator ∈ mutators, mutator.values ≠ [])
    (limit : Nat) : first limit mutators = (all mutators).take limit :=
  Odometer.take_eq (Odometer.shows_all h) limit

end Mutation

/-! ## 5. Programs -/

namespace Program

open Mutation (Odometer)

/-- The mutations of a program that has been read.  The odometer shows exactly those that are valid,
each of them once and in lexicographic order, and stops after as many as the product of the value
counts says; that is the number that is reported, unless it takes more than 64 bits.  A value is
declared exactly if halving finds it, since the values of a mutator increase. -/
theorem mutations_enumerate {reader : FileReader} {settings : Settings} {fileName : Text}
    {program : Program} (hread : Program.read reader settings fileName = .ok program) :
    (Odometer.start program.mutators).Shows program.mutations ∧
      (∀ limit, Mutation.first limit program.mutators = program.mutations.take limit) ∧
      (∀ mutation, mutation ∈ program.mutations ↔ program.validate mutation = .ok ()) ∧
      (∀ mutator ∈ program.mutators, ∀ value,
        mutator.hasValue value = bisect value mutator.values) ∧
      program.mutations.Nodup ∧
      program.mutations.Pairwise (List.Lex (· < ·)) ∧
      program.mutations.length = (program.mutators.map fun mutator => mutator.values.length).prod ∧
      Mutation.reportedCount program.mutators =
        if program.mutations.length < 2 ^ 64 then program.mutations.length else 2 ^ 64 - 1 := by
  have hformed := (wellFormed_of_read hread).mutators.values
  have hvalues : ∀ mutator ∈ program.mutators, mutator.values ≠ [] :=
    fun mutator hmutator => (hformed mutator hmutator).1
  have hincreasing : ∀ mutator ∈ program.mutators, mutator.values.Pairwise (· < ·) :=
    fun mutator hmutator => (hformed mutator hmutator).2
  have hsorted : program.mutations.Pairwise (List.Lex (· < ·)) :=
    Mutation.pairwise_all hincreasing
  have hlength : program.mutations.length = Mutation.count program.mutators :=
    Mutation.length_all program.mutators
  refine ⟨Odometer.shows_all hvalues, Mutation.first_eq_take hvalues,
    fun mutation => Mutation.validate_eq_ok_iff.symm, ?bisect, ?nodup, hsorted, ?product, ?reported⟩
  case bisect =>
    intro mutator hmutator value
    rw [bisect_eq_contains (hincreasing mutator hmutator), Mutator.hasValue]
  case nodup =>
    refine hsorted.imp fun hlt heq => ?_
    exact List.lt_irrefl _ (heq ▸ hlt)
  case product => rw [hlength, Mutation.count_eq_prod]
  case reported =>
    have hlimit : Mutation.countLimit = 2 ^ 64 - 1 := rfl
    rw [Mutation.reportedCount_eq, ← hlength, hlimit]
    split <;> omega

theorem mutations_enumerate_fading :
    Program.read (.ofFiles [("fading".toList, fadingFile)]) .default "fading".toList =
        .ok fading ∧
      (Odometer.start fading.mutators).Shows [[0, 0], [0, 1], [1, 0], [1, 1], [2, 0], [2, 1]] ∧
      fading.validate [2, 1] = .ok () ∧
      Mutation.reportedCount fading.mutators = 6 := by
  obtain ⟨hshows, -, hvalid, -, -, -, -, hreported⟩ := mutations_enumerate read_fading
  exact ⟨read_fading, hshows, (hvalid [2, 1]).mp (by decide), hreported⟩

/-- Past the last mutation nothing is shown. -/
example : Mutation.first 3 [⟨"LOD".toList, [-1, 4], false⟩] = [[-1], [4]] := by
  decide

end Program

end ShaderVariants
