import ShaderVariants.Text.Numeral

/-!
# Mutators and mutations

A mutator is a named switch with finitely many values; a mutation gives a value to each mutator of
a program.  `Mutation.all` enumerates the mutations with the last mutator running fastest, and
`Mutation.Odometer` does so one mutation at a time, so that the first ones can be had without the
rest.  A valid mutation gives each mutator one of its values (`exists_hasValue_of_validate`).
-/

namespace ShaderVariants

/-- A switch of a program. -/
structure Mutator where
  name : Text
  /-- The values in increasing order. -/
  values : List Int
  /-- Whether the value is the number of elements of instanced inputs. -/
  countsInstances : Bool
  deriving Repr, DecidableEq

def Mutator.hasValue (mutator : Mutator) (value : Int) : Bool :=
  mutator.values.contains value

/-- A value for each mutator, in the order of their declarations. -/
abbrev Mutation := List Int

namespace Mutation

/-! ## 1. Enumeration -/

/-- Puts each value in front of each of the given mutations. -/
def extend (values : List Int) (mutations : List Mutation) : List Mutation :=
  values.flatMap fun value => mutations.map (value :: ·)

def all : List Mutator → List Mutation
  | [] => [[]]
  | mutator :: rest => extend mutator.values (all rest)

def count : List Mutator → Nat
  | [] => 1
  | mutator :: rest => mutator.values.length * count rest

theorem length_all (mutators : List Mutator) : (all mutators).length = count mutators := by
  induction mutators with
  | nil => rfl
  | cons mutator rest ih =>
    simp [all, extend, count, ← ih, List.length_flatMap, List.map_const']

/-- The largest number of mutations that is told apart from more. -/
def countLimit : Nat := 18446744073709551615

/-- A product, or the limit where it is larger. -/
def saturatingMul (a b : Nat) : Nat :=
  min (a * b) countLimit

/-- How many mutations there are, as far as that is told. -/
def reportedCount (mutators : List Mutator) : Nat :=
  mutators.foldl (fun size mutator => saturatingMul size mutator.values.length) 1

/-! ## 2. One mutation at a time -/

/-- The mutation that gives each mutator the value at the place of its dial. -/
def shown (mutators : List Mutator) (dials : List Nat) : Mutation :=
  (mutators.zip dials).filterMap fun (mutator, dial) => mutator.values[dial]?

/-- Turns the last dial on by one place.  A dial that has no further place starts again and turns
the one before it; tells whether all of them started again. -/
def turn : List Mutator → List Nat → Bool × List Nat
  | mutator :: mutators, dial :: dials =>
    match turn mutators dials with
    | (false, turned) => (false, dial :: turned)
    | (true, turned) =>
      if dial + 1 < mutator.values.length then (false, (dial + 1) :: turned)
      else (true, 0 :: turned)
  | _, _ => (true, [])

/-- An enumeration that is under way. -/
structure Odometer where
  mutators : List Mutator
  /-- A dial for each mutator, `none` once all mutations have been shown. -/
  dials : Option (List Nat)
  deriving Repr, DecidableEq

namespace Odometer

/-- All dials at their first place. -/
def start (mutators : List Mutator) : Odometer :=
  ⟨mutators, some (mutators.map fun _ => 0)⟩

/-- The mutation that is shown, and the odometer turned on by one. -/
def next? (odometer : Odometer) : Option (Mutation × Odometer) :=
  match odometer.dials with
  | none => none
  | some dials =>
    let (ended, turned) := turn odometer.mutators dials
    some (shown odometer.mutators dials,
      { odometer with dials := if ended then none else some turned })

/-- The next mutations, as many as `limit` at most. -/
def take (limit : Nat) (odometer : Odometer) : List Mutation :=
  match limit with
  | 0 => []
  | limit + 1 =>
    match odometer.next? with
    | none => []
    | some (mutation, later) => mutation :: later.take limit

end Odometer

/-- The first mutations of the enumeration, as many as `limit` at most. -/
def first (limit : Nat) (mutators : List Mutator) : List Mutation :=
  (Odometer.start mutators).take limit

/-! ## 3. Validity -/

/-- Why a mutation does not fit the mutators. -/
inductive Misfit where
  /-- The mutation does not have one value for each mutator. -/
  | arity (expected found : Nat)
  /-- A value is not one of its mutator's. -/
  | undeclaredValue (mutator : Text) (value : Int)
  deriving Repr, DecidableEq

def Misfit.message : Misfit → String
  | .arity expected found =>
    s!"mutation has {found} values but the program declares {expected} mutators"
  | .undeclaredValue mutator value =>
    s!"value {value} is not declared for mutator `{String.ofList mutator}`"

/-- The first value that is not one of its mutator's. -/
def undeclared? : List Mutator → Mutation → Option (Mutator × Int)
  | mutator :: mutators, value :: values =>
    if mutator.hasValue value then undeclared? mutators values else some (mutator, value)
  | _, _ => none

/-- Checks that a mutation has one declared value for each mutator. -/
def validate (mutators : List Mutator) (mutation : Mutation) : Except Misfit Unit :=
  if mutation.length ≠ mutators.length then .error (.arity mutators.length mutation.length)
  else
    match undeclared? mutators mutation with
    | some (mutator, value) => .error (.undeclaredValue mutator.name value)
    | none => .ok ()

theorem length_of_validate {mutators : List Mutator} {mutation : Mutation}
    (h : validate mutators mutation = .ok ()) : mutation.length = mutators.length := by
  rw [validate] at h
  split at h
  · cases h
  next hlength => exact Decidable.not_not.mp hlength

/-- A valid mutation gives each mutator one of its values. -/
theorem exists_hasValue_of_validate {mutators : List Mutator} {mutation : Mutation}
    (h : validate mutators mutation = .ok ()) {place : Nat} {mutator : Mutator}
    (hplace : mutators[place]? = some mutator) :
    ∃ value, mutation[place]? = some value ∧ mutator.hasValue value = true := by
  have hlength := length_of_validate h
  have hnone : undeclared? mutators mutation = none := by
    rw [validate, if_neg (not_not_intro hlength)] at h
    split at h
    · cases h
    next hnone => exact hnone
  clear h
  induction mutators generalizing mutation place with
  | nil => simp at hplace
  | cons first mutators ih =>
    obtain ⟨value, rest, rfl⟩ := List.exists_cons_of_length_eq_add_one hlength
    rw [undeclared?] at hnone
    split at hnone
    next hvalue =>
      cases place with
      | zero =>
        obtain rfl : first = mutator := by simpa using hplace
        exact ⟨value, rfl, hvalue⟩
      | succ place =>
        have hrest : ∃ value, rest[place]? = some value ∧ mutator.hasValue value = true :=
          ih (by simpa using hplace) (by simpa using hlength) hnone
        simpa using hrest
    · cases hnone

/-- A mutation that gives each mutator one of its values is valid. -/
theorem validate_of_hasValue {mutators : List Mutator} {mutation : Mutation}
    (hlength : mutation.length = mutators.length)
    (h : ∀ (place : Nat) (mutator : Mutator), mutators[place]? = some mutator →
      ∃ value, mutation[place]? = some value ∧ mutator.hasValue value = true) :
    validate mutators mutation = .ok () := by
  have hnone : undeclared? mutators mutation = none := by
    clear hlength
    induction mutators generalizing mutation with
    | nil => rfl
    | cons mutator mutators ih =>
      obtain ⟨value, hvalue, hhas⟩ := h 0 mutator rfl
      obtain ⟨rest, rfl⟩ : ∃ rest, mutation = value :: rest := by
        cases mutation with
        | nil => cases hvalue
        | cons first rest => exact ⟨rest, by rw [Option.some.inj hvalue]⟩
      rw [undeclared?, if_pos hhas]
      exact ih fun place mutator hplace => h (place + 1) mutator hplace
  rw [validate, if_neg (not_not_intro hlength), hnone]

/-! ## 4. Writing -/

def toText (mutation : Mutation) : Text :=
  '[' :: List.intercalate [',', ' '] (mutation.map Numeral.ofInt) ++ [']']

end Mutation

end ShaderVariants
