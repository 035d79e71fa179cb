import ShaderVariants.Mutator

/-!
# Rewriting mutations

A rule maps one assignment of some mutators to another.  A mutation is rewritten by the first rule
that matches it, one rule at a time; its canonical form is reached when no rule matches any more.
Rewriting is given up after one application more than there are rules.
-/

namespace ShaderVariants

/-! ## 1. Rules -/

/-- What a rule asks of one mutator and what it makes of it. -/
structure RewriteRecord where
  /-- The mutator, by its place among the declarations. -/
  mutator : Nat
  source : Int
  target : Int
  deriving Repr, DecidableEq

/-- A rule: its records, by increasing place of their mutators. -/
structure Rewrite where
  records : List RewriteRecord
  deriving Repr, DecidableEq

namespace Rewrite

/-- Whether every mutator of the rule has the value that the rule asks for. -/
def fits (rule : Rewrite) (mutation : Mutation) : Bool :=
  rule.records.all fun record => mutation[record.mutator]? == some record.source

/-- Gives every mutator of the rule its new value, whether or not the rule matches. -/
def apply (rule : Rewrite) (mutation : Mutation) : Mutation :=
  rule.records.foldl (fun current record => current.set record.mutator record.target) mutation

@[simp] theorem length_apply (rule : Rewrite) (mutation : Mutation) :
    (rule.apply mutation).length = mutation.length := by
  obtain ⟨records⟩ := rule
  simp only [apply]
  induction records generalizing mutation with
  | nil => rfl
  | cons record records ih => simp [ih]

/-! ## 2. Rewriting -/

/-- What the first matching rule makes of a mutation, `none` if no rule matches. -/
def step? (rules : List Rewrite) (mutation : Mutation) : Option Mutation :=
  (rules.find? fun rule => rule.fits mutation).map fun rule => rule.apply mutation

/-- A mutation that is still rewritten when the limit is reached. -/
structure Cycle where
  applied : Nat
  mutation : Mutation
  deriving Repr, DecidableEq

/-- What is said about a mutation that is still rewritten. -/
def Cycle.message (cycle : Cycle) : String :=
  s!"mutation {String.ofList cycle.mutation.toText} is still being rewritten after " ++
    s!"{cycle.applied} rewrites, the rewrite rules likely form a cycle"

/-- Rewrites at most `budget` times, after `applied` times already; returns how often it was done
in all and where it led. -/
def settle (rules : List Rewrite) :
    (budget applied : Nat) → Mutation → Except Cycle (Nat × Mutation)
  | 0, applied, mutation => .error ⟨applied, mutation⟩
  | budget + 1, applied, mutation =>
    match step? rules mutation with
    | none => .ok (applied, mutation)
    | some next => settle rules budget (applied + 1) next

/-- Rewrites a mutation until no rule matches; returns how often that was done and where it led. -/
def canonicalize (rules : List Rewrite) (mutation : Mutation) : Except Cycle (Nat × Mutation) :=
  settle rules (rules.length + 1) 0 mutation

/-- No rule matches where rewriting ends. -/
theorem step?_of_settle {rules : List Rewrite} {budget applied count : Nat}
    {mutation result : Mutation}
    (h : settle rules budget applied mutation = .ok (count, result)) :
    step? rules result = none := by
  induction budget generalizing applied mutation with
  | zero => simp [settle] at h
  | succ budget ih =>
    rw [settle] at h
    split at h
    · next hnone =>
      simp only [Except.ok.injEq, Prod.mk.injEq] at h
      exact h.2 ▸ hnone
    · exact ih h

end Rewrite

end ShaderVariants
