import ShaderVariants.Condition.ActiveInputs

/-!
# Outlines

Sources that only define symbols, forget them, mark inputs and guard lines by whether a symbol is
defined.  There are two accounts of the marks that are kept: that of a preprocessor (`Outline.kept`),
and one for which symbols are only ever defined, and only outside of all chains (`Outline.found`).
They are the same where no guard asks for a symbol that is forgotten, defined inside of a chain, or
the name of a mark (`Outline.found_eq_kept`).
-/

namespace ShaderVariants.Condition

/-! ## 1. Syntax and meaning -/

/-- A source of definitions, marks and guards. -/
inductive Outline where
  | done
  | define (name : Text) (rest : Outline)
  | undefine (name : Text) (rest : Outline)
  /-- The mark of the site of an input. -/
  | mark (site : Text) (rest : Outline)
  /-- A chain of one or two arms.  The first one is for the case that the symbol is defined, or, with
  a negated guard, that it is not; the second one is for the other case, and empty if there is no
  such arm. -/
  | guard (negated : Bool) (name : Text) (first second rest : Outline)

namespace Outline

/-- Whether the first arm of a guard is kept. -/
def takesFirst (negated : Bool) (name : Text) (macros : List Text) : Bool :=
  macros.contains name != negated

/-- The macros that a preprocessor knows behind the lines. -/
def macrosAfter (macros : List Text) : Outline → List Text
  | done => macros
  | define name rest => rest.macrosAfter (name :: macros)
  | undefine name rest => rest.macrosAfter (macros.filter (· ≠ name))
  | mark site rest => rest.macrosAfter ((siteMark ++ site) :: macros)
  | guard negated name first second rest =>
    rest.macrosAfter
      (if takesFirst negated name macros then first.macrosAfter macros
        else second.macrosAfter macros)

/-- The sites whose marks a preprocessor keeps. -/
def kept (macros : List Text) : Outline → List Text
  | done => []
  | define name rest => rest.kept (name :: macros)
  | undefine name rest => rest.kept (macros.filter (· ≠ name))
  | mark site rest => site :: rest.kept ((siteMark ++ site) :: macros)
  | guard negated name first second rest =>
    if takesFirst negated name macros then
      first.kept macros ++ rest.kept (first.macrosAfter macros)
    else second.kept macros ++ rest.kept (second.macrosAfter macros)

/-- The sites whose marks are kept if macros are defined outside of all chains only, and none is
ever forgotten; `nested` tells whether the lines stand inside of a chain. -/
def found (nested : Bool) (macros : List Text) : Outline → List Text
  | done => []
  | define name rest => rest.found nested (if nested then macros else name :: macros)
  | undefine _ rest => rest.found nested macros
  | mark site rest => site :: rest.found nested macros
  | guard negated name first second rest =>
    (if takesFirst negated name macros then first.found true macros else second.found true macros) ++
      rest.found nested macros

/-- The names that guards ask for. -/
def guarded : Outline → List Text
  | done => []
  | define _ rest | undefine _ rest | mark _ rest => rest.guarded
  | guard _ name first second rest =>
    name :: (first.guarded ++ second.guarded ++ rest.guarded)

/-- The names whose state changes where only a preprocessor sees it. -/
def unseen (nested : Bool) : Outline → List Text
  | done => []
  | define name rest => if nested then name :: rest.unseen nested else rest.unseen nested
  | undefine name rest => name :: rest.unseen nested
  | mark site rest => (siteMark ++ site) :: rest.unseen nested
  | guard _ _ first second rest => first.unseen true ++ second.unseen true ++ rest.unseen nested

end Outline

/-! ## 2. Two accounts -/

namespace Outline

theorem takesFirst_congr {negated : Bool} {name : Text} {macros others : List Text}
    (h : name ∈ macros ↔ name ∈ others) :
    takesFirst negated name macros = takesFirst negated name others := by
  have hcontains : macros.contains name = others.contains name := by
    rw [Bool.eq_iff_iff, List.contains_iff_mem, List.contains_iff_mem]
    exact h
  rw [takesFirst, takesFirst, hcontains]

theorem mem_cons_iff_of_unseen {asked : List Text} {name : Text} (h : name ∉ asked)
    (macros : List Text) : ∀ other ∈ asked, other ∈ name :: macros ↔ other ∈ macros := by
  intro other hother
  rw [List.mem_cons, or_iff_right]
  rintro rfl
  exact h hother

/-- Both accounts are the same if they agree on the names that guards ask for and none of these
changes unseen.  Inside of a chain such a name does not change at all. -/
theorem found_eq_kept_and {outline : Outline} {asked : List Text} {nested : Bool}
    {macros others : List Text} (hasked : ∀ name ∈ outline.guarded, name ∈ asked)
    (hunseen : ∀ name ∈ outline.unseen nested, name ∉ asked)
    (hagree : ∀ name ∈ asked, name ∈ macros ↔ name ∈ others) :
    outline.found nested macros = outline.kept others ∧
      (nested = true → ∀ name ∈ asked, name ∈ outline.macrosAfter others ↔ name ∈ others) := by
  induction outline generalizing nested macros others with
  | done => exact ⟨rfl, fun _ _ _ => Iff.rfl⟩
  | define name rest ih =>
    cases nested with
    | true =>
      obtain ⟨hname, hrest⟩ := List.forall_mem_cons.mp hunseen
      -- A name that is defined inside of a chain is none that a guard asks for.
      have hother := mem_cons_iff_of_unseen hname others
      obtain ⟨heq, hafter⟩ := ih hasked hrest fun other hmem =>
        (hagree other hmem).trans (hother other hmem).symm
      exact ⟨heq, fun _ other hmem => (hafter rfl other hmem).trans (hother other hmem)⟩
    | false =>
      have hboth : ∀ other ∈ asked, other ∈ name :: macros ↔ other ∈ name :: others := by
        intro other hother
        rw [List.mem_cons, List.mem_cons, hagree other hother]
      obtain ⟨heq, -⟩ := ih hasked hunseen hboth
      exact ⟨heq, fun hnested => absurd hnested Bool.false_ne_true⟩
  | undefine name rest ih =>
    obtain ⟨hname, hrest⟩ := List.forall_mem_cons.mp hunseen
    have hother : ∀ other ∈ asked, other ∈ others.filter (· ≠ name) ↔ other ∈ others := by
      intro other hother
      have hne : other ≠ name := by
        rintro rfl
        exact hname hother
      simp [hne]
    obtain ⟨heq, hafter⟩ := ih hasked hrest fun other hmem =>
      (hagree other hmem).trans (hother other hmem).symm
    exact ⟨heq, fun hnested other hmem => (hafter hnested other hmem).trans (hother other hmem)⟩
  | mark site rest ih =>
    obtain ⟨hname, hrest⟩ := List.forall_mem_cons.mp hunseen
    have hother := mem_cons_iff_of_unseen hname others
    obtain ⟨heq, hafter⟩ := ih hasked hrest fun other hmem =>
      (hagree other hmem).trans (hother other hmem).symm
    exact ⟨congrArg (site :: ·) heq,
      fun hnested other hmem => (hafter hnested other hmem).trans (hother other hmem)⟩
  | guard negated name first second rest ihFirst ihSecond ihRest =>
    simp only [guarded, unseen, List.forall_mem_cons, List.forall_mem_append] at hasked hunseen
    obtain ⟨hname, ⟨haskedFirst, haskedSecond⟩, haskedRest⟩ := hasked
    obtain ⟨⟨hunseenFirst, hunseenSecond⟩, hunseenRest⟩ := hunseen
    obtain ⟨hfirst, hfirstAfter⟩ := ihFirst haskedFirst hunseenFirst hagree
    obtain ⟨hsecond, hsecondAfter⟩ := ihSecond haskedSecond hunseenSecond hagree
    rw [found, kept, macrosAfter, takesFirst_congr (hagree name hname)]
    -- Whichever arm is kept, behind the chain the guarded names are what they were in front of it.
    cases takesFirst negated name others with
    | true =>
      obtain ⟨hrest, hrestAfter⟩ := ihRest haskedRest hunseenRest fun other hmem =>
        (hagree other hmem).trans (hfirstAfter rfl other hmem).symm
      exact ⟨by simp [hfirst, hrest], fun hnested other hmem =>
        (hrestAfter hnested other hmem).trans (hfirstAfter rfl other hmem)⟩
    | false =>
      obtain ⟨hrest, hrestAfter⟩ := ihRest haskedRest hunseenRest fun other hmem =>
        (hagree other hmem).trans (hsecondAfter rfl other hmem).symm
      exact ⟨by simp [hsecond, hrest], fun hnested other hmem =>
        (hrestAfter hnested other hmem).trans (hsecondAfter rfl other hmem)⟩

theorem found_eq_kept {outline : Outline}
    (h : ∀ name ∈ outline.guarded, name ∉ outline.unseen false) :
    outline.found false [] = outline.kept [] :=
  (found_eq_kept_and (fun _ hname => hname) (fun _ hname hguarded => h _ hguarded hname)
    fun _ _ => Iff.rfl).1

end Outline

end ShaderVariants.Condition
