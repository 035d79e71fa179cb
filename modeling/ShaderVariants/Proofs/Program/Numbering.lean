import ShaderVariants.Proofs.Program.Invariant

/-!
# Numbering of inputs

Inputs are numbered as they are declared, and the ids of the specialization constants follow each
other; bindings are given out when all files have been read (`Program.numbered_of_read`).
-/

namespace ShaderVariants

/-! ## 1. Constant ids -/

/-- How many constant ids the given inputs take. -/
def constantCount : List Input → Nat
  | [] => 0
  | input :: rest =>
    (if input.isConstant then input.type.componentCount else 0) + constantCount rest

theorem constantCount_append (first second : List Input) :
    constantCount (first ++ second) = constantCount first + constantCount second := by
  induction first with
  | nil => simp [constantCount]
  | cons input first ih =>
    simp only [List.cons_append, constantCount, ih]
    omega

/-- Inputs as they are numbered when they are declared. -/
structure Numbered (inputs : List Input) : Prop where
  index : ∀ before input after, inputs = before ++ input :: after → input.index = before.length
  constant : ∀ before input after, inputs = before ++ input :: after →
    ∀ id, input.constantId = some id → id = constantCount before
  unbound : ∀ input ∈ inputs, input.binding = none

/-- Either the last item of a list is the one that is looked at, or it stands behind that one. -/
theorem eq_append_cons_concat {α : Type} {items before after : List α} {last item : α}
    (h : items ++ [last] = before ++ item :: after) :
    (before = items ∧ item = last) ∨ ∃ between, items = before ++ item :: between := by
  rcases List.eq_nil_or_concat after with rfl | ⟨between, final, rfl⟩
  · obtain ⟨hbefore, hitem⟩ := List.append_inj' h rfl
    exact Or.inl ⟨hbefore.symm, (List.cons.inj hitem).1.symm⟩
  · rw [List.concat_eq_append, ← List.cons_append, ← List.append_assoc] at h
    exact Or.inr ⟨between, (List.append_inj' h rfl).1⟩

theorem Numbered.concat {inputs : List Input} (h : Numbered inputs) {input : Input}
    (hindex : input.index = inputs.length)
    (hconstant : ∀ id, input.constantId = some id → id = constantCount inputs)
    (hunbound : input.binding = none) : Numbered (inputs ++ [input]) where
  index := by
    intro before other after heq
    rcases eq_append_cons_concat heq with ⟨rfl, rfl⟩ | ⟨between, hbetween⟩
    · exact hindex
    · exact h.index before other between hbetween
  constant := by
    intro before other after heq
    rcases eq_append_cons_concat heq with ⟨rfl, rfl⟩ | ⟨between, hbetween⟩
    · exact hconstant
    · exact h.constant before other between hbetween
  unbound := List.forall_mem_append.mpr ⟨h.unbound, by simpa using hunbound⟩

/-! ## 2. Declared inputs -/

namespace Draft

/-- The inputs of a draft are numbered, and the next constant id is the first one that is free. -/
structure Counted (draft : Draft) : Prop where
  numbered : Numbered draft.inputs
  next : draft.nextConstant = constantCount draft.inputs

theorem counted_empty : Counted .empty where
  numbered := by constructor <;> simp [empty]
  next := rfl

theorem nextConstant_pushCode (draft : Draft) (line : Text) :
    (draft.pushCode line).nextConstant = draft.nextConstant := by
  unfold pushCode
  split <;> rfl

theorem inputs_pushCode (draft : Draft) (line : Text) :
    (draft.pushCode line).inputs = draft.inputs := by
  unfold pushCode
  split <;> rfl

theorem nextConstant_addInput (draft : Draft) (constant instanced : Bool) (type : DataType)
    (name : Text) : (draft.addInput constant instanced type name).nextConstant =
      if constant then draft.nextConstant + type.componentCount else draft.nextConstant := by
  unfold addInput
  simp only [nextConstant_pushCode]

theorem Counted.pushCode {draft : Draft} (h : draft.Counted) (line : Text) :
    (draft.pushCode line).Counted where
  numbered := by
    rw [inputs_pushCode]
    exact h.numbered
  next := by
    rw [inputs_pushCode, nextConstant_pushCode]
    exact h.next

theorem Counted.addInput {draft : Draft} (h : draft.Counted) (constant instanced : Bool)
    (type : DataType) (name : Text) : (draft.addInput constant instanced type name).Counted := by
  unfold Draft.addInput
  refine Counted.pushCode (Counted.pushCode ⟨?_, ?_⟩ _) _
  · refine h.numbered.concat rfl (fun id hid => ?_) rfl
    cases constant with
    | false => cases hid
    | true =>
      obtain rfl : draft.nextConstant = id := Option.some.inj hid
      exact h.next
  · show (if constant then draft.nextConstant + type.componentCount else draft.nextConstant) =
      constantCount (draft.inputs ++ [draft.newInput constant instanced type name])
    rw [constantCount_append, h.next]
    cases constant <;> simp [constantCount, newInput, Input.isConstant]

theorem invariant_counted : Invariant Counted where
  code := fun draft line _ h => h.pushCode line
  once := fun _ _ h => ⟨h.numbered, h.next⟩
  step := by
    intro draft file line next hstep h
    cases hstep with
    | mutator | rewrite | openStage | closeStage | firstSet => exact ⟨h.numbered, h.next⟩
    | input => exact h.addInput _ _ _ _
    | sameSet => exact h

/-! ## 3. Bindings -/

/-- Exactly textures and samplers are given a binding. -/
theorem binding_isSome_of_mem_bindResources {inputs : List Input} {next : Nat} {input : Input}
    (hunbound : ∀ input ∈ inputs, input.binding = none) (h : input ∈ bindResources next inputs) :
    input.binding.isSome = input.type.isResource := by
  induction inputs generalizing next with
  | nil => cases h
  | cons first rest ih =>
    rw [List.forall_mem_cons] at hunbound
    rw [bindResources] at h
    split at h
    next hresource =>
      rcases List.mem_cons.mp h with rfl | h
      · simp [hresource]
      · exact ih hunbound.2 h
    next hplain =>
      rcases List.mem_cons.mp h with rfl | h
      · simp [hunbound.1, hplain]
      · exact ih hunbound.2 h

end Draft

/-- The inputs of a program are the numbered ones that it declares, with bindings given to them. -/
theorem Program.numbered_of_read {reader : FileReader} {settings : Settings} {fileName : Text}
    {program : Program} (h : Program.read reader settings fileName = .ok program) :
    ∃ declared, Numbered declared ∧
      program.inputs = Draft.bindResources (Draft.firstBinding declared) declared := by
  obtain ⟨draft, hdraft, lastLine, hfinish⟩ :=
    Draft.invariant_counted.read h Draft.counted_empty
  obtain ⟨-, -, rfl⟩ := Draft.finish_eq_ok_iff.mp hfinish
  exact ⟨draft.inputs, hdraft.numbered, rfl⟩

end ShaderVariants
