import Zkie.GraphSteps

namespace Zkie.GraphCompiler

open Checked Isa Onnx
open FixedPoint (mapError_eq_ok)
open Satisfaction (exists_forall₂ forall₂_exists_of_mem)

section Invariant

variable (floats : FloatOps) (graph : GraphProto) (shapes : Shapes)

/-- The instruction of a node and the names of its outputs. -/
def instructionOf (node : NodeProto) : Option (Instruction × List String) :=
  match mapNode floats node shapes with
  | .ok (.instruction instruction _ output) => some (instruction, output)
  | _ => none

/-- A node in the registers and instructions of a state: it has an instruction of its own over the registers of its
inputs, or its outputs are in the register of its first input. -/
inductive NodeCompiled (state : CompileState) (node : NodeProto) : Prop
  | instruction (instruction : Instruction) (inputs : List Register) (outputName : String) (k : ℕ)
      (hmeta : node.opType ∉ metadataTypes)
      (hmap : mapNode floats node shapes = .ok (.instruction instruction node.input [outputName]))
      (hout : node.output = [outputName])
      (hinputs : List.Forall₂ (fun name r => state.registers name = some r) node.input inputs)
      (hinstr : state.instructions[k]? = some ⟨instruction, inputs, outputName⟩)
      (hregister : state.registers outputName = some (.virtual k))
  | metadata (source : String) (register : Register) (hmeta : node.opType ∈ metadataTypes)
      (hmap : mapNode floats node shapes = .ok (metadataOp node)) (hsource : node.input.head? = some source)
      (hregister : state.registers source = some register)
      (hout : ∀ name ∈ node.output, state.registers name = some register)

/-- A later state knows every register and instruction of an earlier one. -/
structure Extends (state state' : CompileState) : Prop where
  registers : ∀ name r, state.registers name = some r → state'.registers name = some r
  instructions : ∀ (k : ℕ) instr, state.instructions[k]? = some instr → state'.instructions[k]? = some instr

/-- The state of the compiler once it has visited the nodes in `done`. -/
structure Compiled (done : List ℕ) (state : CompileState) : Prop where
  domain : ∀ name, (state.registers name).isSome ↔ DefinedBy graph done name
  bound : ∀ name k, state.registers name = some (.virtual k) → k < state.instructions.length
  initial : ∀ name r, initialRegisters graph name = some r → state.registers name = some r
  earlier : ∀ (k : ℕ) instr, state.instructions[k]? = some instr → ∀ j, .virtual j ∈ instr.inputs → j < k
  outputs : state.instructions.map (fun instr => (instr.instruction, [instr.outputName])) =
    done.filterMap fun i => (graph.node[i]?).bind (instructionOf floats shapes)
  nodes : ∀ i ∈ done, ∃ node, graph.node[i]? = some node ∧ NodeCompiled floats shapes state node ∧
    ∀ name ∈ neededInputs node, name ∉ node.output

variable {floats graph shapes} {state state' : CompileState} {done : List ℕ} {idx : ℕ} {node : NodeProto}

theorem NodeCompiled.mono (h : NodeCompiled floats shapes state node) (hext : Extends state state') :
    NodeCompiled floats shapes state' node := by
  cases h with
  | instruction instruction inputs outputName k hmeta hmap hout hinputs hinstr hregister =>
      apply NodeCompiled.instruction instruction inputs outputName k hmeta hmap hout
      · exact hinputs.imp fun name r => hext.registers name r
      · exact hext.instructions _ _ hinstr
      · exact hext.registers _ _ hregister
  | metadata source register hmeta hmap hsource hregister hout =>
      apply NodeCompiled.metadata source register hmeta hmap hsource
      · exact hext.registers _ _ hregister
      · intro name hname
        exact hext.registers _ _ (hout name hname)

theorem initialRegisters_isSome (name : String) :
    (initialRegisters graph name).isSome ↔ name ∈ graph.input.map (·.name) ++ graph.initializer.map (·.name) := by
  unfold initialRegisters
  rw [collect_isSome, List.map_append, List.map_map, List.map_map]
  rfl

theorem initialRegisters_kind {name : String} {r : Register} (h : initialRegisters graph name = some r) (k : ℕ) :
    r ≠ .virtual k := by
  rintro rfl
  rcases List.mem_append.mp (mem_of_collect h) with hmem | hmem
  · obtain ⟨_, -, heq⟩ := List.mem_map.mp hmem
    cases heq
  · obtain ⟨_, -, heq⟩ := List.mem_map.mp hmem
    cases heq

theorem compiled_initial : Compiled floats graph shapes [] ⟨initialRegisters graph, []⟩ where
  domain name := by
    rw [initialRegisters_isSome]
    simp [DefinedBy]
  bound name k h := absurd rfl (initialRegisters_kind h k)
  initial _ _ h := h
  earlier k instr h := by simp at h
  outputs := rfl
  nodes i h := absurd h List.not_mem_nil

/-- A name is defined by one node only. -/
theorem not_definedBy (hnames : (definedNames graph).Nodup) (hnode : graph.node[idx]? = some node) (hidx : idx ∉ done)
    {name : String} (hname : name ∈ node.output) : ¬DefinedBy graph done name := by
  rintro (hinitial | ⟨i, hi, a, ha, hout⟩)
  · apply List.disjoint_of_nodup_append hnames hinitial
    exact List.mem_flatMap.mpr ⟨node, List.mem_of_getElem? hnode, hname⟩
  · have hi' : i = idx := by
      have h₁ := (producerOf_eq_some hnames).mpr ⟨a, ha, hout⟩
      have h₂ := (producerOf_eq_some hnames).mpr ⟨node, hnode, hname⟩
      exact Option.some_inj.mp (h₁.symm.trans h₂)
    exact hidx (hi' ▸ hi)

@[simp] theorem push_registers (instruction : Instruction) (inputs : List Register) (outputName name : String) :
    (push state instruction inputs outputName).registers name =
      if name = outputName then some (.virtual state.instructions.length) else state.registers name :=
  insert_apply _ _ _ _

@[simp] theorem push_instructions (instruction : Instruction) (inputs : List Register) (outputName : String) :
    (push state instruction inputs outputName).instructions = state.instructions ++ [⟨instruction, inputs, outputName⟩] :=
  rfl

@[simp] theorem alias_registers (names : List String) (register : Register) (name : String) :
    ({ state with registers := names.foldl (fun m name => m.insert name register) state.registers } :
      CompileState).registers name = if name ∈ names then some register else state.registers name :=
  foldl_insert _ _ _ _

theorem extends_push {instruction : Instruction} {inputs : List Register} {outputName : String}
    (hfresh : state.registers outputName = none) : Extends state (push state instruction inputs outputName) where
  registers name r h := by
    have hname : name ≠ outputName := by
      rintro rfl
      rw [hfresh] at h
      cases h
    rw [push_registers, if_neg hname]
    exact h
  instructions k instr h := by
    rw [push_instructions, List.getElem?_append_left (List.getElem?_eq_some_iff.mp h).1]
    exact h

theorem extends_alias {names : List String} {register : Register} (hfresh : ∀ name ∈ names, state.registers name = none) :
    Extends state { state with registers := names.foldl (fun m name => m.insert name register) state.registers } where
  registers name r h := by
    have hname : name ∉ names := by
      intro hname
      rw [hfresh name hname] at h
      cases h
    rw [alias_registers, if_neg hname]
    exact h
  instructions _ _ h := h

theorem Compiled.fresh (h : Compiled floats graph shapes done state) (hnames : (definedNames graph).Nodup)
    (hnode : graph.node[idx]? = some node) (hidx : idx ∉ done) {name : String} (hname : name ∈ node.output) :
    state.registers name = none := by
  rw [← Option.not_isSome_iff_eq_none, h.domain]
  exact not_definedBy hnames hnode hidx hname

/-- Earlier nodes stay compiled, the new one is compiled in the new state. -/
theorem Compiled.extend_nodes (h : Compiled floats graph shapes done state) (hnames : (definedNames graph).Nodup)
    (hnode : graph.node[idx]? = some node) (hidx : idx ∉ done) (hext : Extends state state')
    (hcompiled : NodeCompiled floats shapes state' node)
    (hneeded : ∀ name ∈ neededInputs node, ∃ r, state.registers name = some r) :
    ∀ i ∈ done ++ [idx], ∃ node, graph.node[i]? = some node ∧ NodeCompiled floats shapes state' node ∧
      ∀ name ∈ neededInputs node, name ∉ node.output := by
  intro i hi
  rcases List.mem_append.mp hi with hi | hi
  · obtain ⟨a, ha, hnodeCompiled, hself⟩ := h.nodes i hi
    exact ⟨a, ha, hnodeCompiled.mono hext, hself⟩
  · rw [List.mem_singleton.mp hi]
    refine ⟨node, hnode, hcompiled, fun name hname hout => ?_⟩
    obtain ⟨r, hr⟩ := hneeded name hname
    rw [h.fresh hnames hnode hidx hout] at hr
    cases hr

theorem Compiled.step_instruction {instruction : Instruction} {inputs : List Register} {outputName : String}
    (h : Compiled floats graph shapes done state) (hnames : (definedNames graph).Nodup)
    (hnode : graph.node[idx]? = some node) (hidx : idx ∉ done) (hmeta : node.opType ∉ metadataTypes)
    (hmap : mapNode floats node shapes = .ok (.instruction instruction node.input [outputName]))
    (hout : node.output = [outputName])
    (hinputs : List.Forall₂ (fun name r => state.registers name = some r) node.input inputs) :
    Compiled floats graph shapes (done ++ [idx]) (push state instruction inputs outputName) := by
  have hext : Extends state (push state instruction inputs outputName) :=
    extends_push (h.fresh hnames hnode hidx (by simp [hout]))
  have hlast : (push state instruction inputs outputName).instructions[state.instructions.length]? =
      some ⟨instruction, inputs, outputName⟩ := List.getElem?_concat_length
  refine ⟨?_, ?_, ?_, ?_, ?_, ?_⟩
  · intro name
    rw [definedBy_append hnode, push_registers, hout, List.mem_singleton, ← h.domain]
    by_cases hname : name = outputName <;> simp [hname]
  · intro name k hname
    rw [push_registers] at hname
    rw [push_instructions, List.length_append, List.length_singleton]
    split at hname
    · cases hname
      exact Nat.lt_succ_self _
    · exact Nat.lt_succ_of_lt (h.bound name k hname)
  · intro name r hname
    exact hext.registers name r (h.initial name r hname)
  · intro k instr hk j hj
    rcases Nat.lt_or_ge k state.instructions.length with hlt | hge
    · rw [push_instructions, List.getElem?_append_left hlt] at hk
      exact h.earlier k instr hk j hj
    · have hkeq : k = state.instructions.length := by
        have hlt := (List.getElem?_eq_some_iff.mp hk).1
        rw [push_instructions, List.length_append, List.length_singleton] at hlt
        omega
      subst hkeq
      rw [hlast, Option.some_inj] at hk
      subst hk
      obtain ⟨name, -, hname⟩ := forall₂_exists_of_mem hinputs.flip hj
      exact h.bound name j hname
  · rw [push_instructions, List.map_append, h.outputs, List.filterMap_append]
    simp [hnode, instructionOf, hmap]
  · apply h.extend_nodes hnames hnode hidx hext
    · apply NodeCompiled.instruction instruction inputs outputName state.instructions.length hmeta hmap hout
      · exact hinputs.imp fun name r => hext.registers name r
      · exact hlast
      · rw [push_registers, if_pos rfl]
    · intro name hname
      rw [neededInputs, if_neg hmeta] at hname
      obtain ⟨r, -, hr⟩ := forall₂_exists_of_mem hinputs hname
      exact ⟨r, hr⟩

theorem Compiled.step_metadata {source : String} {register : Register} (h : Compiled floats graph shapes done state)
    (hnames : (definedNames graph).Nodup) (hnode : graph.node[idx]? = some node) (hidx : idx ∉ done)
    (hmeta : node.opType ∈ metadataTypes) (hmap : mapNode floats node shapes = .ok (metadataOp node))
    (hsource : node.input.head? = some source) (hregister : state.registers source = some register) :
    Compiled floats graph shapes (done ++ [idx])
      { state with registers := node.output.foldl (fun m name => m.insert name register) state.registers } := by
  have hext : Extends state
      { state with registers := node.output.foldl (fun m name => m.insert name register) state.registers } :=
    extends_alias fun name hname => h.fresh hnames hnode hidx hname
  refine ⟨?_, ?_, ?_, h.earlier, ?_, ?_⟩
  · intro name
    rw [definedBy_append hnode, alias_registers, ← h.domain]
    by_cases hname : name ∈ node.output <;> simp [hname]
  · intro name k hname
    rw [alias_registers] at hname
    split at hname
    · cases hname
      exact h.bound source k hregister
    · exact h.bound name k hname
  · intro name r hname
    exact hext.registers name r (h.initial name r hname)
  · rw [h.outputs, List.filterMap_append]
    simp [hnode, instructionOf, hmap, metadataOp]
  · apply h.extend_nodes hnames hnode hidx hext
    · apply NodeCompiled.metadata source register hmeta hmap hsource
      · exact hext.registers _ _ hregister
      · intro name hname
        rw [alias_registers, if_pos hname]
    · intro name hname
      rw [neededInputs, if_pos hmeta] at hname
      cases hinput : node.input with
      | nil => simp [hinput] at hname
      | cons first rest =>
          simp only [hinput, List.head?_cons, Option.some_inj] at hsource
          simp only [hinput, List.take_succ_cons, List.take_zero, List.mem_singleton] at hname
          exact ⟨register, by rw [hname, hsource, hregister]⟩

theorem Compiled.step (h : Compiled floats graph shapes done state) (hnames : (definedNames graph).Nodup)
    (hidx : idx ∉ done) (hcompile : compileNode floats graph shapes [] state idx = .ok state') :
    Compiled floats graph shapes (done ++ [idx]) state' := by
  obtain ⟨node, op, hnode, hmap, hop⟩ := compileNode_eq_ok.mp hcompile
  obtain ⟨hmeta, instruction, inputs, outputName, rfl, hout, hinputs, rfl⟩ |
    ⟨hmeta, source, register, rfl, hsource, hregister, rfl⟩ := compileOp_ok hmap hop
  · exact h.step_instruction hnames hnode hidx hmeta hmap hout hinputs
  · exact h.step_metadata hnames hnode hidx hmeta hmap hsource hregister

theorem Compiled.run {rest : List ℕ} (h : Compiled floats graph shapes done state) (hnames : (definedNames graph).Nodup)
    (hnodup : (done ++ rest).Nodup) (hrun : rest.foldlM (compileNode floats graph shapes []) state = .ok state') :
    Compiled floats graph shapes (done ++ rest) state' := by
  induction rest generalizing done state with
  | nil =>
      cases hrun
      rw [List.append_nil]
      exact h
  | cons i rest ih =>
      rw [List.foldlM_cons, bind_eq_ok] at hrun
      obtain ⟨next, hnext, hrun⟩ := hrun
      have hi : i ∉ done := fun hmem => List.disjoint_of_nodup_append hnodup hmem (.head _)
      rw [List.append_cons] at hnodup ⊢
      exact ih (h.step hnames hi hnext) hnodup hrun

end Invariant

section Evaluation

variable {V : Type} {interpret : Instruction → List V → V} {inputs weights : String → V}

theorem readRegister_append {values : List V} {r : Register} {a : V} (v : V)
    (h : readRegister inputs weights values r = some a) : readRegister inputs weights (values ++ [v]) r = some a := by
  cases r with
  | graphInput name => exact h
  | weight name => exact h
  | virtual index =>
      have hlt := (List.getElem?_eq_some_iff.mp h).1
      rw [readRegister, List.getElem?_append_left hlt]
      exact h

variable (interpret inputs weights) in
/-- Every instruction has its value, computed from the values of its operands. -/
def Evaluated (instructions : List CompiledInstruction) (values : List V) : Prop :=
  ∀ (k : ℕ) instr, instructions[k]? = some instr → ∃ args,
    List.Forall₂ (fun r a => readRegister inputs weights values r = some a) instr.inputs args ∧
      values[k]? = some (interpret instr.instruction args)

theorem evaluateProgram_spec {instructions : List CompiledInstruction}
    (hearlier : ∀ (k : ℕ) instr, instructions[k]? = some instr → ∀ j, .virtual j ∈ instr.inputs → j < k) :
    ∃ values, evaluateProgram interpret inputs weights instructions = some values ∧
      values.length = instructions.length ∧ Evaluated interpret inputs weights instructions values := by
  induction instructions using List.reverseRecOn with
  | nil => exact ⟨[], rfl, rfl, fun k instr h => by simp at h⟩
  | append_singleton instructions last ih =>
      have hlast : (instructions ++ [last])[instructions.length]? = some last := List.getElem?_concat_length
      have hinit : ∀ (k : ℕ) instr, instructions[k]? = some instr → (instructions ++ [last])[k]? = some instr := by
        intro k instr hk
        rw [List.getElem?_append_left (List.getElem?_eq_some_iff.mp hk).1]
        exact hk
      obtain ⟨values, hvalues, hlength, hevaluated⟩ := ih fun k instr hk => hearlier k instr (hinit k instr hk)
      have hargs : ∃ args, List.Forall₂ (fun r a => readRegister inputs weights values r = some a) last.inputs args := by
        apply exists_forall₂
        intro r hr
        cases r with
        | graphInput name => exact ⟨inputs name, rfl⟩
        | weight name => exact ⟨weights name, rfl⟩
        | virtual j =>
            have hj : j < values.length := hlength ▸ hearlier _ _ hlast j hr
            exact ⟨values[j], List.getElem?_eq_getElem hj⟩
      obtain ⟨args, hargs⟩ := hargs
      refine ⟨values ++ [interpret last.instruction args], ?_, by simp [hlength], ?_⟩
      · unfold evaluateProgram at hvalues ⊢
        rw [List.foldlM_append, hvalues, Option.bind_eq_bind, Option.bind_some, List.foldlM_cons, mapM_eq_some.mpr hargs]
        rfl
      · intro k instr hk
        rcases Nat.lt_or_ge k instructions.length with hlt | hge
        · rw [List.getElem?_append_left hlt] at hk
          obtain ⟨args', hargs', hvalue⟩ := hevaluated k instr hk
          refine ⟨args', hargs'.imp fun r a => readRegister_append _, ?_⟩
          rw [List.getElem?_append_left (hlength ▸ hlt)]
          exact hvalue
        · have hkeq : k = instructions.length := by
            have hlt := (List.getElem?_eq_some_iff.mp hk).1
            rw [List.length_append, List.length_singleton] at hlt
            omega
          subst hkeq
          rw [hlast, Option.some_inj] at hk
          subst hk
          refine ⟨args, hargs.imp fun r a => readRegister_append _, ?_⟩
          rw [← hlength]
          exact List.getElem?_concat_length

variable {floats : FloatOps} {graph : GraphProto} {shapes : Shapes} {state : CompileState} {node : NodeProto}
  {env env' : NameMap V} {values : List V} {order done : List ℕ}

variable (inputs weights) in
/-- The values of the names are those of their registers. -/
def Agrees (state : CompileState) (values : List V) (env : NameMap V) : Prop :=
  ∀ name v, env name = some v → ∃ r, state.registers name = some r ∧ readRegister inputs weights values r = some v

theorem Agrees.forall₂ (h : Agrees inputs weights state values env) {names : List String} {registers : List Register}
    {args : List V} (hregisters : List.Forall₂ (fun name r => state.registers name = some r) names registers)
    (hargs : List.Forall₂ (fun r a => readRegister inputs weights values r = some a) registers args)
    (hdefined : ∀ name ∈ names, (env name).isSome) : List.Forall₂ (fun name a => env name = some a) names args := by
  induction hregisters generalizing args with
  | nil =>
      cases hargs
      exact .nil
  | @cons name r names registers hname _ ih =>
      cases hargs with
      | @cons _ a _ args ha hargs =>
          refine .cons ?_ (ih hargs fun name hmem => hdefined name (.tail _ hmem))
          obtain ⟨v, hv⟩ := Option.isSome_iff_exists.mp (hdefined name (.head _))
          obtain ⟨r', hr', hread⟩ := h name v hv
          rw [hname, Option.some_inj] at hr'
          subst hr'
          rw [hv, ← hread, ha]

/-- A node evaluates in the values of its inputs, and the value it defines is that of its register. -/
theorem Agrees.evaluateNode (h : Agrees inputs weights state values env)
    (hevaluated : Evaluated interpret inputs weights state.instructions values)
    (hnode : NodeCompiled floats shapes state node) (hneeded : ∀ name ∈ neededInputs node, (env name).isSome) :
    ∃ env', GraphCompiler.evaluateNode interpret floats shapes env node = some env' ∧
      Agrees inputs weights state values env' ∧ ∀ name, (env' name).isSome ↔ (env name).isSome ∨ name ∈ node.output := by
  unfold GraphCompiler.evaluateNode
  cases hnode with
  | instruction instruction registers outputName k hmeta hmap hout hregisters hinstr hregister =>
      obtain ⟨args, hargs, hvalue⟩ := hevaluated k _ hinstr
      have hinputs : List.Forall₂ (fun name a => env name = some a) node.input args := by
        apply h.forall₂ hregisters hargs
        intro name hname
        exact hneeded name (by rwa [neededInputs, if_neg hmeta])
      refine ⟨env.insert outputName (interpret instruction args), ?_, ?_, ?_⟩
      · simp only [hmap, mapM_eq_some.mpr hinputs]
        rfl
      · intro name v hv
        rw [insert_apply] at hv
        by_cases hname : name = outputName
        · subst hname
          rw [if_pos rfl] at hv
          cases hv
          exact ⟨_, hregister, hvalue⟩
        · rw [if_neg hname] at hv
          exact h name v hv
      · intro name
        rw [insert_apply, hout]
        by_cases hname : name = outputName <;> simp [hname]
  | metadata source register hmeta hmap hsource hregister hout =>
      have hdefined : (env source).isSome := by
        apply hneeded
        rw [neededInputs, if_pos hmeta]
        cases hinput : node.input with
        | nil => simp [hinput] at hsource
        | cons first rest =>
            rw [hinput, List.head?_cons, Option.some_inj] at hsource
            simp [hsource]
      obtain ⟨value, hvalue⟩ := Option.isSome_iff_exists.mp hdefined
      refine ⟨node.output.foldl (fun m name => m.insert name value) env, ?_, ?_, ?_⟩
      · simp only [hmap, metadataOp, hsource, Option.bind_eq_bind, Option.bind_some, hvalue]
        rfl
      · intro name v hv
        rw [foldl_insert] at hv
        by_cases hname : name ∈ node.output
        · rw [if_pos hname] at hv
          cases hv
          obtain ⟨r, hr, hread⟩ := h source value hvalue
          rw [hregister, Option.some_inj] at hr
          subst hr
          exact ⟨register, hout name hname, hread⟩
        · rw [if_neg hname] at hv
          exact h name v hv
      · intro name
        rw [foldl_insert]
        by_cases hname : name ∈ node.output <;> simp [hname]

theorem initialValues_agrees (hnames : (definedNames graph).Nodup) (hcompiled : Compiled floats graph shapes done state) :
    Agrees inputs weights state values (initialValues graph inputs weights) := by
  have hkeys : ((graph.input.map (fun input => (input.name, Register.graphInput input.name)) ++
      graph.initializer.map fun initializer => (initializer.name, Register.weight initializer.name)).map Prod.fst).Nodup := by
    rw [List.map_append, List.map_map, List.map_map]
    exact hnames.of_append_left
  intro name v hv
  rcases List.mem_append.mp (mem_of_collect hv) with hmem | hmem
  · obtain ⟨input, hinput, heq⟩ := List.mem_map.mp hmem
    cases heq
    refine ⟨.graphInput input.name, hcompiled.initial _ _ ?_, rfl⟩
    exact (collect_eq_some hkeys).mpr (List.mem_append_left _ (List.mem_map.mpr ⟨input, hinput, rfl⟩))
  · obtain ⟨initializer, hinitializer, heq⟩ := List.mem_map.mp hmem
    cases heq
    refine ⟨.weight initializer.name, hcompiled.initial _ _ ?_, rfl⟩
    exact (collect_eq_some hkeys).mpr (List.mem_append_right _ (List.mem_map.mpr ⟨initializer, hinitializer, rfl⟩))

theorem initialValues_isSome (name : String) : (initialValues graph inputs weights name).isSome ↔ DefinedBy graph [] name := by
  unfold initialValues
  rw [collect_isSome, List.map_append, List.map_map, List.map_map]
  simp [DefinedBy]

theorem mem_input_of_needed {name : String} (h : name ∈ neededInputs node) : name ∈ node.input := by
  unfold neededInputs at h
  split at h
  · exact List.mem_of_mem_take h
  · exact h

theorem NodeCompiled.needed (h : NodeCompiled floats shapes state node) {name : String} (hname : name ∈ neededInputs node) :
    (state.registers name).isSome := by
  cases h with
  | instruction instruction registers outputName k hmeta _ _ hregisters =>
      rw [neededInputs, if_neg hmeta] at hname
      obtain ⟨r, -, hr⟩ := forall₂_exists_of_mem hregisters hname
      exact Option.isSome_iff_exists.mpr ⟨r, hr⟩
  | metadata source register hmeta _ hsource hregister =>
      rw [neededInputs, if_pos hmeta, List.take_one, hsource] at hname
      rw [List.mem_singleton.mp hname]
      exact Option.isSome_iff_exists.mpr ⟨register, hregister⟩

/-- In a dependency order the needed inputs of a node are defined before it. -/
theorem IsDependencyOrder.definedBy {idx : ℕ} {rest : List ℕ} {name : String}
    (horder : IsDependencyOrder graph (done ++ idx :: rest)) (hnode : graph.node[idx]? = some node)
    (hname : name ∈ neededInputs node) (hself : name ∉ node.output) (hdefined : name ∈ definedNames graph) :
    DefinedBy graph done name := by
  rcases List.mem_append.mp hdefined with hinitial | houtput
  · exact .inl hinitial
  · obtain ⟨a, ha, hout⟩ := List.mem_flatMap.mp houtput
    obtain ⟨p, hp⟩ := List.mem_iff_getElem?.mp ha
    have hne : p ≠ idx := by
      rintro rfl
      rw [hnode, Option.some_inj] at hp
      exact hself (hp ▸ hout)
    have hreads : Reads graph p idx := ⟨a, node, hp, hnode, name, mem_input_of_needed hname, hout⟩
    exact .inr ⟨p, horder.2 done idx rest rfl p hne hreads, a, hp, hout⟩

theorem definedBy_mem {name : String} (h : DefinedBy graph done name) : name ∈ definedNames graph := by
  rcases h with hinitial | ⟨i, -, a, ha, hout⟩
  · exact List.mem_append_left _ hinitial
  · exact output_mem_definedNames ha hout

theorem IsDependencyOrder.mem (horder : IsDependencyOrder graph order) {i : ℕ} (hi : i < graph.node.length) : i ∈ order :=
  horder.1.mem_iff.mpr (List.mem_range.mpr hi)

theorem IsDependencyOrder.lt (horder : IsDependencyOrder graph order) {i : ℕ} (hi : i ∈ order) : i < graph.node.length :=
  List.mem_range.mp (horder.1.mem_iff.mp hi)

theorem IsDependencyOrder.definedBy_all (horder : IsDependencyOrder graph order) {name : String}
    (hname : name ∈ definedNames graph) : DefinedBy graph order name := by
  rcases List.mem_append.mp hname with hinitial | houtput
  · exact .inl hinitial
  · obtain ⟨a, ha, hout⟩ := List.mem_flatMap.mp houtput
    obtain ⟨i, hi⟩ := List.mem_iff_getElem?.mp ha
    exact .inr ⟨i, horder.mem (List.getElem?_eq_some_iff.mp hi).1, a, hi, hout⟩

/-- The nodes evaluate in any dependency order, to the values in the registers. -/
theorem Compiled.evaluateNodes {compiled : List ℕ} (h : Compiled floats graph shapes compiled state)
    (hnames : (definedNames graph).Nodup) (hall : ∀ i < graph.node.length, i ∈ compiled)
    (hevaluated : Evaluated interpret inputs weights state.instructions values) {rest : List ℕ}
    (horder : IsDependencyOrder graph (done ++ rest)) :
    ∃ env, GraphCompiler.evaluateNodes interpret floats graph shapes inputs weights done = some env ∧
      Agrees inputs weights state values env ∧ ∀ name, (env name).isSome ↔ DefinedBy graph done name := by
  induction done using List.reverseRecOn generalizing rest with
  | nil => exact ⟨_, rfl, initialValues_agrees hnames h, initialValues_isSome⟩
  | append_singleton done idx ih =>
      rw [List.append_assoc, List.singleton_append] at horder
      obtain ⟨env, henv, hagrees, hdomain⟩ := ih horder
      obtain ⟨node, hnode, hcompiled, hself⟩ := h.nodes idx (hall idx (horder.lt (by simp)))
      have hneeded : ∀ name ∈ neededInputs node, (env name).isSome := by
        intro name hname
        rw [hdomain]
        apply horder.definedBy hnode hname (hself name hname)
        exact definedBy_mem ((h.domain name).mp (hcompiled.needed hname))
      obtain ⟨env', henv', hagrees', hdomain'⟩ := hagrees.evaluateNode hevaluated hcompiled hneeded
      refine ⟨env', ?_, hagrees', ?_⟩
      · unfold GraphCompiler.evaluateNodes at henv ⊢
        rw [List.foldlM_append, henv, Option.bind_eq_bind, Option.bind_some, List.foldlM_cons, hnode]
        simp only [Option.bind_eq_bind, Option.bind_some, henv', List.foldlM_nil]
        rfl
      · intro name
        rw [hdomain', hdomain, definedBy_append hnode]

end Evaluation

section Main

variable {floats : FloatOps} {graph : GraphProto} {shapes : Shapes} {state : CompileState} {order : List ℕ}
  {program : CompiledProgram} {weights : List (String × WeightTensor)}

/-- No RMSNorm pattern of the graph is fused. -/
def NoFusion (floats : FloatOps) (graph : GraphProto) : Prop :=
  ∀ weights, extractInitializers graph = .ok weights → detectRmsNormFusions floats graph (NameMap.collect weights) = []

theorem graphOutput_eq_ok {output : ValueInfoProto} {entry : String × Register} :
    graphOutput state.registers output = .ok entry ↔
      entry.1 = output.name ∧ state.registers output.name = some entry.2 := by
  unfold graphOutput
  simp only [bind_eq_ok, orElse_eq_ok]
  constructor
  · rintro ⟨register, hregister, h⟩
    cases h
    exact ⟨rfl, hregister⟩
  · rintro ⟨hname, hregister⟩
    refine ⟨entry.2, hregister, ?_⟩
    rw [← hname]
    rfl

theorem compileGraph_eq_ok (hfusion : NoFusion floats graph) : compileGraph floats graph = .ok program ↔
    ∃ order state, extractInitializers graph = .ok program.weights ∧ topologicalOrder graph = .ok order ∧
      order.foldlM (compileNode floats graph (allShapes graph program.weights) []) ⟨initialRegisters graph, []⟩ =
        .ok state ∧
      program.instructions = state.instructions ∧ program.graphInputs = graph.input.map (·.name) ∧
      List.Forall₂ (fun output entry => entry.1 = output.name ∧ state.registers output.name = some entry.2) graph.output
        program.graphOutputs := by
  unfold compileGraph
  simp only [bind_eq_ok, mapError_eq_ok, mapM_eq_ok, graphOutput_eq_ok]
  constructor
  · rintro ⟨weights, hweights, order, horder, state, hrun, outputs, houtputs, h⟩
    cases h
    rw [hfusion weights hweights] at hrun
    exact ⟨order, state, hweights, horder, hrun, rfl, rfl, houtputs⟩
  · rintro ⟨order, state, hweights, horder, hrun, hinstructions, hinputs, houtputs⟩
    refine ⟨program.weights, hweights, order, horder, state, ?_, program.graphOutputs, houtputs, ?_⟩
    · rw [hfusion program.weights hweights]
      exact hrun
    · rw [← hinstructions, ← hinputs]
      rfl

/-- The nodes can be compiled in a dependency order. -/
theorem Compiled.exists_run {done rest : List ℕ} (h : Compiled floats graph (allShapes graph weights) done state)
    (hnames : (definedNames graph).Nodup) (hwf : WellFormed floats graph weights)
    (hacyclic : ∀ i, ¬Relation.TransGen (DependsOn graph) i i) (horder : IsDependencyOrder graph (done ++ rest)) :
    ∃ state', rest.foldlM (compileNode floats graph (allShapes graph weights) []) state = .ok state' := by
  induction rest generalizing done state with
  | nil => exact ⟨state, rfl⟩
  | cons idx rest ih =>
      have hlt : idx < graph.node.length := horder.lt (by simp)
      have hnode : graph.node[idx]? = some graph.node[idx] := List.getElem?_eq_getElem hlt
      have hmem : graph.node[idx] ∈ graph.node := List.getElem_mem hlt
      obtain ⟨op, hmap, hone⟩ := hwf.mapped _ hmem
      have hneeded : ∀ name ∈ neededInputs graph.node[idx], (state.registers name).isSome := by
        intro name hname
        rw [h.domain]
        apply horder.definedBy hnode hname
        · intro hself
          apply hacyclic idx
          exact .single ⟨_, _, hnode, hnode, name, mem_input_of_needed hname, hself, fun _ => hname⟩
        · exact hwf.inputs _ hmem name hname
      obtain ⟨next, hop⟩ := compileOp_exists hmap hneeded hone (hwf.source _ hmem)
      have hnext : compileNode floats graph (allShapes graph weights) [] state idx = .ok next :=
        compileNode_eq_ok.mpr ⟨_, op, hnode, hmap, hop⟩
      have hidx : idx ∉ done := fun hin =>
        List.disjoint_of_nodup_append (horder.1.nodup_iff.mpr List.nodup_range) hin (.head _)
      rw [List.append_cons] at horder
      obtain ⟨state', hrun⟩ := ih (h.step hnames hidx hnext) horder
      exact ⟨state', by rw [List.foldlM_cons, bind_eq_ok]; exact ⟨next, hnext, hrun⟩⟩

theorem edge_iff (hnames : (definedNames graph).Nodup) {i j : ℕ} :
    Kahn.Edge graph.node.length (predecessors graph) i j ↔ i ≠ j ∧ Reads graph i j := by
  unfold Kahn.Edge
  rw [mem_predecessors hnames]
  constructor
  · exact And.right
  · rintro ⟨hne, a, b, ha, hb, hreads⟩
    exact ⟨(List.getElem?_eq_some_iff.mp hb).1, hne, a, b, ha, hb, hreads⟩

/-- What a successful compilation leaves behind. -/
theorem compiled_of_run (hnames : (definedNames graph).Nodup) (horder : topologicalOrder graph = .ok order)
    (hrun : order.foldlM (compileNode floats graph shapes []) ⟨initialRegisters graph, []⟩ = .ok state) :
    IsDependencyOrder graph order ∧ Compiled floats graph shapes order state := by
  have hdependency := (topologicalOrder_spec hnames).2 order horder
  refine ⟨hdependency, ?_⟩
  exact compiled_initial.run hnames (hdependency.1.nodup_iff.mpr List.nodup_range) hrun

theorem Compiled.wellFormed (h : Compiled floats graph (allShapes graph weights) order state)
    (horder : IsDependencyOrder graph order) (hweights : extractInitializers graph = .ok weights)
    (houtputs : ∀ output ∈ graph.output, (state.registers output.name).isSome) : WellFormed floats graph weights := by
  have hnodes : ∀ node ∈ graph.node, NodeCompiled floats (allShapes graph weights) state node := by
    intro node hnode
    obtain ⟨i, hi⟩ := List.mem_iff_getElem?.mp hnode
    obtain ⟨a, ha, hcompiled, -⟩ := h.nodes i (horder.mem (List.getElem?_eq_some_iff.mp hi).1)
    rw [hi, Option.some_inj] at ha
    exact ha ▸ hcompiled
  refine ⟨hweights, ?_, ?_, ?_, ?_⟩
  · intro node hnode
    cases hnodes node hnode with
    | instruction instruction inputs outputName k hmeta hmap hout =>
        exact ⟨_, hmap, fun _ => by rw [hout]; rfl⟩
    | metadata source register hmeta hmap => exact ⟨_, hmap, fun hnot => absurd hmeta hnot⟩
  · intro node hnode hmeta hinput
    cases hnodes node hnode with
    | instruction instruction inputs outputName k hnot => exact hnot hmeta
    | metadata source register _ _ hsource => simp [hinput] at hsource
  · intro node hnode name hname
    exact definedBy_mem ((h.domain name).mp ((hnodes node hnode).needed hname))
  · intro output houtput
    exact definedBy_mem ((h.domain _).mp (houtputs output houtput))

/-- A graph is compiled exactly when it is well formed and none of its nodes depends on itself. -/
theorem compileGraph_isOk (hnames : (definedNames graph).Nodup) (hfusion : NoFusion floats graph) :
    (∃ program, compileGraph floats graph = .ok program) ↔
      (∃ weights, WellFormed floats graph weights) ∧ ∀ i, ¬Relation.TransGen (DependsOn graph) i i := by
  constructor
  · rintro ⟨program, hprogram⟩
    obtain ⟨order, state, hweights, horder, hrun, -, -, houtputs⟩ := (compileGraph_eq_ok hfusion).mp hprogram
    obtain ⟨hdependency, hcompiled⟩ := compiled_of_run hnames horder hrun
    refine ⟨⟨program.weights, hcompiled.wellFormed hdependency hweights ?_⟩, ?_⟩
    · intro output houtput
      obtain ⟨entry, -, -, hregister⟩ := forall₂_exists_of_mem houtputs houtput
      exact Option.isSome_iff_exists.mpr ⟨entry.2, hregister⟩
    · intro i hcycle
      apply (topologicalOrder_spec hnames).1.mp ⟨order, horder⟩ i
      refine Relation.TransGen.mono ?_ _ _ hcycle
      rintro i j ⟨a, b, ha, hb, name, hname, hout, hself⟩
      refine (edge_iff hnames).mpr ⟨?_, a, b, ha, hb, name, hname, hout⟩
      rintro rfl
      obtain ⟨c, hc, -, hfresh⟩ := hcompiled.nodes i (hdependency.mem (List.getElem?_eq_some_iff.mp ha).1)
      rw [hb, Option.some_inj] at hc
      rw [hb, Option.some_inj] at ha
      subst hc ha
      exact hfresh name (hself rfl) hout
  · rintro ⟨⟨weights, hwf⟩, hacyclic⟩
    have hkahn : Kahn.Acyclic graph.node.length (predecessors graph) := by
      intro i hcycle
      apply hacyclic i
      refine Relation.TransGen.mono ?_ _ _ hcycle
      intro i j hedge
      obtain ⟨hne, a, b, ha, hb, name, hname, hout⟩ := (edge_iff hnames).mp hedge
      exact ⟨a, b, ha, hb, name, hname, hout, fun heq => absurd heq hne⟩
    obtain ⟨order, horder⟩ := (topologicalOrder_spec hnames).1.mpr hkahn
    have hdependency := (topologicalOrder_spec hnames).2 order horder
    obtain ⟨state, hrun⟩ := compiled_initial.exists_run hnames hwf hacyclic hdependency
    obtain ⟨-, hcompiled⟩ := compiled_of_run hnames horder hrun
    have houtputs : ∃ outputs, List.Forall₂ (fun (output : ValueInfoProto) (entry : String × Register) =>
        entry.1 = output.name ∧ state.registers output.name = some entry.2) graph.output outputs := by
      apply exists_forall₂
      intro output houtput
      have hsome : (state.registers output.name).isSome := by
        rw [hcompiled.domain]
        exact hdependency.definedBy_all (hwf.outputs output houtput)
      obtain ⟨r, hr⟩ := Option.isSome_iff_exists.mp hsome
      exact ⟨(output.name, r), rfl, hr⟩
    obtain ⟨outputs, houtputs⟩ := houtputs
    exact ⟨⟨state.instructions, weights, graph.input.map (·.name), outputs⟩,
      (compileGraph_eq_ok hfusion).mpr ⟨order, state, hwf.extracted, horder, hrun, rfl, rfl, houtputs⟩⟩

theorem filterMap_range {α β : Type} (f : α → Option β) (l : List α) :
    ((List.range l.length).filterMap fun i => (l[i]?).bind f) = l.filterMap f := by
  induction l using List.reverseRecOn with
  | nil => rfl
  | append_singleton l a ih =>
      rw [List.length_append, List.length_singleton, List.range_succ, List.filterMap_append, List.filterMap_append, ← ih]
      congr 1
      · apply List.filterMap_congr
        intro i hi
        rw [List.getElem?_append_left (List.mem_range.mp hi)]
      · have hlast : (l ++ [a])[l.length]? = some a := List.getElem?_concat_length
        simp only [List.filterMap_cons, List.filterMap_nil, hlast, Option.bind_some]

/-- A graph that defines every name once, and in which nothing is fused, is compiled exactly when it is well formed and
none of its nodes depends on itself. Then operands come before their uses, every instruction node has one instruction,
and the program has the values of the nodes, whichever dependency order they are evaluated in. -/
theorem compileGraph_preserves_meaning (hnames : (definedNames graph).Nodup) (hfusion : NoFusion floats graph) :
    ((∃ program, compileGraph floats graph = .ok program) ↔
      (∃ weights, WellFormed floats graph weights) ∧ ∀ i, ¬Relation.TransGen (DependsOn graph) i i) ∧
    ∀ program, compileGraph floats graph = .ok program →
      (∀ (k : ℕ) instr, program.instructions[k]? = some instr → ∀ j, .virtual j ∈ instr.inputs → j < k) ∧
      (program.instructions.map fun instr => (instr.instruction, [instr.outputName])).Perm
        (graph.node.filterMap (instructionOf floats (allShapes graph program.weights))) ∧
      program.graphOutputs.map Prod.fst = graph.output.map (·.name) ∧
      ∀ (V : Type) (interpret : Instruction → List V → V) (inputs weights : String → V) (order : List ℕ),
        IsDependencyOrder graph order → ∃ env values,
          evaluateNodes interpret floats graph (allShapes graph program.weights) inputs weights order = some env ∧
          evaluateProgram interpret inputs weights program.instructions = some values ∧
          ∀ entry ∈ program.graphOutputs, ∃ v, readRegister inputs weights values entry.2 = some v ∧
            env entry.1 = some v := by
  refine ⟨compileGraph_isOk hnames hfusion, fun program hprogram => ?_⟩
  obtain ⟨compiled, state, -, horder, hrun, hinstructions, -, houtputs⟩ := (compileGraph_eq_ok hfusion).mp hprogram
  obtain ⟨hdependency, hcompiled⟩ := compiled_of_run hnames horder hrun
  rw [hinstructions]
  refine ⟨hcompiled.earlier, ?_, ?_, ?_⟩
  · rw [hcompiled.outputs, ← filterMap_range _ graph.node]
    exact hdependency.1.filterMap _
  · have hnames : List.Forall₂ (· = ·) (program.graphOutputs.map Prod.fst) (graph.output.map (·.name)) := by
      rw [List.forall₂_map_left_iff, List.forall₂_map_right_iff]
      exact (houtputs.imp fun output entry h => h.1).flip
    rwa [List.forall₂_eq_eq_eq] at hnames
  · intro V interpret inputs weights order hother
    have hprogram : ∃ values, evaluateProgram interpret inputs weights state.instructions = some values ∧
        values.length = state.instructions.length ∧ Evaluated interpret inputs weights state.instructions values :=
      evaluateProgram_spec hcompiled.earlier
    obtain ⟨values, hvalues, -, hevaluated⟩ := hprogram
    have hwhole : IsDependencyOrder graph (order ++ []) := by rwa [List.append_nil]
    obtain ⟨env, henv, hagrees, hdomain⟩ := hcompiled.evaluateNodes hnames (fun i => hdependency.mem) hevaluated hwhole
    refine ⟨env, values, henv, hvalues, fun entry hentry => ?_⟩
    obtain ⟨output, -, hname, hregister⟩ := forall₂_exists_of_mem houtputs.flip hentry
    have hsome : (env output.name).isSome := by
      rw [hdomain]
      apply hother.definedBy_all
      exact definedBy_mem ((hcompiled.domain _).mp (Option.isSome_iff_exists.mpr ⟨_, hregister⟩))
    obtain ⟨v, hv⟩ := Option.isSome_iff_exists.mp hsome
    obtain ⟨r, hr, hread⟩ := hagrees output.name v hv
    rw [hregister, Option.some_inj] at hr
    subst hr
    exact ⟨v, hread, hname ▸ hv⟩

/-- The sum of an input with itself, through an alias and an activation, with the nodes listed from the output. -/
def reversedChain : GraphProto where
  node := [⟨"relu", "Relu", ["r"], ["y"], []⟩, ⟨"view", "Reshape", ["s"], ["r"], []⟩, ⟨"sum", "Add", ["a", "a"], ["s"], []⟩]
  initializer := []
  input := [⟨"a", none⟩]
  output := [⟨"y", none⟩]
  valueInfo := []

/-- Comparisons and roundings that a graph without attributes and weights never asks for. -/
def unusedFloats : FloatOps := ⟨fun bits => bits ≠ 0x40000000, fun _ => 0⟩

theorem compileGraph_preserves_meaning_reversedChain : (definedNames reversedChain).Nodup ∧
    NoFusion unusedFloats reversedChain ∧ ∃ program, compileGraph unusedFloats reversedChain = .ok program ∧
      ∀ (V : Type) (interpret : Instruction → List V → V) (inputs weights : String → V), ∃ env values,
        evaluateNodes interpret unusedFloats reversedChain (allShapes reversedChain program.weights) inputs weights
          [2, 1, 0] = some env ∧
        evaluateProgram interpret inputs weights program.instructions = some values ∧
        ∀ entry ∈ program.graphOutputs, ∃ v, readRegister inputs weights values entry.2 = some v ∧
          env entry.1 = some v := by
  have hnames : (definedNames reversedChain).Nodup := by decide
  have hfusion : NoFusion unusedFloats reversedChain := fun weights h => rfl
  have horder : topologicalOrder reversedChain = .ok [2, 1, 0] := by decide +kernel
  have hprogram : compileGraph unusedFloats reversedChain = .ok ⟨[⟨.eltwise .add, [.graphInput "a", .graphInput "a"], "s"⟩,
      ⟨.eltwise .relu, [.virtual 0], "y"⟩], [], ["a"], [("y", .virtual 1)]⟩ := by decide +kernel
  refine ⟨hnames, hfusion, _, hprogram, fun V interpret inputs weights => ?_⟩
  obtain ⟨-, -, -, hmeaning⟩ := (compileGraph_preserves_meaning hnames hfusion).2 _ hprogram
  exact hmeaning V interpret inputs weights [2, 1, 0] ((topologicalOrder_spec hnames).2 _ horder)

/-- A concatenation with its own output as a further part. -/
def selfConcat : GraphProto where
  node := [⟨"concat", "Concat", ["a", "x"], ["x"], []⟩]
  initializer := []
  input := [⟨"a", none⟩]
  output := [⟨"x", none⟩]
  valueInfo := []

/-- A node with an edge to itself can be compiled: the order leaves out such edges, and only the first input of a
metadata node is resolved. -/
theorem compileGraph_selfConcat : (definedNames selfConcat).Nodup ∧ NoFusion unusedFloats selfConcat ∧
    ¬((∃ program, compileGraph unusedFloats selfConcat = .ok program) ↔
      (∃ weights, WellFormed unusedFloats selfConcat weights) ∧ ∀ i, ¬Relation.TransGen (Reads selfConcat) i i) := by
  refine ⟨by decide, fun weights h => rfl, fun hiff => ?_⟩
  have hprogram : compileGraph unusedFloats selfConcat = .ok ⟨[], [], ["a"], [("x", .graphInput "a")]⟩ := by
    decide +kernel
  have hedge : Reads selfConcat 0 0 := ⟨_, _, rfl, rfl, "x", by decide, by decide⟩
  exact (hiff.mp ⟨_, hprogram⟩).2 0 (.single hedge)

end Main

end Zkie.GraphCompiler
