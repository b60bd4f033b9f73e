import Zkie.BoundProgram

namespace Zkie.CircuitBinding

open BuildDag (ReadsOutput)
open Checked
open FixedPoint (I18)
open GraphCompiler (CompiledInstruction CompiledProgram Register)
open Interning
open Isa (AssemblerInstruction AssemblerProgram Instruction RegisterRef)
open Onnx (orElse orElse_eq_ok)
open RangeChain (Range)
open ShardBinding
open Std (ExtTreeMap)
open StraightLine (Renames)
open WitnessExecution (HostFloats Values)

section Model

inductive CircuitBindingError where
  | missingGraphInput (name : String)
  | weight (error : WeightError)
  deriving DecidableEq, Repr

variable (floats : HostFloats) (program : CompiledProgram)

/-- The places of the graph inputs. A name that comes twice has the later one. -/
def inputIndex (names : List String) : ExtTreeMap String ℕ := names.zipIdx.foldl (fun index entry => index.insert entry.1 entry.2) ∅

def makeWeight (name : String) : Except CircuitBindingError (List I18) := (weightAsI18 floats program name).mapError .weight

def resolveRegister (index : ExtTreeMap String ℕ) (weights : Table String (List I18)) (register : Register) :
    Except CircuitBindingError (Table String (List I18) × RegisterRef) :=
  match register with
  | .graphInput name => do
      let i ← orElse (.missingGraphInput name) index[name]?
      return (weights, .input (UInt64.ofNat i))
  | .weight name => do
      let (weights, i) ← intern (makeWeight floats program) weights name
      return (weights, .weight (UInt64.ofNat i))
  | .virtual i => .ok (weights, .virtual (UInt64.ofNat i))

def resolveInstruction (index : ExtTreeMap String ℕ) (weights : Table String (List I18)) (compiled : CompiledInstruction) :
    Except CircuitBindingError (Table String (List I18) × AssemblerInstruction) := do
  let (weights, inputs) ← thread (resolveRegister floats program index) weights compiled.inputs
  return (weights, ⟨compiled.instruction, inputs⟩)

/-- The whole program as one assembler program. -/
def toAssemblerProgram (graphInputValues : Values String) : Except CircuitBindingError AssemblerProgram := do
  let inputValues ← program.graphInputs.mapM fun name => orElse (.missingGraphInput name) graphInputValues[name]?
  let (weights, instructions) ← thread (resolveInstruction floats program (inputIndex program.graphInputs)) [] program.instructions
  return ⟨instructions, inputValues, weights.map Prod.snd⟩

end Model

section Evaluation

variable {floats : HostFloats} {program : CompiledProgram} {graphInputs : Values String} {weights weights' : Table String (List I18)}
  {reads : List Register} {register : Register} {ref : RegisterRef} {whole : AssemblerProgram}

theorem inputIndex_get {names : List String} {name : String} {i : ℕ} (h : (inputIndex names)[name]? = some i) :
    names[i]? = some name := by
  have hfold : ∀ (entries : List (String × ℕ)) (index : ExtTreeMap String ℕ),
      (∀ (n : String) j, index[n]? = some j → names[j]? = some n) → (∀ entry ∈ entries, names[entry.2]? = some entry.1) →
        ∀ (n : String) j, (entries.foldl (fun index entry => index.insert entry.1 entry.2) index)[n]? = some j →
          names[j]? = some n := by
    intro entries
    induction entries with
    | nil => exact fun _ hindex _ => hindex
    | cons entry entries ih =>
        intro index hindex hentries
        rw [List.foldl_cons]
        apply ih
        · intro n j hj
          rw [ExtTreeMap.getElem?_insert] at hj
          split at hj
          · next heq =>
            cases hj
            rw [hentries entry (.head _), compare_eq_iff_eq.mp heq]
          · exact hindex n j hj
        · exact fun e he => hentries e (.tail _ he)
  exact hfold names.zipIdx ∅ (fun n j hj => by simp at hj) (fun entry hentry => List.mem_zipIdx_iff_getElem?.mp hentry) name i h

/-- The whole program as a range. -/
def all (program : CompiledProgram) : Range := ⟨0, program.instructions.length⟩

theorem resolveRegister_ok (hstocked : Stocked (makeWeight floats program) reads weights) (hread : register ∈ reads)
    (hlt : ∀ p, register = .virtual p → p < program.instructions.length)
    (h : resolveRegister floats program (inputIndex program.graphInputs) weights register = .ok (weights', ref)) :
    Stocked (makeWeight floats program) reads weights' ∧ weights <+: weights' ∧
      Resolves (all program) (program.graphInputs.map .graphInput) program.instructions.length weights' register ref := by
  cases register with
  | graphInput name =>
      obtain ⟨i, hi, h⟩ := bind_eq_ok.mp h
      cases h
      refine ⟨hstocked, List.prefix_rfl, .external trivial ?_⟩
      rw [List.getElem?_map, inputIndex_get (orElse_eq_ok.mp hi)]
      rfl
  | weight name =>
      obtain ⟨⟨table, i⟩, hintern, h⟩ := bind_eq_ok.mp h
      cases h
      obtain ⟨hstocked, hgrown, values, hi⟩ := hstocked.intern hread hintern
      exact ⟨hstocked, hgrown, .weight hi⟩
  | virtual source =>
      cases h
      exact ⟨hstocked, List.prefix_rfl, .virtual (Nat.zero_le _) (hlt source rfl)⟩

theorem resolveInstruction_ok {compiled : CompiledInstruction} {instr : AssemblerInstruction}
    (hstocked : Stocked (makeWeight floats program) reads weights) (hreads : ∀ r ∈ compiled.inputs, r ∈ reads)
    (hlt : ∀ p, .virtual p ∈ compiled.inputs → p < program.instructions.length)
    (h : resolveInstruction floats program (inputIndex program.graphInputs) weights compiled = .ok (weights', instr)) :
    Stocked (makeWeight floats program) reads weights' ∧ weights <+: weights' ∧
      Lowers (all program) (program.graphInputs.map .graphInput) weights' (compiled, program.instructions.length) instr := by
  obtain ⟨⟨table, refs⟩, hthread, h⟩ := bind_eq_ok.mp h
  cases h
  obtain ⟨hstocked, hgrown, hrefs⟩ := thread_ok (L := (· <+: ·))
    (R := Resolves (all program) (program.graphInputs.map .graphInput) program.instructions.length)
    (fun _ => List.prefix_rfl) (fun _ _ _ => List.IsPrefix.trans) (fun _ _ _ _ hle hres => hres.mono hle)
    (fun _ r _ _ hr hinv hstep => resolveRegister_ok hinv (hreads r hr) (fun p hp => hlt p (hp ▸ hr)) hstep) hstocked hthread
  exact ⟨hstocked, hgrown, rfl, hrefs⟩

/-- The assembler program has the values of the compiled one. -/
theorem toAssemblerProgram_evaluates (hmachine : Machine program) (hbackward : ∀ i p, ReadsOutput program i p → p < i)
    (h : toAssemblerProgram floats program graphInputs = .ok whole)
    (interpret : Instruction → List (List I18) → Option (List I18)) : evaluateAssembler interpret whole =
      StraightLine.run interpret (readGlobal floats program graphInputs) [] (program.instructions.map globalLine) := by
  obtain ⟨inputValues, hinputs, h⟩ := bind_eq_ok.mp h
  obtain ⟨⟨weights, instructions⟩, hthread, h⟩ := bind_eq_ok.mp h
  cases h
  have hlt : ∀ compiled ∈ program.instructions, ∀ p, .virtual p ∈ compiled.inputs → p < program.instructions.length := by
    intro compiled hcompiled p hp
    obtain ⟨i, hi, hget⟩ := List.getElem_of_mem hcompiled
    exact (hbackward i p ⟨compiled, List.getElem?_eq_some_iff.mpr ⟨hi, hget⟩, hp⟩).trans hi
  obtain ⟨hstocked, -, hlowers⟩ := thread_ok
    (I := Stocked (makeWeight floats program) (program.instructions.flatMap (·.inputs))) (L := (· <+: ·))
    (R := fun weights compiled => Lowers (all program) (program.graphInputs.map .graphInput) weights
      (compiled, program.instructions.length))
    (fun _ => List.prefix_rfl) (fun _ _ _ => List.IsPrefix.trans)
    (fun _ _ _ _ hle hlow => ⟨hlow.1, hlow.2.imp fun _ _ hres => hres.mono hle⟩)
    (fun _ compiled _ _ hmem hinv hstep => resolveInstruction_ok hinv
      (fun r hr => List.mem_flatMap.mpr ⟨compiled, hmem, hr⟩) (hlt compiled hmem) hstep)
    ⟨Interned.empty, by simp⟩ hthread
  have hholds : Holds floats program graphInputs (program.graphInputs.map .graphInput) weights []
      ⟨instructions, inputValues, weights.map Prod.snd⟩ := by
    refine ⟨?_, rfl, fun entry hentry => FixedPoint.mapError_eq_ok.mp (hstocked.made entry hentry), ?_, ?_⟩
    · rw [List.forall₂_map_left_iff]
      exact (mapM_eq_ok.mp hinputs).imp fun _ _ => orElse_eq_ok.mp
    · rw [List.length_map]
      exact hmachine.graphInputs
    · exact hstocked.length_le.trans_lt hmachine.operands
  have hrenames : List.Forall₂ (Renames (readGlobal floats program graphInputs)
      (readLocal ⟨instructions, inputValues, weights.map Prod.snd⟩) []) (program.instructions.map globalLine)
      (instructions.map localLine) := by
    rw [List.forall₂_map_left_iff, List.forall₂_map_right_iff]
    exact hlowers.imp fun _ _ hlow => hlow.renames hholds rfl hmachine.instructions
  have hrun := @StraightLine.run_renamed _ _ _ _ interpret _ _ _ _ _ hrenames []
  rw [List.nil_append] at hrun
  rw [hrun]
  exact Option.map_id'.symm

end Evaluation

end Zkie.CircuitBinding
