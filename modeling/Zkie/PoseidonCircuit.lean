import Zkie.BoundaryCommitment
import Zkie.Placement

namespace Zkie.Satisfaction.Triple

open Plonkish Synthesis

variable {F ε α : Type} {H G : Event F → Prop} {Q : α → Prop}

theorem emit {e : Event F} (h : G e) : Triple H G (Synth.emit e : Synth F ε Unit) fun _ => H e :=
  of_emits (fun _ => rfl) fun hall => ⟨by simpa using h, hall e (by simp)⟩

theorem assignAdvice {region offset : ℕ} {column : Column} {value : Option F} (h : G (.advice ⟨region, column, offset⟩ value)) :
    Triple H G (Synth.assignAdvice (ε := ε) region column offset value) fun c =>
      c = ⟨⟨region, column, offset⟩, value⟩ ∧ H (.advice c.cell c.value) :=
  (emit h).bind fun _ hadvice => pure ⟨rfl, hadvice⟩

theorem assignRegion {name : String} {body : ℕ → Synth F ε α} (hregion : ∀ r, G (.region name r))
    (h : ∀ r, Triple H G (body r) Q) : Triple H G (Synth.assignRegion name body) Q := fun n =>
  (((emit (hregion n)).bind fun _ _ => h n : Triple H G (do Synth.emit (.region name n); body n) Q)) (n + 1)

/-- A loop beside a fold of values. -/
theorem foldEach_values {β γ δ : Type} {f : β → α → Synth F ε β} {g : δ → γ → δ} {R : α → γ → Prop} {S : β → δ → Prop}
    {xs : List α} {ys : List γ} (hlist : List.Forall₂ R xs ys)
    (h : ∀ s t x y, S s t → R x y → Triple H G (f s x) fun s' => S s' (g t y)) {s : β} {t : δ} (hs : S s t) :
    Triple H G (Synth.foldEach f s xs) fun s' => S s' (ys.foldl g t) := by
  induction hlist generalizing s t with
  | nil => exact pure hs
  | cons hr _ ih => exact (h _ _ _ _ hs hr).bind fun _ hs' => ih hs'

end Zkie.Satisfaction.Triple

namespace Zkie.PoseidonBoundary

open ScalarField FixedPoint Plonkish Synthesis Satisfaction Placement

section Permutation

variable (params : PoseidonParameters)

/-- A column before the matrix is applied. Full rounds raise all columns, partial ones the first. -/
def sboxed (round : ℕ) (state : ℕ → Fr) (column : ℕ) : Fr :=
  let v := state column + params.ark (round * 3 + column)
  if PoseidonBoundaryConfig.isFull params round ∨ column = 0 then v ^ 5 else v

def permuteRound (state : ℕ → Fr) (round : ℕ) : ℕ → Fr := fun row =>
  ∑ column ∈ Finset.range 3, sboxed params round state column * params.mds row column

def pairState (left right : Fr) : ℕ → Fr := fun column => [0, left, right].getD column 0

/-- The first column after all rounds, begun with a zero and the two inputs. -/
def permutePair (left right : Fr) : Fr :=
  (List.range (params.fullRounds + params.partialRounds)).foldl (permuteRound params) (pairState left right) 0

/-- The hashing library compresses two field elements by the permutation with these parameters. -/
def Compresses (compress : Fr → Fr → Fr) : Prop := ∀ left right, compress left right = permutePair params left right

theorem permuteRound_apply (state : ℕ → Fr) (round row : ℕ) : permuteRound params state round row =
    sboxed params round state 0 * params.mds row 0 + sboxed params round state 1 * params.mds row 1 +
      sboxed params round state 2 * params.mds row 2 := by
  rw [permuteRound, Finset.sum_range_succ, Finset.sum_range_succ, Finset.sum_range_one]

end Permutation

namespace PoseidonBoundaryConfig

variable {ε : Type} {config : PoseidonBoundaryConfig} {params : PoseidonParameters} {cs : ConstraintSystem Fr}
  {T : List ℕ → List Fr → Prop} {A : Assignment Fr}

structure Installed (config : PoseidonBoundaryConfig) (params : PoseidonParameters) (cs : ConstraintSystem Fr) : Prop where
  fullGate : ⟨"poseidon boundary full round", config.fullRound, roundGate params config.state config.roundConstants fullSbox⟩ ∈
    cs.gates
  partialGate : ⟨"poseidon boundary partial round", config.partialRound,
    roundGate params config.state config.roundConstants partialSbox⟩ ∈ cs.gates

theorem configure_installed {cs' : ConstraintSystem Fr} (h : configure params cs = .ok (config, cs')) :
    config.Installed params cs' := by
  cases h
  constructor
  · exact List.mem_append_left _ (List.mem_append_right _ (List.mem_singleton.mpr rfl))
  · exact List.mem_append_right _ (List.mem_singleton.mpr rfl)

theorem eval_pow5 (row : Column → ℤ → Fr) (e : Expression Fr) : (pow5 e).eval row = e.eval row ^ 5 := by
  simp only [pow5, Expression.eval_mul]
  ring

/-- A gate says how the next row comes from the current one. -/
theorem eval_roundGate {state roundConstants : ℕ → Column} {row : Column → ℤ → Fr} {e₀ e₁ e₂ : Expression Fr}
    {sbox : List (Expression Fr) → List (Expression Fr)}
    (hsbox : sbox ((List.range 3).map fun i => .query (state i) 0 + .query (roundConstants i) 0) = [e₀, e₁, e₂])
    (h : ∀ e ∈ roundGate params state roundConstants sbox, e.eval row = 0) (i : ℕ) (hi : i < 3) :
    row (state i) 1 = e₀.eval row * params.mds i 0 + e₁.eval row * params.mds i 1 + e₂.eval row * params.mds i 2 := by
  have hmem : (.query (state i) 1 - ([e₀, e₁, e₂].zipIdx.foldl (fun sum p => sum + p.1 * .constant (params.mds i p.2))
      (.constant 0)) : Expression Fr) ∈ roundGate params state roundConstants sbox := by
    rw [roundGate, hsbox]
    exact List.mem_map.mpr ⟨i, List.mem_range.mpr hi, rfl⟩
  have hzero := h _ hmem
  simp only [Expression.eval_sub, Expression.eval_query, List.zipIdx_cons, List.zipIdx_nil, List.foldl_cons, List.foldl_nil,
    Expression.eval_add, Expression.eval_mul, Expression.eval_constant, zero_add] at hzero
  exact sub_eq_zero.mp hzero

/-- What the gate of a round says about two rows of the state. -/
theorem round_holds (h : config.Installed params cs) {region round : ℕ} {state : ℕ → Fr}
    (hgate : Holds cs T A (.enable (if isFull params round then config.fullRound else config.partialRound) region round))
    (hark : ∀ column < 3, A.cell ⟨region, config.roundConstants column, round⟩ = params.ark (round * 3 + column))
    (hstate : ∀ column < 3, A.cell ⟨region, config.state column, round⟩ = state column) :
    ∀ row < 3, A.cell ⟨region, config.state row, (round + 1 : ℕ)⟩ = permuteRound params state round row := by
  intro row hrow
  have hcurrent : ∀ column < 3, (.query (config.state column) 0 + .query (config.roundConstants column) 0 :
      Expression Fr).eval (A.row region round) = state column + params.ark (round * 3 + column) := by
    intro column hcolumn
    simp only [Expression.eval_add, Expression.eval_query, Assignment.row, add_zero]
    rw [hstate column hcolumn, hark column hcolumn]
  have hnext : A.row region round (config.state row) 1 = A.cell ⟨region, config.state row, (round + 1 : ℕ)⟩ := by
    rw [Assignment.row, Nat.cast_add, Nat.cast_one]
  rw [← hnext, permuteRound_apply]
  unfold sboxed
  by_cases hfull : isFull params round
  · rw [if_pos hfull] at hgate
    have hgates := hgate.1 _ h.fullGate rfl
    rw [eval_roundGate rfl hgates row hrow]
    simp only [eval_pow5, hcurrent 0 (by decide), hcurrent 1 (by decide), hcurrent 2 (by decide), hfull, true_or, if_true]
  · rw [if_neg hfull] at hgate
    have hgates := hgate.1 _ h.partialGate rfl
    rw [eval_roundGate rfl hgates row hrow]
    simp [eval_pow5, hcurrent 0 (by decide), hcurrent 1 (by decide), hcurrent 2 (by decide), hfull]

end PoseidonBoundaryConfig

section Native

/-- The commitment to the field values of a tensor. -/
def commitFields (blake3 : Blake3) (compress : Fr → Fr → Fr) (d : BoundaryDescriptor) (values : List Fr) : Fr :=
  (d.canonicalFields blake3 ++ [(values.length : Fr)] ++ values).foldl compress (protocolDomain blake3)

theorem commitBoundaryNative_eq {blake3 : Blake3} {compress : Fr → Fr → Fr} {d : BoundaryDescriptor} {values : List I18} {c : Fr}
    (h : commitBoundaryNative blake3 compress d values = .ok c) :
    commitFields blake3 compress d (values.map i64ToFr) = c := by
  rw [commitFields, List.length_map]
  exact (commitBoundaryNative_ok h).2

end Native

section Reading

/-- What is known of an assignment: that it satisfies the layout, or that an honest prover has filled it. -/
inductive Reading where
  | satisfying
  | honest

def Reading.Meets (cs : ConstraintSystem Fr) (T : List ℕ → List Fr → Prop) (A : Assignment Fr) : Reading → Event Fr → Prop
  | satisfying => Holds cs T A
  | honest => Witnessed A

/-- The cell holds `v`, and an honest prover knows that. -/
structure Reading.Reads (reading : Reading) (A : Assignment Fr) (c : AssignedCell Fr) (v : Fr) : Prop where
  holds : A.cell c.cell = v
  known : reading = .honest → c.value = some v

/-- The action exposes no instance row. -/
def Silent (e : Event Fr) : Prop := exposed e = none

end Reading

namespace PoseidonBoundaryConfig

variable {ε : Type} {config : PoseidonBoundaryConfig} {params : PoseidonParameters} {cs : ConstraintSystem Fr}
  {T : List ℕ → List Fr → Prop} {A : Assignment Fr} {reading : Reading}

/-- The cells of one row of the state, which reads `state`. -/
structure StateRow (reading : Reading) (A : Assignment Fr) (config : PoseidonBoundaryConfig) (region offset : ℕ)
    (cells : List (AssignedCell Fr)) (state : ℕ → Fr) : Prop where
  placed : cells.map AssignedCell.cell = (List.range 3).map fun column => ⟨region, config.state column, offset⟩
  holds : ∀ column < 3, A.cell ⟨region, config.state column, offset⟩ = state column
  known : reading = .honest → cells.map AssignedCell.value = (List.range 3).map fun column => some (state column)

/-- What a round witnesses for the next row. -/
theorem nextValue_eq {state : ℕ → Fr} {cells : List (AssignedCell Fr)} (round row : ℕ)
    (h : cells.map AssignedCell.value = (List.range 3).map fun column => some (state column)) :
    nextValue params round cells row = some (permuteRound params state round row) := by
  obtain ⟨c₀, c₁, c₂, rfl⟩ : ∃ c₀ c₁ c₂, cells = [c₀, c₁, c₂] :=
    List.length_eq_three.mp (by simpa using congrArg List.length h)
  obtain ⟨h₀, h₁, h₂⟩ : c₀.value = some (state 0) ∧ c₁.value = some (state 1) ∧ c₂.value = some (state 2) := by
    simpa [List.range, List.range.loop] using h
  rw [permuteRound_apply]
  unfold nextValue sboxed
  by_cases hfull : isFull params round
  · simp only [hfull, List.zipIdx_cons, List.zipIdx_nil, List.map_cons, List.map_nil, h₀, h₁, h₂, Option.map_some, valuePow5,
      if_true, List.foldlM_cons, List.foldlM_nil, Option.bind_eq_bind, Option.bind_some, Option.pure_def, true_or,
      Option.some_inj]
    ring
  · simp only [hfull, List.zipIdx_cons, List.zipIdx_nil, List.map_cons, List.map_nil, h₀, h₁, h₂, Option.map_some, valuePow5,
      if_true, if_false, List.foldlM_cons, List.foldlM_nil, Option.bind_eq_bind, Option.bind_some, Option.pure_def, false_or,
      Option.some_inj, zero_add, Nat.reduceAdd, one_ne_zero, OfNat.ofNat_ne_zero]
    ring

theorem meets_fixed {cell : Cell} {v : Fr} (h : reading.Meets cs T A (.fixed cell v)) : A.cell cell = v := by
  cases reading <;> exact h

theorem assignRound_reads (h : config.Installed params cs) {region round : ℕ} {cells : List (AssignedCell Fr)} {state : ℕ → Fr}
    (hrow : StateRow reading A config region round cells state) :
    Triple (reading.Meets cs T A) Silent (config.assignRound (ε := ε) params region cells round) fun next =>
      StateRow reading A config region (round + 1) next (permuteRound params state round) := by
  refine (Triple.emit (by rfl)).bind fun _ hgate => ?_
  refine (Triple.forEach fun column _ => Triple.emit (by rfl)).bind fun _ hfixed => ?_
  have hark : ∀ column < 3, A.cell ⟨region, config.roundConstants column, round⟩ = params.ark (round * 3 + column) := by
    intro column hcolumn
    obtain ⟨_, -, hmeets⟩ := forall₂_exists_of_mem hfixed (List.mem_range.mpr hcolumn)
    exact meets_fixed hmeets
  refine (Triple.forEach fun row _ => Triple.assignAdvice (by rfl)).mono fun next hnext => ?_
  have hcells : next = (List.range 3).map fun row =>
      ⟨⟨region, config.state row, (round + 1 : ℕ)⟩, nextValue params round cells row⟩ := by
    rw [← List.forall₂_eq_eq_eq, List.forall₂_map_right_iff]
    exact (hnext.imp fun _ _ hc => hc.1).flip
  constructor
  · simp [hcells]
  · cases reading with
    | satisfying => exact round_holds h hgate hark hrow.holds
    | honest =>
        intro row hlt
        obtain ⟨_, -, rfl, hadvice⟩ := forall₂_exists_of_mem hnext (List.mem_range.mpr hlt)
        rw [nextValue_eq round row (hrow.known rfl)] at hadvice
        exact hadvice
  · intro hhonest
    rw [hcells, List.map_map]
    apply List.map_congr_left
    intro row _
    exact nextValue_eq round row (hrow.known hhonest)

theorem rounds_read (h : config.Installed params cs) {region : ℕ} {cells : List (AssignedCell Fr)} {state : ℕ → Fr}
    (hrow : StateRow reading A config region 0 cells state) (rounds : ℕ) :
    Triple (reading.Meets cs T A) Silent
      (Synth.foldEach (config.assignRound (ε := ε) params region) cells (List.range rounds)) fun last =>
      StateRow reading A config region rounds last ((List.range rounds).foldl (permuteRound params) state) := by
  have hfold : Triple (reading.Meets cs T A) Silent
      (Synth.foldEach (config.assignRound (ε := ε) params region) cells (List.range rounds)) fun last =>
      StateRow reading A config region (List.range rounds).length last
        ((List.range rounds).foldl (permuteRound params) state) := by
    refine Triple.foldEach (I := fun done last => StateRow reading A config region done.length last
      (done.foldl (permuteRound params) state)) ?_ hrow
    intro done round rest hsplit last hlast
    obtain rfl : round = done.length := by
      have hget := congrArg (·[done.length]?) hsplit
      have hlt : done.length < rounds := by
        have hlength := congrArg List.length hsplit
        simp only [List.length_range, List.length_append, List.length_cons] at hlength
        omega
      simpa [List.getElem?_range, hlt, eq_comm] using hget
    apply (assignRound_reads h hlast).mono
    intro next hnext
    rw [List.length_append, List.foldl_append]
    exact hnext
  simpa only [List.length_range] using hfold

/-- Two cells are compressed by the permutation. -/
theorem hashPair_reads (h : config.Installed params cs) {left right : AssignedCell Fr} {a b : Fr}
    (hleft : reading.Reads A left a) (hright : reading.Reads A right b) :
    Triple (reading.Meets cs T A) Silent (config.hashPair (ε := ε) params left right) fun c =>
      reading.Reads A c (permutePair params a b) := by
  apply Triple.assignRegion (fun _ => rfl)
  intro region
  refine (Triple.assignAdvice (by rfl)).bind fun _ ⟨h, hzero⟩ => ?_
  subst h
  refine (Triple.emit (by rfl)).bind fun _ hconstant => ?_
  refine (Triple.assignAdvice (by rfl)).bind fun _ ⟨h, hleftCopy⟩ => ?_
  subst h
  refine (Triple.emit (by rfl)).bind fun _ hleftLink => ?_
  refine (Triple.assignAdvice (by rfl)).bind fun _ ⟨h, hrightCopy⟩ => ?_
  subst h
  refine (Triple.emit (by rfl)).bind fun _ hrightLink => ?_
  have hrow : StateRow reading A config region 0 [⟨⟨region, config.state 0, (0 : ℕ)⟩, some 0⟩,
      ⟨⟨region, config.state 1, (0 : ℕ)⟩, left.value⟩, ⟨⟨region, config.state 2, (0 : ℕ)⟩, right.value⟩] (pairState a b) := by
    refine ⟨rfl, fun column hcolumn => ?_, fun hhonest => ?_⟩
    · have hthree : column = 0 ∨ column = 1 ∨ column = 2 := by omega
      cases reading with
      | satisfying =>
          obtain rfl | rfl | rfl := hthree
          · exact hconstant.2.2
          · exact hleftLink.2.2.symm.trans hleft.holds
          · exact hrightLink.2.2.symm.trans hright.holds
      | honest =>
          simp only [hleft.known rfl] at hleftCopy
          simp only [hright.known rfl] at hrightCopy
          obtain rfl | rfl | rfl := hthree
          · exact hzero
          · exact hleftCopy
          · exact hrightCopy
    · simp [hleft.known hhonest, hright.known hhonest, List.range, List.range.loop, pairState]
  refine (rounds_read h hrow _).bind fun last hlast => Triple.pure ?_
  obtain ⟨c₀, rest, rfl⟩ : ∃ c₀ rest, last = c₀ :: rest := by
    cases last with
    | nil => exact absurd hlast.placed (by simp)
    | cons c₀ rest => exact ⟨c₀, rest, rfl⟩
  constructor
  · rw [List.headD_cons, (List.cons.inj hlast.placed).1]
    exact hlast.holds 0 (by decide)
  · intro hhonest
    exact (List.cons.inj (hlast.known hhonest)).1

/-- A constant that the layout fixes. -/
theorem assignConstant_reads (v : Fr) : Triple (reading.Meets cs T A) Silent (config.assignConstant (ε := ε) v) fun c =>
    reading.Reads A c v := by
  apply Triple.assignRegion (fun _ => rfl)
  intro region
  refine (Triple.assignAdvice (by rfl)).bind fun _ ⟨h, hadvice⟩ => ?_
  subst h
  refine (Triple.emit (by rfl)).bind fun _ hconstant => Triple.pure ⟨?_, fun _ => rfl⟩
  cases reading with
  | satisfying => exact hconstant.2.2
  | honest => exact hadvice

/-- A value of the statement's prefix: whatever the prover likes, or what an honest one was given. -/
theorem assignPublicValue_reads (v : Fr) : Triple (reading.Meets cs T A) Silent (config.assignPublicValue (ε := ε) v) fun c =>
    ∃ w, reading.Reads A c w ∧ (reading = .honest → w = v) := by
  apply Triple.assignRegion (fun _ => rfl)
  intro region
  refine (Triple.assignAdvice (by rfl)).mono fun c ⟨h, hadvice⟩ => ?_
  subst h
  cases reading with
  | satisfying => exact ⟨_, ⟨rfl, fun h => by cases h⟩, fun h => by cases h⟩
  | honest => exact ⟨v, ⟨hadvice, fun _ => rfl⟩, fun _ => rfl⟩

/-- The cell of a weight is bound to the weight. -/
theorem constrainEqualToConstant_reads {cell : AssignedCell Fr} {v : Fr} (h : reading = .honest → reading.Reads A cell v) :
    Triple (reading.Meets cs T A) Silent (config.constrainEqualToConstant (ε := ε) cell v) fun _ => reading.Reads A cell v := by
  refine (assignConstant_reads v).bind fun constant hconstant => ?_
  refine Triple.of_lays (linkCells_lays _ _) fun r hes => ⟨?_, ?_⟩
  · simp [Silent, exposed]
  · cases reading with
    | satisfying =>
        have hcopy := hes (.copy cell.cell constant.cell) (by simp)
        exact ⟨hcopy.2.2.trans hconstant.holds, fun hhonest => by cases hhonest⟩
    | honest => exact h rfl

/-- The commitment to cells with some values. -/
theorem commitAssigned_reads (h : config.Installed params cs) {compress : Fr → Fr → Fr} (hcompress : Compresses params compress)
    (blake3 : Blake3) (e : ε) (d : BoundaryDescriptor) {cells : List (AssignedCell Fr)} {values : List Fr}
    (hcells : List.Forall₂ (reading.Reads A) cells values) :
    Triple (reading.Meets cs T A) Silent (config.commitAssigned params blake3 e d cells) fun c =>
      reading.Reads A c (commitFields blake3 compress d values) := by
  obtain rfl : compress = permutePair params := funext fun l => funext fun r => hcompress l r
  unfold commitFields
  rw [List.foldl_append, List.foldl_append, ← hcells.length_eq]
  apply Triple.ensure.bind
  intro _ _
  apply (assignConstant_reads _).bind
  intro domain hdomain
  have hmeta := Triple.foldEach_values (H := reading.Meets cs T A) (G := Silent) (f := fun state field => do
      let field ← config.assignConstant (ε := ε) field
      config.hashPair params state field) (g := permutePair params) (R := (· = ·)) (S := reading.Reads A)
    (List.forall₂_same.mpr fun field (_ : field ∈ d.canonicalFields blake3) => rfl) ?_ hdomain
  · apply hmeta.bind
    intro described hdescribed
    apply (assignConstant_reads _).bind
    intro count hcount
    apply (hashPair_reads h hdescribed hcount).bind
    intro counted hcounted
    exact Triple.foldEach_values hcells (fun _ _ _ _ hstate hvalue => hashPair_reads h hstate hvalue) hcounted
  · rintro state a field _ hstate rfl
    exact (assignConstant_reads field).bind fun _ hfield => hashPair_reads h hstate hfield

end PoseidonBoundaryConfig

end Zkie.PoseidonBoundary
