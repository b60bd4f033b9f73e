import Zkie.Checked

namespace Zkie.StraightLine

open Checked

/-- An instruction with the registers that it reads. -/
structure Line (ι ρ : Type) where
  op : ι
  reads : List ρ
  deriving DecidableEq, Repr

variable {ι ρ σ V : Type}

section Run

variable (interpret : ι → List V → Option V) (read : List V → ρ → Option V)

/-- What a line computes once the results `done` are there. -/
def evalLine (done : List V) (line : Line ι ρ) : Option V := (line.reads.mapM (read done)).bind (interpret line.op)

/-- The results of the lines, one behind the other, behind those that are there before. -/
def run (done : List V) (lines : List (Line ι ρ)) : Option (List V) :=
  lines.foldlM (fun done line => (evalLine interpret read done line).map fun v => done ++ [v]) done

end Run

variable {interpret : ι → List V → Option V} {read : List V → ρ → Option V} {read' : List V → σ → Option V}
  {done done' : List V} {line : Line ι ρ} {lines rest : List (Line ι ρ)}

@[simp]
theorem run_nil : run interpret read done [] = some done := rfl

theorem run_cons : run interpret read done (line :: lines) =
    (evalLine interpret read done line).bind fun v => run interpret read (done ++ [v]) lines := by
  rw [run, List.foldlM_cons, Option.bind_eq_bind, Option.bind_map]
  rfl

theorem run_append : run interpret read done (lines ++ rest) =
    (run interpret read done lines).bind fun done => run interpret read done rest :=
  List.foldlM_append

theorem run_length (h : run interpret read done lines = some done') : done'.length = done.length + lines.length := by
  induction lines generalizing done with
  | nil =>
      cases h
      rfl
  | cons line lines ih =>
      rw [run_cons, Option.bind_eq_some_iff] at h
      obtain ⟨v, -, hrest⟩ := h
      rw [ih hrest, List.length_append, List.length_singleton, List.length_cons]
      omega

theorem run_extends (h : run interpret read done lines = some done') : done <+: done' := by
  induction lines generalizing done with
  | nil =>
      cases h
      exact List.prefix_rfl
  | cons line lines ih =>
      rw [run_cons, Option.bind_eq_some_iff] at h
      obtain ⟨v, -, hrest⟩ := h
      exact (List.prefix_append _ _).trans (ih hrest)

/-- The results that a run has after some of its lines. -/
theorem run_take (h : run interpret read done lines = some done') (k : ℕ) :
    run interpret read done (lines.take k) = some (done'.take (done.length + (lines.take k).length)) := by
  have hsplit : run interpret read done (lines.take k ++ lines.drop k) =
      (run interpret read done (lines.take k)).bind fun first => run interpret read first (lines.drop k) := run_append
  rw [List.take_append_drop, h] at hsplit
  obtain ⟨first, hfirst, hrest⟩ := Option.bind_eq_some_iff.mp hsplit.symm
  rw [hfirst, ← run_length hfirst, ← List.prefix_iff_eq_take.mp (run_extends hrest)]

/-- Every register that is read holds something before the line that reads it. -/
theorem run_reads (h : run interpret read done lines = some done') (hline : line ∈ lines) {r : ρ} (hr : r ∈ line.reads) :
    ∃ before v, before <+: done' ∧ read before r = some v := by
  induction lines generalizing done with
  | nil => cases hline
  | cons first lines ih =>
      rw [run_cons, Option.bind_eq_some_iff] at h
      obtain ⟨v, hfirst, hrest⟩ := h
      rcases List.mem_cons.mp hline with rfl | hline
      · obtain ⟨args, hargs, -⟩ := Option.bind_eq_some_iff.mp hfirst
        obtain ⟨a, -, ha⟩ := mapM_both hargs hargs hr |>.imp fun a ha => And.intro ha.1 ha.2
        exact ⟨done, a, (List.prefix_append _ _).trans (run_extends hrest), ha⟩
      · exact ih hrest hline

/-- Values that every line computes from those before it are the results of the lines. -/
theorem run_values {values : List V} (hlength : values.length = lines.length)
    (h : ∀ i line, lines[i]? = some line → evalLine interpret read (done ++ values.take i) line = values[i]?) :
    run interpret read done lines = some (done ++ values) := by
  induction lines generalizing done values with
  | nil =>
      obtain rfl := List.eq_nil_of_length_eq_zero hlength
      rw [run_nil, List.append_nil]
  | cons line lines ih =>
      cases values with
      | nil => cases hlength
      | cons v values =>
          have hfirst := h 0 line rfl
          rw [List.take_zero, List.append_nil, List.getElem?_cons_zero] at hfirst
          rw [run_cons, hfirst, Option.bind_some, ih (Nat.succ.inj hlength), List.append_assoc, List.singleton_append]
          intro i line hline
          have hnext := h (i + 1) line hline
          rwa [List.take_succ_cons, ← List.singleton_append, ← List.append_assoc, List.getElem?_cons_succ] at hnext

section Renaming

/-- The same instruction, which finds on its own registers what the other one finds on its own behind `base`. -/
structure Renames (read : List V → ρ → Option V) (read' : List V → σ → Option V) (base : List V) (line : Line ι ρ)
    (line' : Line ι σ) : Prop where
  op : line.op = line'.op
  reads : List.Forall₂ (fun r r' => ∀ done, read (base ++ done) r = read' done r') line.reads line'.reads

theorem mapM_congr₂ {α β γ : Type} {f : α → Option γ} {g : β → Option γ} {xs : List α} {ys : List β}
    (h : List.Forall₂ (fun x y => f x = g y) xs ys) : xs.mapM f = ys.mapM g := by
  induction h with
  | nil => rfl
  | cons hxy _ ih => rw [List.mapM_cons, List.mapM_cons, hxy, ih]

theorem Renames.evalLine {base : List V} {line' : Line ι σ} (h : Renames read read' base line line') (done : List V) :
    evalLine interpret read (base ++ done) line = StraightLine.evalLine interpret read' done line' := by
  rw [StraightLine.evalLine, StraightLine.evalLine, h.op, mapM_congr₂ (h.reads.imp fun _ _ hread => hread done)]

/-- Renamed lines have the same results, behind those that the others begin with. -/
theorem run_renamed {base : List V} {lines' : List (Line ι σ)} (h : List.Forall₂ (Renames read read' base) lines lines')
    (done : List V) : run interpret read (base ++ done) lines = (run interpret read' done lines').map (base ++ ·) := by
  induction h generalizing done with
  | nil => rfl
  | cons hline _ ih =>
      rw [run_cons, run_cons, hline.evalLine, Option.map_bind]
      apply Option.bind_congr
      intro v _
      rw [List.append_assoc, ih]
      rfl

end Renaming

end Zkie.StraightLine
