import Mathlib.Data.List.Basic

/-!
# One task at a time

Tasks that are started one after the other, each with its stage, where the one that runs is kept in
a cell: `cell ??= start().finally(() => cell = undefined)`.  A task is over when the cell has been
emptied behind it.
-/

namespace SingleFlight

variable {σ β : Type*} {past : σ → Prop} {before stages : List σ} {stage : σ} {cell : Option Nat}

/-- The last task runs, all before it are over, and the cell holds it. -/
structure Busy (past : σ → Prop) (before : List σ) (stage : σ) (stages : List σ)
    (cell : Option Nat) : Prop where
  stages : stages = before ++ [stage]
  earlier : ∀ d ∈ before, past d
  runs : ¬ past stage
  cell : cell = some before.length

/-- No task runs, and the cell is empty. -/
structure Idle (past : σ → Prop) (stages : List σ) (cell : Option Nat) : Prop where
  past : ∀ d ∈ stages, past d
  cell : cell = none

def Shape (past : σ → Prop) (stages : List σ) (cell : Option Nat) : Prop :=
  Idle past stages cell ∨ ∃ before stage, Busy past before stage stages cell

/-- What only tasks that run hold. -/
theorem flatMap_eq_nil {f : σ → List β} (hf : ∀ d, past d → f d = []) (h : ∀ d ∈ stages, past d) :
    stages.flatMap f = [] :=
  List.flatMap_eq_nil_iff.mpr fun d hd => hf d (h d hd)

theorem Idle.flatMap {f : σ → List β} (h : Idle past stages cell) (hf : ∀ d, past d → f d = []) :
    stages.flatMap f = [] :=
  flatMap_eq_nil hf h.past

namespace Busy

theorem flatMap {f : σ → List β} (h : Busy past before stage stages cell)
    (hf : ∀ d, past d → f d = []) : stages.flatMap f = f stage := by
  rw [h.stages, List.flatMap_append, flatMap_eq_nil hf h.earlier]
  simp

/-- The task that runs goes to another stage. -/
theorem set (h : Busy past before stage stages cell) (next : σ) :
    stages.set before.length next = before ++ [next] := by
  rw [h.stages, List.set_append_right _ _ (Nat.le_refl _), Nat.sub_self]
  rfl

theorem advance (h : Busy past before stage stages cell) {next : σ} (hruns : ¬ past next) :
    Busy past before next (stages.set before.length next) cell :=
  ⟨h.set next, h.earlier, hruns, h.cell⟩

/-- The task ends, and the cell is emptied. -/
theorem settle (h : Busy past before stage stages cell) (next : σ) (hover : past next) :
    Idle past (stages.set before.length next) none := by
  refine ⟨fun d hd => ?_, rfl⟩
  rw [h.set next] at hd
  cases List.mem_append.mp hd with
  | inl hold => exact h.earlier d hold
  | inr hnew => exact List.mem_singleton.mp hnew ▸ hover

end Busy

/-- A task is started where none runs. -/
theorem Idle.start (h : Idle past stages cell) (hruns : ¬ past stage) :
    Busy past stages stage (stages ++ [stage]) (some stages.length) :=
  ⟨rfl, h.past, hruns, rfl⟩

namespace Shape

theorem idle_of_cell (h : Shape past stages cell) (hcell : cell = none) :
    Idle past stages cell := by
  cases h with
  | inl hidle => exact hidle
  | inr hbusy =>
    have ⟨_, _, hb⟩ := hbusy
    exact absurd (hcell.symm.trans hb.cell) (by simp)

/-- A task that is not over is the one that runs. -/
theorem busy_of_getElem? {i : Nat} (h : Shape past stages cell) (hi : stages[i]? = some stage)
    (hruns : ¬ past stage) : ∃ before, Busy past before stage stages cell ∧ i = before.length := by
  cases h with
  | inl hidle => exact absurd (hidle.past stage (List.mem_of_getElem? hi)) hruns
  | inr hbusy =>
    have ⟨before, last, hb⟩ := hbusy
    rw [hb.stages] at hi
    by_cases hlt : i < before.length
    · rw [List.getElem?_append_left hlt] at hi
      exact absurd (hb.earlier stage (List.mem_of_getElem? hi)) hruns
    · rw [List.getElem?_append_right (by omega)] at hi
      have hsub : i - before.length = 0 := by
        have hlen := (List.getElem?_eq_some_iff.mp hi).1
        simp only [List.length_singleton] at hlen
        omega
      rw [hsub] at hi
      have heq : last = stage := Option.some.inj hi
      exact ⟨before, heq ▸ hb, by omega⟩

/-- A task that is over is not the one in the cell. -/
theorem cell_ne {i : Nat} (h : Shape past stages cell) (hi : stages[i]? = some stage)
    (hover : past stage) : cell ≠ some i := by
  cases h with
  | inl hidle => simp [hidle.cell]
  | inr hbusy =>
    have ⟨before, last, hb⟩ := hbusy
    intro hcell
    have heq : before.length = i := Option.some.inj (hb.cell.symm.trans hcell)
    rw [hb.stages, ← heq, List.getElem?_append_right (Nat.le_refl _), Nat.sub_self] at hi
    exact hb.runs (Option.some.inj hi ▸ hover)

end Shape

end SingleFlight
