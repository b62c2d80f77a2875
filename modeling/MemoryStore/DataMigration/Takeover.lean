/-
Executors that are overtaken: the row keeps them out of the transactions that lock it,
but not out of the operations on the vector tables that run outside.
-/
import MemoryStore.DataMigration.Executors
import MemoryStore.DataMigration.Lossless

namespace MemoryStore.DataMigration.MessageTimesTask

variable {T : MessageTimesTask}

section
variable {H : Holding T} {f : Fleet} {i : ℕ} {e : Executor} {w' : World}

/-- Who has not claimed the task does not touch the vector tables. -/
theorem FleetSafe.unclaimed_tables {c : Clock} {p' : TaskProgram String} (h : FleetSafe H f)
    (he : f.executors i = some e) (ht : e.token = none) (hadv : e.program.advance c f.world = some (p', w')) :
    w'.tables = f.world.tables := by
  have hu := h.unclaimed i e he ht
  revert hu
  generalize e.program = p at hadv
  intro hu
  cases hu with
  | ended hlabel =>
    cases p with
    | ret a => cases hadv
    | fail e => cases hadv
    | step label g next => cases hlabel
  | begins executionId holderId => rw [(advance_read hadv).1]
  | looks executionId holderId => rw [(advance_read hadv).1]
  | claims executionId holderId =>
    obtain ⟨rfl, -⟩ | ⟨-, lease, row, -, rfl, -⟩ := advance_claim hadv
    · rfl
    · rfl
  | checks hdone hwp =>
    have hsame : w' = f.world := Program.wp.now (J := fun w' => w' = f.world) (fun _ _ h' => h') (fun _ _ h' => h')
      (fun _ _ h' => h') (hwp.advance trivial hadv)
    rw [hsame]

/-- The vector tables change by the hand of the executor that holds the row. -/
theorem FleetSafe.tables_current (h : FleetSafe H f) {event : FleetEvent} (hkeep : KeepsUp f event)
    (hchange : (Fleet.exec T event f).world.tables ≠ f.world.tables) :
    ∃ i clock e t, event = .step i clock ∧ f.executors i = some e ∧ e.token = some t ∧ Current t f.world := by
  cases event with
  | start self executionId holderId =>
    refine absurd ?_ hchange
    cases he : f.executors self <;> simp only [Fleet.exec, he]
  | crash self =>
    refine absurd ?_ hchange
    show (release f.world self).tables = _
    unfold release
    split <;> rfl
  | step self clock =>
    cases he : f.executors self with
    | none => exact absurd (by simp only [Fleet.exec, he]) hchange
    | some e =>
      cases hadv : e.program.advance clock f.world with
      | none => exact absurd (by simp only [Fleet.exec, he, hadv]) hchange
      | some r =>
        simp only [Fleet.exec, he, hadv] at hchange
        cases ht : e.token with
        | none => exact absurd (h.unclaimed_tables he ht hadv) hchange
        | some t =>
          by_cases hcurrent : Current t f.world
          · exact ⟨self, clock, e, t, rfl, he, ht, hcurrent⟩
          · rw [h.stale he ht hadv (fun token hlabel => hkeep e token he hlabel) hcurrent] at hchange
            exact absurd rfl hchange

end

def idleFleet (rows : VectorTable) : Fleet := ⟨loneWorld rows, fun _ => none⟩

/-- An executor stalls before it drops the staging table, the next one stages again and begins to switch, and then the
first one goes on: no table is left. -/
def staleDrop : List FleetEvent :=
  .start 0 "first" "a" :: List.replicate 19 (.step 0 earlyClock) ++
    .start 1 "second" "b" :: List.replicate 30 (.step 1 lateClock) ++ [.step 0 lateClock]

end MemoryStore.DataMigration.MessageTimesTask
