import Mathlib.Tactic

/-!
# Two-slot stores with wrapping generations

A record is kept in two slots. Each slot is valid or not, the valid record with
the newer generation is current, and a new version goes to the other slot, so
that the current one survives until the new one is complete. Generations count
modulo `2 ^ 32` and skip zero; of two generations the newer is the one at most
half the circle ahead.
-/

namespace SecureDeltaOta.Memory

/-- One of the two slots, or none when neither is valid. -/
inductive Slot where
  | none
  | a
  | b
  deriving DecidableEq, Repr

/-- What a two-slot store needs to know of its records. -/
structure SlotFormat (ρ : Type) where
  isValid : ρ → Bool
  generation : ρ → UInt32

/-- Wrapping comparison of generations. -/
def isGenerationNewer (candidate reference : UInt32) : Bool :=
  let difference := candidate - reference
  difference != 0 && difference < 0x80000000

/-- The generation of a first record, and the one that follows the last before the wrap. -/
def firstGeneration : UInt32 := 1

/-- The successor of a generation; zero is skipped. -/
def nextGeneration (current : UInt32) : UInt32 :=
  let next := current + 1
  if next = 0 then firstGeneration else next

namespace SlotFormat

variable {ρ : Type} (format : SlotFormat ρ)

def selectNewestSlot (slotA slotB : ρ) : Slot :=
  let validA := format.isValid slotA
  let validB := format.isValid slotB
  if !validA && !validB then .none
  else if !validA then .b
  else if !validB then .a
  else if isGenerationNewer (format.generation slotB) (format.generation slotA) then .b
  else .a

def selectWriteSlot (slotA slotB : ρ) : Slot :=
  if format.selectNewestSlot slotA slotB = .a then .b else .a

/-- The current record of a pair of slots. -/
def current (slotA slotB : ρ) : Option ρ :=
  match format.selectNewestSlot slotA slotB with
  | .none => none
  | .a => some slotA
  | .b => some slotB

/-- The generation a new record is numbered after: that of the current record, or zero. -/
def currentGeneration (slotA slotB : ρ) : UInt32 :=
  match format.selectNewestSlot slotA slotB with
  | .none => 0
  | .a => format.generation slotA
  | .b => format.generation slotB

/-- The pair of slots after the contents of the write slot were replaced. -/
def writeSlot (slotA slotB contents : ρ) : ρ × ρ :=
  match format.selectWriteSlot slotA slotB with
  | .b => (slotA, contents)
  | _ => (contents, slotB)

end SlotFormat

/-- The successor lies one step ahead, or two steps across the wrap. -/
theorem nextGeneration_sub (g : UInt32) : nextGeneration g - g = 1 ∨ nextGeneration g - g = 2 := by
  unfold nextGeneration firstGeneration
  by_cases hwrap : g + 1 = 0
  · right
    have hg : g = 0 - 1 := by grind
    subst hg
    decide
  · left
    simp only [hwrap, if_false]
    grind

theorem isGenerationNewer_next (g : UInt32) : isGenerationNewer (nextGeneration g) g = true := by
  unfold isGenerationNewer
  rcases nextGeneration_sub g with h | h <;> simp only [h] <;> decide

theorem not_isGenerationNewer_next (g : UInt32) :
    isGenerationNewer g (nextGeneration g) = false := by
  have hneg : g - nextGeneration g = 0 - (nextGeneration g - g) := by grind
  unfold isGenerationNewer
  rcases nextGeneration_sub g with h | h <;> simp only [hneg, h] <;> decide

theorem nextGeneration_ne_zero (g : UInt32) : nextGeneration g ≠ 0 := by
  unfold nextGeneration firstGeneration
  grind

namespace SlotFormat

variable {ρ : Type} {format : SlotFormat ρ} {slotA slotB contents : ρ}

theorem current_isValid {r : ρ} (h : format.current slotA slotB = some r) :
    format.isValid r = true := by
  unfold current selectNewestSlot at h
  grind

/-- While the write slot holds no valid record the current record stays what it was. -/
theorem current_writeSlot_of_invalid (h : format.isValid contents = false) :
    format.current (format.writeSlot slotA slotB contents).1
      (format.writeSlot slotA slotB contents).2 = format.current slotA slotB := by
  unfold current writeSlot selectWriteSlot selectNewestSlot
  grind

/-- A slot without a valid record leaves the choice to the other one. -/
theorem current_of_invalid_left (h : format.isValid slotA = false) :
    format.current slotA slotB = if format.isValid slotB then some slotB else none := by
  unfold current selectNewestSlot
  grind

theorem current_of_invalid_right (h : format.isValid slotB = false) :
    format.current slotA slotB = if format.isValid slotA then some slotA else none := by
  unfold current selectNewestSlot
  grind

/-- A valid record with the successor generation becomes the current one. -/
theorem current_writeSlot_of_next (hvalid : format.isValid contents = true)
    (hgen : format.generation contents =
      nextGeneration (format.currentGeneration slotA slotB)) :
    format.current (format.writeSlot slotA slotB contents).1
      (format.writeSlot slotA slotB contents).2 = some contents := by
  have hA := isGenerationNewer_next (format.generation slotA)
  have hB := not_isGenerationNewer_next (format.generation slotB)
  unfold currentGeneration at hgen
  unfold current writeSlot selectWriteSlot selectNewestSlot at *
  grind

end SlotFormat

end SecureDeltaOta.Memory
