import Mathlib.Tactic

/-!
# Serial NOR flash

A flash chip behind a serial bus, as its host sees it. Between select and
deselect the host sends bytes and receives as many. A page program can only clear
bits and stays inside one page: at its end the address wraps to its beginning. A
sector erase sets all bits of a sector. Both have to be enabled before, and
take a while during which only the status can be read.
-/

namespace NorFlash

def pageSize : Nat := 256

def sectorSize : Nat := 4096

/-- A kind of chip: how many bytes it has, and for how many reads of the status it is busy. -/
structure Part where
  capacity : Nat
  programTime : Nat
  eraseTime : Nat

structure Chip where
  memory : Nat → UInt8
  writeEnabled : Bool
  /-- How often the status will still say busy. -/
  busy : Nat

/-! ## Page programs -/

/-- The address after this one, inside the same page. -/
def nextInPage (address : Nat) : Nat := address / pageSize * pageSize + (address + 1) % pageSize

def programPage (memory : Nat → UInt8) (address : Nat) : List UInt8 → Nat → UInt8
  | [] => memory
  | byte :: bytes =>
      programPage (Function.update memory address (memory address &&& byte)) (nextInPage address)
        bytes

def eraseSector (memory : Nat → UInt8) (address : Nat) : Nat → UInt8 :=
  fun a => if a / sectorSize = address / sectorSize then 0xFF else memory a

theorem nextInPage_eq {address : Nat} (h : address % pageSize + 1 < pageSize) :
    nextInPage address = address + 1 := by
  unfold nextInPage pageSize at *
  omega

/-- A program that does not reach the end of the page stores its bytes one after the other. -/
theorem programPage_eq {bytes : List UInt8} {memory : Nat → UInt8} {address : Nat}
    (h : address % pageSize + bytes.length ≤ pageSize) (a : Nat) :
    programPage memory address bytes a =
      if address ≤ a ∧ a < address + bytes.length then memory a &&& bytes.getD (a - address) 0
      else memory a := by
  induction bytes generalizing memory address with
  | nil => rw [programPage, List.length_nil, if_neg (by omega)]
  | cons byte bytes ih =>
      rw [List.length_cons] at h
      rw [programPage, List.length_cons]
      by_cases hlast : bytes = []
      · subst hlast
        rw [programPage, List.length_nil]
        by_cases ha : a = address
        · subst ha
          rw [Function.update_self, if_pos (by omega), Nat.sub_self, List.getD_cons_zero]
        · rw [Function.update_of_ne ha, if_neg (by omega)]
      · have hpos := List.length_pos_iff.2 hlast
        have hnext := nextInPage_eq (show address % pageSize + 1 < pageSize by omega)
        have hroom : (address + 1) % pageSize + bytes.length ≤ pageSize := by
          unfold pageSize at *
          omega
        rw [hnext, ih hroom]
        by_cases ha : a = address
        · subst ha
          rw [if_neg (by omega), Function.update_self, if_pos (by omega), Nat.sub_self,
            List.getD_cons_zero]
        · rw [Function.update_of_ne ha]
          by_cases hin : address + 1 ≤ a ∧ a < address + 1 + bytes.length
          · obtain ⟨k, hk⟩ : ∃ k, a - address = k + 1 := ⟨a - address - 1, by omega⟩
            rw [if_pos hin, if_pos (by omega), hk, List.getD_cons_succ,
              show a - (address + 1) = k by omega]
          · rw [if_neg hin, if_neg (by omega)]

/-! ## The commands -/

def statusBits (chip : Chip) : UInt8 :=
  (if chip.busy = 0 then 0 else 1) ||| (if chip.writeEnabled then 2 else 0)

def address24 (high middle low : UInt8) : Nat :=
  65536 * high.toNat + 256 * middle.toNat + low.toNat

def readBytes (part : Part) (chip : Chip) (address count : Nat) : List UInt8 :=
  (List.range count).map fun i => chip.memory ((address + i) % part.capacity)

/--
A transaction: the bytes the host sends, and the chip and the bytes the host receives. A busy chip
only answers for its status.
-/
def exchange (part : Part) (chip : Chip) : List UInt8 → Chip × List UInt8
  | [0x05, _] => ({ chip with busy := chip.busy - 1 }, [0, statusBits chip])
  | [0x06] =>
      if chip.busy = 0 then ({ chip with writeEnabled := true }, [0]) else (chip, [0])
  | 0x03 :: high :: middle :: low :: dummies =>
      if chip.busy = 0 then
        (chip, [0, 0, 0, 0] ++ readBytes part chip (address24 high middle low) dummies.length)
      else (chip, List.replicate (4 + dummies.length) 0)
  | 0x02 :: high :: middle :: low :: bytes =>
      if chip.busy = 0 ∧ chip.writeEnabled then
        ({ memory := programPage chip.memory (address24 high middle low % part.capacity) bytes
           writeEnabled := false
           busy := part.programTime },
          List.replicate (4 + bytes.length) 0)
      else (chip, List.replicate (4 + bytes.length) 0)
  | [0x20, high, middle, low] =>
      if chip.busy = 0 ∧ chip.writeEnabled then
        ({ memory := eraseSector chip.memory (address24 high middle low % part.capacity)
           writeEnabled := false
           busy := part.eraseTime },
          List.replicate 4 0)
      else (chip, List.replicate 4 0)
  | bytes => (chip, List.replicate bytes.length 0)

section Idle

variable (part : Part) (chip : Chip) (high middle low : UInt8)

theorem exchange_enable (h : chip.busy = 0) :
    exchange part chip [0x06] = ({ chip with writeEnabled := true }, [0]) :=
  if_pos h

theorem exchange_read (h : chip.busy = 0) (dummies : List UInt8) :
    exchange part chip (0x03 :: high :: middle :: low :: dummies) =
      (chip, [0, 0, 0, 0] ++ readBytes part chip (address24 high middle low) dummies.length) :=
  if_pos h

theorem exchange_program (h : chip.busy = 0 ∧ chip.writeEnabled) (bytes : List UInt8) :
    exchange part chip (0x02 :: high :: middle :: low :: bytes) =
      ({ memory := programPage chip.memory (address24 high middle low % part.capacity) bytes
         writeEnabled := false
         busy := part.programTime },
        List.replicate (4 + bytes.length) 0) :=
  if_pos h

theorem exchange_erase (h : chip.busy = 0 ∧ chip.writeEnabled) :
    exchange part chip [0x20, high, middle, low] =
      ({ memory := eraseSector chip.memory (address24 high middle low % part.capacity)
         writeEnabled := false
         busy := part.eraseTime },
        List.replicate 4 0) :=
  if_pos h

end Idle

end NorFlash
