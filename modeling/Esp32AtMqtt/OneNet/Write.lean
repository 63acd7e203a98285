import Mathlib.Algebra.Order.Ring.Nat
import Esp32AtMqtt.Gsm.Thread

/-!
# A block and the command that announces it

`rt_ESP32_write` prints the command `AT+CIPSEND` with the size of a block into `Temp`, sends
fifteen bytes from `Temp` on, whatever it has printed, and then the block. Fifteen bytes are the
command exactly when the size has two digits. With one digit the device gets a zero byte behind the
command, and with more the command loses its end.
-/

namespace OneNet

open Gsm.Thread (bytes)

/-- The size of `Temp`. -/
def tempSize : ℕ := 20

/-- What a call of `rt_ESP32_write` does: the blocks that it hands to `rt_device_write`, the number
of bytes that `sprintf` stores from `Temp` on, and the result. -/
structure Esp32Write where
  written : List (List UInt8)
  stored : ℕ
  result : UInt32
  deriving DecidableEq, Repr

/-- What `sprintf` prints for the format `AT+CIPSEND=%d` with CR LF; `%d` takes the size for an
`int`. -/
def cipsendText (size : UInt32) : List UInt8 :=
  bytes "AT+CIPSEND=" ++ bytes (toString size.toInt32.toInt) ++ [0x0D, 0x0A]

/-- `Temp`, which was cleared before. -/
def temp (size : UInt32) : List UInt8 :=
  (cipsendText size ++ List.replicate tempSize 0).take tempSize

/-- The `size` bytes from `buffer` on. -/
def block (buffer : ℕ → UInt8) (size : UInt32) : List UInt8 := (List.range size.toNat).map buffer

/-- `rt_ESP32_write(dev, pos, buffer, size)`; `deviceWrite` is what `rt_device_write` returns. -/
def rtEsp32Write (deviceWrite : List UInt8 → UInt32) (buffer : ℕ → UInt8) (size : UInt32) :
    Esp32Write where
  written := [(temp size).take 15, block buffer size]
  stored := (cipsendText size).length + 1
  result := deviceWrite (block buffer size)

/-- The command that announces a block. -/
def announcement (size : UInt32) : List UInt8 :=
  bytes "AT+CIPSEND=" ++ bytes (toString size.toNat) ++ [0x0D, 0x0A]

/-- The device gets the command and the block, and nothing is stored behind `Temp`. -/
structure Announced (buffer : ℕ → UInt8) (size : UInt32) (w : Esp32Write) : Prop where
  written : w.written.flatten = announcement size ++ block buffer size
  inside : w.stored ≤ tempSize

theorem length_bytes_toString (n : ℕ) :
    (bytes (toString n)).length = (Nat.toDigits 10 n).length := by
  rw [bytes, List.length_map, Nat.toString_eq_ofList_toDigits, String.toList_ofList]

/-- A number has two digits. -/
theorem length_toDigits_eq_two_iff (n : ℕ) :
    (Nat.toDigits 10 n).length = 2 ↔ 10 ≤ n ∧ n ≤ 99 := by
  have hone : (Nat.toDigits 10 n).length ≤ 1 ↔ n < 10 :=
    Nat.length_toDigits_le_iff (by decide) (by decide)
  have htwo : (Nat.toDigits 10 n).length ≤ 2 ↔ n < 100 :=
    Nat.length_toDigits_le_iff (by decide) (by decide)
  omega

theorem length_announcement (size : UInt32) :
    (announcement size).length = 13 + (Nat.toDigits 10 size.toNat).length := by
  have hname : (bytes "AT+CIPSEND=").length = 11 := rfl
  have hend : ([0x0D, 0x0A] : List UInt8).length = 2 := rfl
  rw [announcement, List.length_append, List.length_append, length_bytes_toString, hname, hend]
  omega

theorem length_temp_take (size : UInt32) : ((temp size).take 15).length = 15 := by
  rw [temp, List.take_take, List.length_take, List.length_append, List.length_replicate, tempSize]
  omega

/-- Below `2 ^ 31` the size is printed as it is. -/
theorem cipsendText_eq {size : UInt32} (h : size.toNat < 2 ^ 31) :
    cipsendText size = announcement size := by
  have hint : size.toInt32.toInt = (size.toNat : ℤ) := by
    show size.toBitVec.toInt = _
    rw [BitVec.toInt_eq_toNat_of_lt]
    · rfl
    · show 2 * size.toNat < 2 ^ 32
      omega
  rw [cipsendText, hint, announcement]
  rfl

/-- What is sent of a command of fifteen bytes. -/
theorem temp_take {size : UInt32} (h : (cipsendText size).length = 15) :
    (temp size).take 15 = cipsendText size := by
  have hmin : min 15 tempSize = (cipsendText size).length := h.symm
  rw [temp, List.take_take, hmin, List.take_left]

theorem announced_of_two (deviceWrite : List UInt8 → UInt32) (buffer : ℕ → UInt8) {size : UInt32}
    (h : 10 ≤ size.toNat ∧ size.toNat ≤ 99) :
    Announced buffer size (rtEsp32Write deviceWrite buffer size) := by
  have hdigits := (length_toDigits_eq_two_iff size.toNat).mpr h
  have htext : cipsendText size = announcement size := cipsendText_eq (by omega)
  have hlen : (cipsendText size).length = 15 := by
    rw [htext, length_announcement, hdigits]
  constructor
  · show [(temp size).take 15, block buffer size].flatten = _
    rw [List.flatten_cons, List.flatten_singleton, temp_take hlen, htext]
  · show (cipsendText size).length + 1 ≤ tempSize
    rw [hlen]
    decide

/-- A block is announced right exactly when its size has two digits. -/
theorem announced_iff (deviceWrite : List UInt8 → UInt32) (buffer : ℕ → UInt8) (size : UInt32) :
    Announced buffer size (rtEsp32Write deviceWrite buffer size) ↔
      10 ≤ size.toNat ∧ size.toNat ≤ 99 := by
  refine ⟨fun h => ?_, announced_of_two deviceWrite buffer⟩
  have hlen := congrArg List.length h.written
  rw [rtEsp32Write, List.flatten_cons, List.flatten_singleton, List.length_append,
    List.length_append, length_temp_take, length_announcement] at hlen
  apply (length_toDigits_eq_two_iff size.toNat).mp
  omega

/-- Five bytes are announced with a zero byte behind the command. -/
theorem announced_five : ¬ ∀ (deviceWrite : List UInt8 → UInt32) (buffer : ℕ → UInt8)
    (size : UInt32), Announced buffer size (rtEsp32Write deviceWrite buffer size) := by
  intro hall
  have hfive := (hall (fun _ => 5) (fun _ => 0x41) 5).written
  exact absurd hfive (by decide +kernel)

end OneNet
