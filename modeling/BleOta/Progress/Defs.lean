import BleOta.Lib.Replay
import BleOta.Sink.Defs

/-!
# The progress store (`ota_core/src/ota_progress_store.c`) and the flash

The store is one blob in the NVS. `NvsIo` is what the NVS answers to the calls of one function, and
whether a blob whose write (or erase) is not answered by `ESP_OK` to the end is in the flash all
the same.

* `progressRw`, `otaProgressSave`, `otaProgressLoad`, `otaProgressClear`: the functions of the
  source.
* `Media`: the NVS and the slot that is written. `Media.Step ev m m'`: what the call `ev` of the
  sink may do to them.
-/

namespace BleOta

/-- `ESP_ERR_INVALID_ARG`. -/
def espErrInvalidArg : EspErr := 0x102

/-- `ESP_ERR_NVS_NOT_FOUND`. -/
def espErrNvsNotFound : EspErr := 0x1102

/-- `ESP_ERR_NVS_INVALID_LENGTH`. -/
def espErrNvsInvalidLength : EspErr := 0x110c

/-- `OTA_PROGRESS_MAGIC`. -/
def otaProgressMagic : Nat := 0x4F545047

/-- What `ota_progress_save` takes and `ota_progress_load` gives. -/
structure OtaProgress where
  imageSize : Nat
  offset : Nat
  sectorIndex : Nat
  deriving DecidableEq, Repr

/-- A `uint32_t` of a packed structure. -/
def putU32 (n : Nat) : List UInt8 :=
  [UInt8.ofNat n, UInt8.ofNat (n / 256), UInt8.ofNat (n / 65536), UInt8.ofNat (n / 16777216)]

/-- The `uint32_t` at the offset `i` of a packed structure. -/
def getU32 (bytes : List UInt8) (i : Nat) : Nat :=
  (bytes.getD i 0).toNat + (bytes.getD (i + 1) 0).toNat * 256 +
    (bytes.getD (i + 2) 0).toNat * 65536 + (bytes.getD (i + 3) 0).toNat * 16777216

/-- The bytes of an `ota_progress_blob_t`. -/
def OtaProgress.blob (p : OtaProgress) : List UInt8 :=
  putU32 otaProgressMagic ++ putU32 p.imageSize ++ putU32 p.offset ++ putU32 p.sectorIndex

/-- `sizeof(ota_progress_blob_t)`. -/
def blobSize : Nat := 16

/-- The fields of an `ota_progress_blob_t` after its magic. -/
def OtaProgress.ofBlob (bytes : List UInt8) : OtaProgress :=
  ⟨getU32 bytes 4, getU32 bytes 8, getU32 bytes 12⟩

/-- What is under the key of the progress in the NVS. -/
abbrev Nvs := Option (List UInt8)

/-- What the NVS answers to `nvs_open`, to the access of the key and to `nvs_commit` (module
doc). That there is no key is not a choice. -/
structure NvsIo where
  opened : EspErr
  access : EspErr
  commit : EspErr
  kept : Bool
  access_ne : access ≠ espErrNvsNotFound

/-- Every call of the NVS is answered with `ESP_OK`. -/
def NvsIo.allOk : NvsIo := ⟨espOk, espOk, espOk, false, by decide⟩

/-- `nvs_get_blob` for a buffer of `blobSize` bytes. -/
def nvsGetBlob (io : NvsIo) (nvs : Nvs) : Except EspErr (List UInt8) :=
  if io.access ≠ espOk then .error io.access
  else match nvs with
    | none => .error espErrNvsNotFound
    | some bytes => if blobSize < bytes.length then .error espErrNvsInvalidLength else .ok bytes

/-- `progress_rw`: its result, `*image_size`, `*offset` and `*sector_index` after it, and the
NVS. -/
def progressRw (io : NvsIo) (write : Bool) (p : OtaProgress) (nvs : Nvs) :
    EspErr × OtaProgress × Nvs :=
  if io.opened ≠ espOk then (io.opened, p, nvs)
  else if write then
    let err := if io.access = espOk then io.commit else io.access
    (err, p, if err = espOk ∨ io.kept then some p.blob else nvs)
  else match nvsGetBlob io nvs with
    | .error err => (err, p, nvs)
    | .ok bytes =>
      if bytes.length ≠ blobSize ∨ getU32 bytes 0 ≠ otaProgressMagic then
        (espErrInvalidState, p, nvs)
      else (espOk, .ofBlob bytes, nvs)

/-- `ota_progress_save`. -/
def otaProgressSave (io : NvsIo) (p : OtaProgress) (nvs : Nvs) : EspErr × Nvs :=
  let r := progressRw io true p nvs
  (r.1, r.2.2)

/-- `ota_progress_load`; `outs` says that no pointer is `NULL`, and `p` is what they point to. -/
def otaProgressLoad (io : NvsIo) (outs : Bool) (p : OtaProgress) (nvs : Nvs) :
    EspErr × OtaProgress :=
  if outs then
    let r := progressRw io false p nvs
    (r.1, r.2.1)
  else (espErrInvalidArg, p)

/-- `nvs_erase_key`. -/
def nvsEraseKey (io : NvsIo) (nvs : Nvs) : EspErr :=
  if io.access ≠ espOk then io.access else if nvs.isNone then espErrNvsNotFound else espOk

/-- `ota_progress_clear`. -/
def otaProgressClear (io : NvsIo) (nvs : Nvs) : EspErr × Nvs :=
  if io.opened ≠ espOk then (io.opened, nvs)
  else
    let err := nvsEraseKey io nvs
    let err := if err = espErrNvsNotFound then espOk else err
    let err := if err = espOk then io.commit else err
    (err, if err = espOk ∨ io.kept then none else nvs)

/-! ## The media -/

/-- The slot that is written: what its session was begun with (the image size, the handle and the
size of the partition), and how many bytes the flash has got since. -/
structure Slot where
  imageSize : Nat
  handle : Nat
  capacity : Nat
  written : Nat
  deriving DecidableEq, Repr

/-- The NVS, and the slot as the last `esp_ota_begin` left it: `none` after one that failed and
had erased the slot, or before the first one. -/
structure Media where
  nvs : Nvs
  slot : Option Slot
  deriving DecidableEq, Repr

/-- A new device. -/
def Media.blank : Media := ⟨none, none⟩

variable {α : Type}

/-- What a call of the sink may do to the media. `esp_ota_begin` erases the slot, and may fail
after that. `esp_ota_write` writes with the handle of the slot and inside the partition, or it
fails. -/
inductive Media.Step : Ev α → Media → Media → Prop
  | began {target size h m} : Step (.otaBegin target size h espOk) m
      { m with slot := some ⟨size, h, target.size, 0⟩ }
  | beginFailed {target size h err m} (erased : Bool) : err ≠ espOk →
      Step (.otaBegin target size h err) m { m with slot := if erased then none else m.slot }
  | wrote {h data m slot} : m.slot = some slot → h = slot.handle →
      slot.written + data.length ≤ slot.capacity →
      Step (.otaWrite h data espOk) m
        { m with slot := some { slot with written := slot.written + data.length } }
  | writeFailed {h data err m} : err ≠ espOk → Step (.otaWrite h data err) m m
  | saved {size offset sector err m nvs} (io : NvsIo) :
      otaProgressSave io ⟨size, offset, sector⟩ m.nvs = (err, nvs) →
      Step (.progressSave size offset sector err) m { m with nvs := nvs }
  | cleared {err m nvs} (io : NvsIo) : otaProgressClear io m.nvs = (err, nvs) →
      Step (.progressClear err) m { m with nvs := nvs }
  | ended {h err m} : Step (.otaEnd h err) m m
  | aborted {h m} : Step (.otaAbort h) m m
  | booted {target err m} : Step (.setBoot target err) m m
  | fired {e m} : Step (.fire e) m m

end BleOta
