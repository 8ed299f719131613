import BleOta.Device.Steps

/-!
# The frames that a step of the device sends

`Device.sent d d'`: the frames in the entries that the log gains from `d` to `d'`. A packet sends
its answer at once, or the one of its sector at the end of the firmware callback (`Device.due`); a
command sends its answer at once; the pump sends nothing.

* `packet_sent`, `command_sent`, `nimbleStep_sent`, `pumpStep_sent`: the frames of each step.
-/

namespace BleOta

/-- The frame of an answer. -/
def DevEv.frame? : DevEv → Option (List UInt8)
  | .notify frame _ => some frame
  | _ => none

/-- The sector that the firmware callback has and has not returned from. -/
def NimblePc.sector : NimblePc → List UInt8
  | .recvCheck _ data _ | .recvSend _ data _ => data
  | _ => []

@[simp] theorem NimblePc.sector_idle : NimblePc.idle.sector = [] := rfl

@[simp] theorem NimblePc.sector_recvCheck (sector data frame : List UInt8) :
    (NimblePc.recvCheck sector data frame).sector = data := rfl

@[simp] theorem NimblePc.sector_recvSend (sector data frame : List UInt8) :
    (NimblePc.recvSend sector data frame).sector = data := rfl

/-- The subscriptions decide which answers are sent. -/
theorem notification_congr {c c' : Component} (h : c'.otaNotification = c.otaNotification)
    (char : OtaChar) (frame : List UInt8) :
    espBleOtaNotificationData c' char frame = espBleOtaNotificationData c char frame := by
  unfold espBleOtaNotificationData
  rw [h]

namespace Device

/-- The frames that the device sends between `d` and `d'`. -/
def sent (d d' : Device) : List (List UInt8) := (d'.log.drop d.log.length).filterMap (·.2.frame?)

/-- The indication of the sector that the firmware callback has. -/
def due (d : Device) : List (List UInt8) :=
  match d.nimble with
  | .recvCheck _ _ frame | .recvSend _ _ frame =>
    (espBleOtaNotificationData d.comp .recvFw frame).toList
  | _ => []

variable {B : Board} {d d' : Device}

theorem sent_emit (es : List DevEv) (h : d'.log = (d.emit es).log) :
    d.sent d' = es.filterMap DevEv.frame? := by
  rw [sent, h, emit_log, List.drop_left, List.filterMap_map]
  rfl

theorem sent_quiet (h : d'.log = d.log) : d.sent d' = [] := by
  rw [sent, h, List.drop_length]
  rfl

theorem frame_notified (c : OtaChar) (frame sector : List UInt8) :
    (d.notified c frame sector).filterMap DevEv.frame? =
      (espBleOtaNotificationData d.comp c frame).toList := by
  rw [notified, List.filterMap_map]
  exact List.filterMap_some

theorem frame_answered {e : DevEv} (he : e.frame? = none) (c : OtaChar)
    (frame sector : List UInt8) : (e :: d.notified c frame sector).filterMap DevEv.frame? =
      (espBleOtaNotificationData d.comp c frame).toList := by
  rw [List.filterMap_cons_none he, frame_notified]

/-- The frames of a packet that ends no sector. -/
theorem sent_reply {c : Component} (hntf : c.otaNotification = d.comp.otaNotification)
    (frame : Option (List UInt8)) :
    d.sent ({ d with comp := c }.emit
        (frame.toList.flatMap ({ d with comp := c }.notified .recvFw · []))) =
      frame.toList.flatMap fun f => (espBleOtaNotificationData d.comp .recvFw f).toList := by
  refine (sent_emit (d := d) _ rfl).trans ?_
  rw [List.filterMap_flatMap]
  congr 1
  funext f
  rw [frame_notified, notification_congr hntf]

/-- What the NimBLE host task sends at its next step: the indication that was due, if it is not due
any more. -/
theorem nimbleStep_sent {n : Nat} (hst : d.nimbleStep n = some d') :
    d.sent d' ++ d'.due = d.due ∧ d'.comp = d.comp := by
  have hsent (es : List DevEv) (hl : d'.log = (d.emit es).log)
      (hf : es.filterMap DevEv.frame? ++ d'.due = d.due) : d.sent d' ++ d'.due = d.due := by
    rw [sent_emit es hl, hf]
  cases nimbleStep_act (B := .otaSlots) hst with
  | @recvRefuse n sector data frame hn | @sendFull n sector data frame hn =>
    refine ⟨hsent (.refused data :: d.notified .recvFw frame sector) rfl ?_, rfl⟩
    rw [frame_answered rfl]
    simp [due, hn]
  | @sendOk n sector data frame ring hn =>
    refine ⟨hsent (.accepted (d.cells data) :: d.notified .recvFw frame sector) rfl ?_, rfl⟩
    rw [frame_answered rfl]
    simp [due, hn]
  | @flushReturn n item hn =>
    refine ⟨hsent [.flushed item] rfl ?_, rfl⟩
    simp [due, hn, DevEv.frame?]
  | startInvalidate hn =>
    refine ⟨hsent [.sink .poke] rfl ?_, rfl⟩
    simp [due, hn, DevEv.frame?]
  | recvPass hn | startArm hn | startUnblock hn | flushTake hn | flushDone hn | stopDisarm hn =>
    exact ⟨by simp [sent_quiet, due, hn], rfl⟩

/-- The pump sends nothing. -/
theorem pumpStep_sent {n : Nat} {idf : Idf} (hst : (system B).step (.pump n idf) d = some d') :
    d.sent d' = [] ∧ d'.comp = d.comp ∧ d'.nimble = d.nimble := by
  have hsinks (es : List (SinkEntry Cell)) (hl : d'.log = (d.emit (es.map .sink)).log) :
      d.sent d' = [] := by
    rw [sent_emit _ hl]
    refine List.filterMap_eq_nil_iff.mpr fun e he => ?_
    obtain ⟨x, -, rfl⟩ := List.mem_map.mp he
    rfl
  cases step_act hst with
  | calls | sections => exact ⟨hsinks _ rfl, rfl, rfl⟩
  | giveBack | wroteFail => exact ⟨sent_emit [.dropped d.pump.data] rfl, rfl, rfl⟩
  | take | timesOut | timeoutAbort | timeoutBack | emptyItem | lazyOpen | toWrite | unarmed | zero
    | length | zeroBlock | failBlock | wroteOk => exact ⟨sent_quiet rfl, rfl, rfl⟩

/-- What a packet sends, and what is due after it. -/
theorem packet_sent {om : List UInt8} (hst : d.bleStep (.packet om) = some d') :
    d'.comp = (recvFwWrite om d.comp).1 ∧
      d.sent d' ++ d'.due = match (recvFwWrite om d.comp).2 with
        | .reply frame _ => frame.toList.flatMap fun f =>
            (espBleOtaNotificationData d.comp .recvFw f).toList
        | .sectorEnd _ _ frame => (espBleOtaNotificationData d.comp .recvFw frame).toList := by
  have hntf := (recvFwWrite_frame om d.comp).2.2
  cases bleStep_act (B := .otaSlots) hst with
  | @reply om frame err c hn ho =>
    rw [ho] at hntf ⊢
    rw [sent_reply hntf]
    exact ⟨rfl, by simp [due, hn]⟩
  | @sectorEnd om sector data frame c hn ho =>
    rw [ho] at hntf ⊢
    exact ⟨rfl, by simp [sent_quiet, due, notification_congr hntf]⟩

/-- No command changes the subscriptions. -/
theorem bleOtaStartWriteChr_notification (om : List UInt8) (malloc : Bool) (c : Component) :
    (bleOtaStartWriteChr om malloc c).1.otaNotification = c.otaNotification := by
  rcases bleOtaStartWriteChr_cases om malloc c with ⟨-, _, _, h, -⟩ | ⟨-, _, h, -⟩ | h <;> rw [h]

/-- What a command sends. -/
theorem command_sent {om : List UInt8} {malloc : Bool}
    (hst : d.bleStep (.command om malloc) = some d') :
    d'.comp = (bleOtaStartWriteChr om malloc d.comp).1 ∧ d'.due = [] ∧
      d.sent d' = match (bleOtaStartWriteChr om malloc d.comp).2 with
        | .started frame | .stopped frame => (espBleOtaNotificationData d.comp .cmd frame).toList
        | .ignored => [] := by
  have hntf := bleOtaStartWriteChr_notification om malloc d.comp
  cases bleStep_act (B := .otaSlots) hst with
  | @start om malloc frame c hn ho | @stop om malloc frame c hn ho =>
    rw [ho] at hntf ⊢
    refine ⟨rfl, rfl, (sent_emit ({ d with comp := c }.notified .cmd frame []) rfl).trans ?_⟩
    rw [frame_notified, notification_congr hntf]
  | otherCommand hn ho =>
    rw [ho]
    exact ⟨rfl, by rw [due, hn], sent_quiet rfl⟩

/-- A subscription and the end of the connection send nothing. -/
theorem quiet_sent {e : BleEvent} (he : e = .disconnect ∨ ∃ n, e = .subscribe n)
    (hst : d.bleStep e = some d') : d.sent d' = [] ∧ d'.due = [] := by
  rcases he with rfl | ⟨n, rfl⟩
  · cases bleStep_act (B := .otaSlots) hst with
    | disconnect hn => exact ⟨sent_quiet rfl, by rw [due, hn]⟩
  · cases bleStep_act (B := .otaSlots) hst with
    | subscribe hn => exact ⟨sent_quiet rfl, by rw [due, hn]⟩

end Device

end BleOta
