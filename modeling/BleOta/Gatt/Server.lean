import BleOta.Gatt.Defs
import BleOta.Device.Assembly
import Mathlib.Data.List.Induction

/-!
# What the GATT server sends, and to whom

* `dev_sim`: the server simulates the device; `deviceLabel` says which event of the device an access
  or a GAP event is, so what holds in the runs of the device holds with the dispatch by attribute
  handles in front of it (`sector_written`).
* `enabled_iff`: the flag of a characteristic is set from the first `SUBSCRIBE` for it on, whatever
  that event says about the notifications; it is never cleared, neither by an unsubscription nor at
  the end of the connection.
* `sent_to`: a frame goes to the latest connection; the answers to packets go to the firmware
  characteristic, the ones to commands to the command characteristic, and only after a
  subscription.
* `transfer_kept`: the connections, the subscriptions and the other accesses leave the transfer of
  the component as it is; a new client continues the sector of the one before.
-/

namespace BleOta

variable {B : Board} {v : Handles}

/-! ## The characteristic of a handle -/

/-- The handle of a characteristic. -/
def Handles.of (v : Handles) : OtaChar → Nat
  | .recvFw => v.recvFw
  | .otaStatus => v.otaStatus
  | .cmd => v.cmd
  | .cus => v.cus
  | .invalid => 0

/-- With proper handles the last match is the only one. -/
theorem findOtaChar_iff (hv : v.Proper) {handle : Nat} {c : OtaChar} (hc : c ≠ .invalid) :
    findOtaCharAndDesrByHandle v handle = c ↔ handle = v.of c := by
  have hd := hv.distinct
  simp only [List.nodup_cons, List.mem_cons, List.not_mem_nil, or_false, not_or] at hd
  obtain ⟨⟨h12, h13, h14⟩, ⟨h23, h24⟩, h34, -⟩ := hd
  unfold findOtaCharAndDesrByHandle
  constructor
  · intro h
    by_cases h4 : handle = v.cus
    · rw [if_pos h4] at h
      rw [← h, h4, Handles.of]
    by_cases h3 : handle = v.cmd
    · rw [if_neg h4, if_pos h3] at h
      rw [← h, h3, Handles.of]
    by_cases h2 : handle = v.otaStatus
    · rw [if_neg h4, if_neg h3, if_pos h2] at h
      rw [← h, h2, Handles.of]
    by_cases h1 : handle = v.recvFw
    · rw [if_neg h4, if_neg h3, if_neg h2, if_pos h1] at h
      rw [← h, h1, Handles.of]
    · rw [if_neg h4, if_neg h3, if_neg h2, if_neg h1] at h
      exact absurd h.symm hc
  · rintro rfl
    cases c with
    | recvFw => simp [Handles.of, h12, h13, h14]
    | otaStatus => simp [Handles.of, h23, h24]
    | cmd => simp [Handles.of, h34]
    | cus => simp [Handles.of]
    | invalid => exact absurd rfl hc

/-- Before the first `CONNECT` no handle is found. -/
theorem findOtaChar_zero {handle : Nat} (h : handle ≠ 0) :
    findOtaCharAndDesrByHandle ⟨0, 0, 0, 0⟩ handle = .invalid := by
  simp [findOtaCharAndDesrByHandle, h]

theorem NotificationCheck.enabled_enable (n : NotificationCheck) {c : OtaChar} (c' : OtaChar)
    (hc : c ≠ .invalid) : (n.enable c').enabled c = true ↔ n.enabled c = true ∨ c = c' := by
  cases c <;> cases c' <;> simp_all [enable, enabled]

/-! ## The kinds of frames -/

/-- An answer to a packet: the end of a sector, or the request for one. -/
def PacketFrame (frame : List UInt8) : Prop :=
  ∃ b0 b1, frame = successAck b0 b1 ∨ ∃ n, frame = sectorNack b0 b1 n

/-- An answer to a command: its number in the status. -/
def CommandFrame (frame : List UInt8) : Prop :=
  ∃ number, (number = 0x01 ∨ number = 0x02) ∧ frame = cmdAck 0x03 0x00 number 0x00 0x00 0x00

theorem recvFwWrite_nack {om : List UInt8} {c c' : Component} {frame : Option (List UInt8)}
    {err : EspErr} (h : recvFwWrite om c = (c', .reply frame err)) :
    ∀ f ∈ frame, PacketFrame f := by
  have hdata {p : UInt8} {x : List UInt8} {e : EspErr} :
      (writeOtaData om p c).2 ≠ .reply (some x) e := by
    unfold writeOtaData
    generalize (if p ≠ 0xff then { c with sectorSequenceError := false } else c) = c₁
    dsimp only
    repeat' split
    all_goals simp
  intro f hf
  cases Option.mem_def.mp hf
  unfold recvFwWrite espBleOtaWriteChr at h
  dsimp only at h
  repeat' split at h
  all_goals first
    | exact absurd (congrArg Prod.snd h) hdata
    | (cases h; exact ⟨_, _, .inr ⟨_, rfl⟩⟩)
    | cases h

/-! ## What a run has seen -/

/-- There was a `CONNECT`, of any status. -/
def Connected (ls : List ServerLabel) : Prop := ∃ status conn, .event (.connect status conn) ∈ ls

/-- The handle of the latest connection that was established; 0 before the first one. -/
def lastConn (ls : List ServerLabel) : Nat :=
  ls.foldl (fun c l => match l with
    | .event (.connect 0 conn) => conn
    | _ => c) 0

/-- There was a `SUBSCRIBE` for the characteristic, after a `CONNECT`. -/
def Subscribed (v : Handles) (c : OtaChar) (ls : List ServerLabel) : Prop :=
  ∃ pre cur post, ls = pre ++ .event (.subscribe (v.of c) cur) :: post ∧ Connected pre

variable {ls : List ServerLabel} {l : ServerLabel} {c : OtaChar}

theorem connected_snoc : Connected (ls ++ [l]) ↔
    Connected ls ∨ ∃ status conn, l = .event (.connect status conn) := by
  simp only [Connected, List.mem_append, List.mem_singleton, exists_or]
  constructor <;> rintro (h | ⟨st, cn, h⟩) <;> first | exact .inl h | exact .inr ⟨st, cn, h.symm⟩

theorem subscribed_snoc : Subscribed v c (ls ++ [l]) ↔ Subscribed v c ls ∨
    ((∃ cur, l = .event (.subscribe (v.of c) cur)) ∧ Connected ls) := by
  constructor
  · rintro ⟨pre, cur, post, h, hc⟩
    rcases List.eq_nil_or_concat post with rfl | ⟨post, x, rfl⟩
    · obtain ⟨hls, hl⟩ := List.append_inj' h rfl
      exact .inr ⟨⟨cur, List.singleton_inj.mp hl⟩, hls ▸ hc⟩
    · have h' : ls ++ [l] = (pre ++ .event (.subscribe (v.of c) cur) :: post) ++ [x] := by
        simpa using h
      exact .inl ⟨pre, cur, post, (List.append_inj' h' rfl).1, hc⟩
  · rintro (⟨pre, cur, post, rfl, hc⟩ | ⟨⟨cur, rfl⟩, hc⟩)
    · exact ⟨pre, cur, post ++ [l], by simp, hc⟩
    · exact ⟨ls, cur, [], rfl, hc⟩

theorem lastConn_snoc : lastConn (ls ++ [l]) = match l with
    | .event (.connect 0 conn) => conn
    | _ => lastConn ls := by
  simp [lastConn, List.foldl_append]

theorem Subscribed.mono {ls' : List ServerLabel} (h : Subscribed v c ls) (hp : ls <+: ls') :
    Subscribed v c ls' := by
  obtain ⟨pre, cur, post, rfl, hc⟩ := h
  obtain ⟨rest, rfl⟩ := hp
  exact ⟨pre, cur, post ++ rest, by simp, hc⟩

/-! ## The invariant -/

/-- A frame with the attribute that it goes to, after the run `ls`: of a packet or of a command, and
the characteristic is subscribed. -/
def Answer (v : Handles) (ls : List ServerLabel) (attrHandle : Nat) (frame : List UInt8) : Prop :=
  (attrHandle = v.recvFw ∧ PacketFrame frame ∧ Subscribed v .recvFw ls) ∨
    (attrHandle = v.cmd ∧ CommandFrame frame ∧ Subscribed v .cmd ls)

/-- Not a write to the firmware or to the command characteristic. -/
def ServerLabel.Quiet (v : Handles) : ServerLabel → Prop
  | .event (.access attrHandle (.write _ _)) => attrHandle ≠ v.recvFw ∧ attrHandle ≠ v.cmd
  | _ => True

namespace Server

/-- The server after the run `ls`. -/
structure Ok (v : Handles) (ls : List ServerLabel) (s : Server) : Prop where
  table : (s.otaHandleTable = v ∧ Connected ls) ∨
    (s.otaHandleTable = ⟨0, 0, 0, 0⟩ ∧ ¬Connected ls)
  conn : s.connectionHandle = lastConn ls
  flags : ∀ c, c ≠ .invalid →
    (s.dev.comp.otaNotification.enabled c = true ↔ Subscribed v c ls)
  due : ∀ frame ∈ s.dev.due, s.attributeHandle = v.recvFw ∧ PacketFrame frame ∧
    Subscribed v .recvFw ls

/-- The step `l` after the run `ls`: the frames that it sends go to the latest connection, as
answers. -/
structure Next (v : Handles) (ls : List ServerLabel) (l : ServerLabel) (s s' : Server) : Prop where
  ok : Ok v (ls ++ [l]) s'
  sent : ∃ new, s'.sent = s.sent ++ new ∧
    ∀ x ∈ new, x.connHandle = lastConn ls ∧ Answer v ls x.attrHandle x.frame

variable {s s' : Server} {d : Device}

/-- The characteristic of a handle in the server. -/
theorem Ok.find (h : Ok v ls s) (hv : v.Proper) {handle : Nat} (hh : handle ≠ 0)
    (hc : c ≠ .invalid) :
    findOtaCharAndDesrByHandle s.otaHandleTable handle = c ↔ handle = v.of c ∧ Connected ls := by
  rcases h.table with ⟨ht, hcon⟩ | ⟨ht, hcon⟩ <;> rw [ht]
  · rw [findOtaChar_iff hv hc]
    exact (and_iff_left hcon).symm
  · rw [findOtaChar_zero hh]
    exact ⟨fun he => absurd he.symm hc, fun he => absurd he.2 hcon⟩

/-- A step of the device that is no `CONNECT`. -/
theorem Ok.move (h : Ok v ls s) (attr : Nat)
    (hconn : ∀ status conn, l ≠ .event (.connect status conn))
    (hflags : ∀ c, c ≠ .invalid →
      (d.comp.otaNotification.enabled c = true ↔ Subscribed v c (ls ++ [l])))
    (hdue : ∀ frame ∈ d.due, attr = v.recvFw ∧ PacketFrame frame ∧
      Subscribed v .recvFw ls)
    (hsent : ∀ frame ∈ s.dev.sent d, Answer v ls attr frame) :
    Next v ls l s (moveTo { s with attributeHandle := attr } d) := by
  have hcon : Connected (ls ++ [l]) ↔ Connected ls := by
    rw [connected_snoc]
    exact or_iff_left fun ⟨st, cn, he⟩ => hconn st cn he
  have hlast : lastConn (ls ++ [l]) = lastConn ls := by
    rw [lastConn_snoc]
    split
    · exact absurd rfl (hconn _ _)
    · rfl
  refine ⟨⟨?_, ?_, hflags, fun frame hf => ?_⟩, _, rfl, fun x hx => ?_⟩
  · rw [hcon]
    exact h.table
  · rw [hlast]
    exact h.conn
  · obtain ⟨h1, h2, h3⟩ := hdue frame hf
    exact ⟨h1, h2, h3.mono (List.prefix_append _ _)⟩
  · obtain ⟨frame, hf, rfl⟩ := List.mem_map.mp hx
    exact ⟨h.conn, hsent frame hf⟩

/-- A frame is sent if the flag of its characteristic is set. -/
theorem mem_notification {comp : Component} {char : OtaChar} {frame f : List UInt8} :
    f ∈ (espBleOtaNotificationData comp char frame).toList ↔
      f = frame ∧ comp.otaNotification.enabled char = true := by
  unfold espBleOtaNotificationData NotificationCheck.enabled
  cases char <;> dsimp only <;> split <;> simp_all

/-- A label that is no `SUBSCRIBE` adds none. -/
theorem Ok.flags_keep (h : Ok v ls s) (hl : ∀ attr cur, l ≠ .event (.subscribe attr cur))
    (hn : d.comp.otaNotification = s.dev.comp.otaNotification) (c : OtaChar) (hc : c ≠ .invalid) :
    d.comp.otaNotification.enabled c = true ↔ Subscribed v c (ls ++ [l]) := by
  rw [hn, h.flags c hc, subscribed_snoc]
  exact (or_iff_left fun ⟨⟨cur, he⟩, _⟩ => hl _ cur he).symm

theorem due_idle (hn : d.nimble = .idle) : d.due = [] := by rw [Device.due, hn]

/-- An access that does nothing. -/
theorem Ok.stay (h : Ok v ls s) (hn : s.dev.nimble = .idle)
    (hconn : ∀ status conn, l ≠ .event (.connect status conn))
    (hl : ∀ attr cur, l ≠ .event (.subscribe attr cur)) (attr : Nat) :
    Next v ls l s { s with attributeHandle := attr } := by
  have hmove : moveTo { s with attributeHandle := attr } s.dev =
      { s with attributeHandle := attr } := by
    simp [moveTo, Device.sent_quiet]
  rw [← hmove]
  refine h.move _ hconn (h.flags_keep hl rfl) ?_ ?_
  · simp [due_idle hn]
  · simp [Device.sent_quiet]

/-- A packet. -/
theorem Ok.packet (h : Ok v ls s) (hv : v.Proper) {attr : Nat} (hattr : attr ≠ 0)
    (hfind : findOtaCharAndDesrByHandle s.otaHandleTable attr = .recvFw) {om : List UInt8}
    (hst : s.dev.bleStep (.packet om) = some d)
    (hconn : ∀ status conn, l ≠ .event (.connect status conn))
    (hl : ∀ attr cur, l ≠ .event (.subscribe attr cur)) :
    Next v ls l s (moveTo { s with attributeHandle := attr } d) := by
  obtain ⟨rfl, -⟩ := (h.find hv hattr (by simp)).mp hfind
  obtain ⟨hcomp, hsent⟩ := Device.packet_sent hst
  have hframe : ∀ f ∈ s.dev.sent d ++ d.due, PacketFrame f ∧ Subscribed v .recvFw ls := by
    intro f hf
    rw [hsent] at hf
    rcases ho : recvFwWrite om s.dev.comp with ⟨c', ⟨frame, err⟩ | ⟨sector, data, frame⟩⟩
    · rw [ho] at hf
      obtain ⟨f₀, hf₀, hf⟩ := List.mem_flatMap.mp hf
      obtain ⟨rfl, hon⟩ := mem_notification.mp hf
      exact ⟨recvFwWrite_nack ho f (Option.mem_toList.mp hf₀), (h.flags _ (by simp)).mp hon⟩
    · have hok := recvFwWrite_ok om s.dev.comp
      rw [ho] at hf hok
      obtain ⟨rfl, hon⟩ := mem_notification.mp hf
      obtain ⟨b0, b1, he⟩ := hok.2
      exact ⟨⟨b0, b1, .inl he⟩, (h.flags _ (by simp)).mp hon⟩
  refine h.move _ hconn (h.flags_keep hl ?_) (fun f hf => ⟨rfl, ?_⟩) fun f hf => .inl ⟨rfl, ?_⟩
  · rw [hcomp]
    exact (recvFwWrite_frame om s.dev.comp).2.2
  · exact hframe f (List.mem_append_right _ hf)
  · exact hframe f (List.mem_append_left _ hf)

/-- The answer to a command. -/
theorem command_frame {om : List UInt8} {malloc : Bool} {comp : Component} {frame : List UInt8}
    (h : (bleOtaStartWriteChr om malloc comp).2 = .started frame ∨
      (bleOtaStartWriteChr om malloc comp).2 = .stopped frame) : CommandFrame frame := by
  unfold bleOtaStartWriteChr at h
  split at h
  · rcases h with h | h <;> cases h
    exact ⟨0x01, .inl rfl, rfl⟩
  · split at h <;> rcases h with h | h <;> cases h
    exact ⟨0x02, .inr rfl, rfl⟩

/-- A command. -/
theorem Ok.command (h : Ok v ls s) (hv : v.Proper) {attr : Nat} (hattr : attr ≠ 0)
    (hfind : findOtaCharAndDesrByHandle s.otaHandleTable attr = .cmd) {om : List UInt8}
    {malloc : Bool} (hst : s.dev.bleStep (.command om malloc) = some d)
    (hconn : ∀ status conn, l ≠ .event (.connect status conn))
    (hl : ∀ attr cur, l ≠ .event (.subscribe attr cur)) :
    Next v ls l s (moveTo { s with attributeHandle := attr } d) := by
  obtain ⟨rfl, -⟩ := (h.find hv hattr (by simp)).mp hfind
  obtain ⟨hcomp, hdue, hsent⟩ := Device.command_sent hst
  refine h.move _ hconn (h.flags_keep hl ?_) (by simp [hdue]) fun f hf => .inr ⟨rfl, ?_⟩
  · rw [hcomp]
    exact Device.bleOtaStartWriteChr_notification om malloc s.dev.comp
  · rw [hsent] at hf
    cases ho : (bleOtaStartWriteChr om malloc s.dev.comp).2 with
    | started frame =>
      rw [ho] at hf
      obtain ⟨rfl, hon⟩ := mem_notification.mp hf
      exact ⟨command_frame (.inl ho), (h.flags _ (by simp)).mp hon⟩
    | stopped frame =>
      rw [ho] at hf
      obtain ⟨rfl, hon⟩ := mem_notification.mp hf
      exact ⟨command_frame (.inr ho), (h.flags _ (by simp)).mp hon⟩
    | ignored =>
      rw [ho] at hf
      cases hf

/-- An event is an access or a GAP event. It reaches an idle host task. -/
theorem event_cases {e : StackEvent} (hst : s.event v e = some s') : s.dev.nimble = .idle ∧
    ((∃ attr op, e = .access attr op ∧ attr ≠ 0 ∧ s.access attr op = some s') ∨
      ((∀ attr op, e ≠ .access attr op) ∧ (∀ attr cur, e = .subscribe attr cur → attr ≠ 0) ∧
        s.gap v e = some s')) := by
  unfold event at hst
  split at hst
  · cases hst
  next hidle =>
  refine ⟨not_not.mp hidle, ?_⟩
  cases e with
  | access attr op =>
    dsimp only at hst
    split at hst
    · cases hst
    next hattr => exact .inl ⟨attr, op, rfl, hattr, hst⟩
  | subscribe attr cur =>
    dsimp only at hst
    split at hst
    · cases hst
    next hattr =>
      refine .inr ⟨by rintro _ _ ⟨⟩, ?_, hst⟩
      rintro _ _ ⟨⟩
      exact hattr
  | connect | disconnect | otherGap =>
    exact .inr ⟨by rintro _ _ ⟨⟩, by rintro _ _ ⟨⟩, hst⟩

/-- An access of a characteristic. -/
theorem Ok.accessed (h : Ok v ls s) (hv : v.Proper) (hn : s.dev.nimble = .idle) {attr : Nat}
    (hattr : attr ≠ 0) {op : AccessOp} (hst : s.access attr op = some s') :
    Next v ls (.event (.access attr op)) s s' := by
  unfold access at hst
  dsimp only at hst
  split at hst
  next om malloc =>
    split at hst
    next hfind =>
      obtain ⟨d, hd, rfl⟩ := Option.map_eq_some_iff.mp hst
      exact h.packet hv hattr hfind hd (by rintro _ _ ⟨⟩) (by rintro _ _ ⟨⟩)
    next hfind =>
      obtain ⟨d, hd, rfl⟩ := Option.map_eq_some_iff.mp hst
      exact h.command hv hattr hfind hd (by rintro _ _ ⟨⟩) (by rintro _ _ ⟨⟩)
    all_goals
      cases hst
      exact h.stay hn (by rintro _ _ ⟨⟩) (by rintro _ _ ⟨⟩) attr
  all_goals
    cases hst
    exact h.stay hn (by rintro _ _ ⟨⟩) (by rintro _ _ ⟨⟩) attr

/-- A GAP event. -/
theorem Ok.gap (h : Ok v ls s) (hv : v.Proper) (hn : s.dev.nimble = .idle) {e : StackEvent}
    (hacc : ∀ attr op, e ≠ .access attr op) (hattr : ∀ attr cur, e = .subscribe attr cur → attr ≠ 0)
    (hst : s.gap v e = some s') : Next v ls (.event e) s s' := by
  cases e with
  | access attr op => exact absurd rfl (hacc attr op)
  | connect status conn =>
    cases hst
    have hcon : Connected (ls ++ [.event (.connect status conn)]) :=
      connected_snoc.mpr (.inr ⟨status, conn, rfl⟩)
    refine ⟨⟨.inl ⟨rfl, hcon⟩, ?_, h.flags_keep (by rintro _ _ ⟨⟩) rfl, ?_⟩, [], ?_, by simp⟩
    · rw [lastConn_snoc]
      by_cases hz : status = 0
      · subst hz
        rfl
      · rw [if_neg hz, h.conn]
        split
        · next he => cases he; exact absurd rfl hz
        · rfl
    · simp [due_idle hn]
    · exact (List.append_nil _).symm
  | disconnect =>
    obtain ⟨d, hd, rfl⟩ := Option.map_eq_some_iff.mp hst
    obtain ⟨hsent, hdue⟩ := Device.quiet_sent (.inl rfl) hd
    have hcomp : d.comp = s.dev.comp := by
      cases Device.bleStep_act (B := .otaSlots) hd
      rfl
    exact h.move s.attributeHandle (by rintro _ _ ⟨⟩)
      (h.flags_keep (by rintro _ _ ⟨⟩) (by rw [hcomp])) (by simp [hdue]) (by simp [hsent])
  | subscribe attr cur =>
    obtain ⟨d, hd, rfl⟩ := Option.map_eq_some_iff.mp hst
    obtain ⟨hsent, hdue⟩ := Device.quiet_sent (.inr ⟨_, rfl⟩) hd
    have hcomp : d.comp.otaNotification = s.dev.comp.otaNotification.enable
        (findOtaCharAndDesrByHandle s.otaHandleTable attr) := by
      cases Device.bleStep_act (B := .otaSlots) hd
      rfl
    refine h.move s.attributeHandle (by rintro _ _ ⟨⟩) (fun c hc => ?_)
      (by simp [hdue]) (by simp [hsent])
    rw [hcomp, NotificationCheck.enabled_enable _ _ hc, h.flags c hc, subscribed_snoc,
      eq_comm, h.find hv (hattr attr cur rfl) hc]
    refine or_congr Iff.rfl (and_congr_left fun _ => ⟨?_, ?_⟩)
    · rintro rfl
      exact ⟨cur, rfl⟩
    · rintro ⟨_, he⟩
      cases he
      rfl
  | otherGap =>
    cases hst
    exact h.stay hn (by rintro _ _ ⟨⟩) (by rintro _ _ ⟨⟩) s.attributeHandle

/-- **Every step** keeps the invariant. -/
theorem Ok.step (h : Ok v ls s) (hv : v.Proper) (hst : (system B v).step l s = some s') :
    Next v ls l s s' := by
  cases l with
  | event e =>
    rcases event_cases hst with ⟨hidle, ⟨attr, op, rfl, hattr, hst⟩ | ⟨hacc, hsub, hst⟩⟩
    · exact h.accessed hv hidle hattr hst
    · exact h.gap hv hidle hacc hsub hst
  | nimble n =>
    obtain ⟨d, hd, rfl⟩ := Option.map_eq_some_iff.mp hst
    obtain ⟨hsent, hcomp⟩ := Device.nimbleStep_sent hd
    have hframe : ∀ f ∈ s.dev.sent d ++ d.due, s.attributeHandle = v.recvFw ∧ PacketFrame f ∧
        Subscribed v .recvFw ls := by
      rw [hsent]
      exact h.due
    exact h.move s.attributeHandle (by rintro _ _ ⟨⟩)
      (h.flags_keep (by rintro _ _ ⟨⟩) (by rw [hcomp]))
      (fun f hf => hframe f (List.mem_append_right _ hf))
      (fun f hf => .inl (hframe f (List.mem_append_left _ hf)))
  | pump n idf =>
    obtain ⟨d, hd, rfl⟩ := Option.map_eq_some_iff.mp hst
    obtain ⟨hsent, hcomp, hn⟩ := Device.pumpStep_sent (B := B) hd
    have hdue : d.due = s.dev.due := by simp only [Device.due, hn, hcomp]
    exact h.move s.attributeHandle (by rintro _ _ ⟨⟩)
      (h.flags_keep (by rintro _ _ ⟨⟩) (by rw [hcomp]))
      (by rw [hdue]; exact h.due) (by simp [hsent])

theorem Ok.init : Ok v [] .init where
  table := .inr ⟨rfl, by simp [Connected]⟩
  conn := rfl
  flags c hc := by cases c <;> simp_all [Server.init, Device.init, Component.zero,
    NotificationCheck.enabled, Subscribed]
  due := by simp [Server.init, Device.init, Device.due]

/-- The invariant after a run. -/
theorem Ok.exec (hv : v.Proper) (h : (system B v).exec ls .init = some s) : Ok v ls s := by
  induction ls using List.reverseRecOn generalizing s with
  | nil =>
    cases h
    exact .init
  | append_singleton ls l ih =>
    obtain ⟨s₁, h₁, h₂⟩ := Lib.Lts.exec_snoc.mp h
    exact ((ih h₁).step hv h₂).ok

/-! ## The device behind the server -/

/-- The step of the device that a step of the server is, if it is one: a write to the firmware
characteristic is a packet, one to the command characteristic a command; a `SUBSCRIBE` sets the flag
of its characteristic. -/
def deviceLabel (s : Server) : ServerLabel → Option DevLabel
  | .event (.access attrHandle (.write om malloc)) =>
    match findOtaCharAndDesrByHandle s.otaHandleTable attrHandle with
    | .recvFw => some (.ble (.packet om))
    | .cmd => some (.ble (.command om malloc))
    | .otaStatus | .cus | .invalid => none
  | .event (.subscribe attrHandle _) =>
    some (.ble (.subscribe (s.dev.comp.otaNotification.enable
      (findOtaCharAndDesrByHandle s.otaHandleTable attrHandle))))
  | .event .disconnect => some (.ble .disconnect)
  | .event _ => none
  | .nimble n => some (.nimble n)
  | .pump n idf => some (.pump n idf)

/-- An event of the server that goes to the device. -/
theorem exec_ble {a : Server} {e : BleEvent} (ha : a.dev = s.dev)
    (hst : (a.dev.bleStep e).map a.moveTo = some s') :
    (Device.system B).exec [.ble e] s.dev = some s'.dev := by
  obtain ⟨d, hd, rfl⟩ := Option.map_eq_some_iff.mp hst
  exact Lib.Lts.exec_cons.mpr ⟨d, ha ▸ hd, rfl⟩

theorem access_label {attr : Nat} {op : AccessOp} (hst : s.access attr op = some s') :
    (Device.system B).exec (s.deviceLabel (.event (.access attr op))).toList s.dev =
      some s'.dev := by
  unfold access at hst
  cases op with
  | write om malloc =>
    dsimp only at hst
    rw [deviceLabel]
    cases hf : findOtaCharAndDesrByHandle s.otaHandleTable attr with
    | recvFw =>
      rw [hf] at hst
      exact exec_ble (a := { s with attributeHandle := attr }) rfl hst
    | cmd =>
      rw [hf] at hst
      exact exec_ble (a := { s with attributeHandle := attr }) rfl hst
    | otaStatus | cus | invalid =>
      rw [hf] at hst
      cases hst
      rfl
  | read | other =>
    cases hst
    rfl

theorem gap_label {e : StackEvent} (hacc : ∀ attr op, e ≠ .access attr op)
    (hst : s.gap v e = some s') :
    (Device.system B).exec (s.deviceLabel (.event e)).toList s.dev = some s'.dev := by
  cases e with
  | access attr op => exact absurd rfl (hacc attr op)
  | disconnect | subscribe => exact exec_ble rfl hst
  | connect | otherGap =>
    cases hst
    rfl

/-- Every step of the server is the step of the device that `deviceLabel` says. -/
theorem step_label {l : ServerLabel} (hst : (system B v).step l s = some s') :
    (Device.system B).exec (s.deviceLabel l).toList s.dev = some s'.dev := by
  cases l with
  | event e =>
    rcases event_cases hst with ⟨-, ⟨attr, op, rfl, -, hst⟩ | ⟨hacc, -, hst⟩⟩
    · exact access_label hst
    · exact gap_label hacc hst
  | nimble n =>
    obtain ⟨d, hd, rfl⟩ := Option.map_eq_some_iff.mp hst
    exact Lib.Lts.exec_cons.mpr ⟨d, hd, rfl⟩
  | pump n idf =>
    obtain ⟨d, hd, rfl⟩ := Option.map_eq_some_iff.mp hst
    exact Lib.Lts.exec_cons.mpr ⟨d, hd, rfl⟩

theorem labelSim : Lib.Lts.LabelSim (system B v) (Device.system B) Server.dev deviceLabel :=
  .of_label (fun s hs => by cases hs; rfl) fun _ _ _ hst => step_label hst

/-- The steps of the device in the run `ls` of the server. -/
def devRun (B : Board) (v : Handles) (ls : List ServerLabel) : List DevLabel :=
  (system B v).labels deviceLabel ls .init

theorem exec_dev (h : (system B v).exec ls .init = some s) :
    (Device.system B).exec (devRun B v ls) .init = some s.dev :=
  labelSim.exec h

/-! ## The results -/

/-- **The server simulates the device**: a step of the server is the step of the device that
`deviceLabel` says, or leaves the device as it is, whatever the handles. So a run of the server is a
run of the device. -/
theorem dev_sim : Lib.Lts.LabelSim (system B v) (Device.system B) Server.dev deviceLabel ∧
    ∀ {ls : List ServerLabel} {s : Server}, (system B v).exec ls .init = some s →
      (Device.system B).exec (devRun B v ls) .init = some s.dev :=
  ⟨labelSim, exec_dev⟩

/-- A packet comes from a write to the firmware characteristic. -/
theorem write_of_packet (h : Ok v ls s) (hv : v.Proper) (hst : (system B v).step l s = some s')
    {om : List UInt8} (hl : s.deviceLabel l = some (.ble (.packet om))) :
    ∃ malloc, l = .event (.access v.recvFw (.write om malloc)) := by
  cases l with
  | nimble n | pump n idf => cases hl
  | event e =>
    cases e with
    | access attr op =>
      cases op with
      | read | other => cases hl
      | write om' malloc =>
        have hattr : attr ≠ 0 := by
          have hev : s.event v (.access attr (.write om' malloc)) = some s' := hst
          rcases event_cases hev with ⟨-, ⟨_, _, he, hattr, -⟩ | ⟨hacc, -, -⟩⟩
          · cases he
            exact hattr
          · exact absurd rfl (hacc _ _)
        rw [deviceLabel] at hl
        cases hf : findOtaCharAndDesrByHandle s.otaHandleTable attr with
        | recvFw =>
          rw [hf] at hl
          cases hl
          obtain ⟨rfl, -⟩ := (h.find hv hattr (by simp)).mp hf
          exact ⟨malloc, rfl⟩
        | cmd | otaStatus | cus | invalid =>
          rw [hf] at hl
          cases hl
    | connect | disconnect | subscribe | otherGap => cases hl

/-- The packets of the device were written to the firmware characteristic. -/
theorem packet_written (hv : v.Proper) (h : (system B v).exec ls .init = some s) {om : List UInt8}
    (hom : .packet om ∈ Device.bleEvents (devRun B v ls)) :
    ∃ malloc, .event (.access v.recvFw (.write om malloc)) ∈ ls := by
  induction ls using List.reverseRecOn generalizing s with
  | nil => cases hom
  | append_singleton ls l ih =>
    obtain ⟨s₁, h₁, h₂⟩ := Lib.Lts.exec_snoc.mp h
    have hsnoc : devRun B v (ls ++ [l]) = devRun B v ls ++ (s₁.deviceLabel l).toList :=
      Lib.Lts.labels_snoc h₁
    rw [hsnoc, Device.bleEvents, List.filterMap_append, List.mem_append] at hom
    rcases hom with hom | hom
    · obtain ⟨malloc, hm⟩ := ih h₁ hom
      exact ⟨malloc, List.mem_append_left _ hm⟩
    · obtain ⟨k, hk, he⟩ := List.mem_filterMap.mp hom
      have hkom : k = .ble (.packet om) := by
        cases k with
        | ble e => exact congrArg DevLabel.ble (Option.some.inj he)
        | nimble | pump => cases he
      have hlab : s₁.deviceLabel l = some (.ble (.packet om)) := by
        rw [← hkom]
        exact Option.mem_toList.mp hk
      obtain ⟨malloc, rfl⟩ := write_of_packet (Ok.exec hv h₁) hv h₂ hlab
      exact ⟨malloc, by simp⟩

/-- **A sector is what was written**: only a write to the firmware characteristic gives the firmware
callback a sector. It is made of the data of that write and of the packets before it, all of them
written to the same characteristic, whichever connections they came from. -/
theorem sector_written (hv : v.Proper) (h : (system B v).exec ls .init = some s)
    (hst : (system B v).step l s = some s') (hidle : s.dev.nimble = .idle)
    {sector delivered frame : List UInt8}
    (hn : s'.dev.nimble = .recvCheck sector delivered frame) :
    ∃ om malloc, l = .event (.access v.recvFw (.write om malloc)) ∧
      Device.MadeOf (Device.bleEvents (devRun B v ls)) s.dev.comp.curSector s.dev.comp.curPacket om
        sector ∧
      ∀ x, .packet x ∈ Device.bleEvents (devRun B v ls) →
        ∃ malloc, .event (.access v.recvFw (.write x malloc)) ∈ ls := by
  have hdev := step_label (B := B) hst
  cases hk : s.deviceLabel l with
  | none =>
    rw [hk] at hdev
    have hsame : s'.dev = s.dev := (Option.some.inj hdev).symm
    rw [hsame, hidle] at hn
    cases hn
  | some k =>
    rw [hk] at hdev
    obtain ⟨d, hstep, hd⟩ := Lib.Lts.exec_cons.mp hdev
    cases hd
    obtain ⟨om, rfl, hble⟩ := Device.packet_of_recvCheck hidle hstep hn
    obtain ⟨malloc, rfl⟩ := write_of_packet (Ok.exec hv h) hv hst hk
    exact ⟨om, malloc, rfl, (Device.made_of_end (exec_dev h) hble hn).1,
      fun x hx => packet_written hv h hx⟩

/-- **A subscription lasts**: the flag of a characteristic is set in a run exactly if there was a
`SUBSCRIBE` for it after a `CONNECT`; what the event says about the notifications, a later
unsubscription, a disconnect or another client do not matter. -/
theorem enabled_iff (hv : v.Proper) (h : (system B v).exec ls .init = some s)
    (hc : c ≠ .invalid) :
    s.dev.comp.otaNotification.enabled c = true ↔ Subscribed v c ls :=
  (Ok.exec hv h).flags c hc

/-- **Where the frames go**: at each step of a run, to the latest connection; the answers to packets
to the firmware characteristic, the ones to commands to the command characteristic, and only if
there was a subscription. -/
theorem sent_to (hv : v.Proper) (h : (system B v).exec ls .init = some s)
    (hst : (system B v).step l s = some s') :
    ∃ new, s'.sent = s.sent ++ new ∧
      ∀ x ∈ new, x.connHandle = lastConn ls ∧ Answer v ls x.attrHandle x.frame :=
  ((Ok.exec hv h).step hv hst).sent

/-- The handles of a server. -/
def someHandles : Handles := ⟨3, 6, 9, 12⟩

theorem someHandles_proper : someHandles.Proper := ⟨by decide, by decide⟩

/-- The server after the steps `ls`. -/
def after (ls : List ServerLabel) : Server := (system .otaSlots someHandles).run ls .init

/-- A client subscribes and unsubscribes, and its connection ends. -/
def unsubscribed : List ServerLabel :=
  [.event (.connect 0 1), .event (.subscribe 9 true), .event (.subscribe 9 false),
    .event .disconnect]

theorem enabled_iff_unsubscribed : Subscribed someHandles .cmd unsubscribed :=
  (enabled_iff (s := after unsubscribed) (B := .otaSlots) someHandles_proper rfl (by simp)).mp rfl

/-- The next client connects. -/
def nextClient : List ServerLabel := unsubscribed ++ [.event (.connect 0 2)]

/-- Its Start. -/
def nextStart : ServerLabel :=
  .event (.access 9 (.write [0x01, 0x00, 0x08, 0x00, 0x00, 0x00] true))

/-- It gets the answer to its Start without a subscription of its own. -/
theorem sent_to_nextStart : (after (nextClient ++ [nextStart])).sent.map (·.connHandle) = [2] ∧
    ∃ new, (after (nextClient ++ [nextStart])).sent = (after nextClient).sent ++ new ∧
      ∀ x ∈ new, x.connHandle = lastConn nextClient ∧
        Answer someHandles nextClient x.attrHandle x.frame :=
  ⟨rfl, sent_to (l := nextStart) (B := .otaSlots) someHandles_proper rfl rfl⟩

/-- What the device sees of both clients. -/
theorem dev_sim_nextStart :
    devRun .otaSlots someHandles (nextClient ++ [nextStart]) =
        [.ble (.subscribe (NotificationCheck.mk false false true false)),
          .ble (.subscribe (NotificationCheck.mk false false true false)),
          .ble .disconnect, Device.startCommand 8] ∧
      (Device.system .otaSlots).exec
          (devRun .otaSlots someHandles (nextClient ++ [nextStart])) .init =
        some (after (nextClient ++ [nextStart])).dev :=
  ⟨rfl, dev_sim.2 rfl⟩

/-! ## What ends a transfer of the component -/

/-- The components differ in the subscriptions only. -/
def SameTransfer (s s' : Server) : Prop :=
  s'.dev.comp = { s.dev.comp with otaNotification := s'.dev.comp.otaNotification }

theorem SameTransfer.trans {s'' : Server} (h : SameTransfer s s') (h' : SameTransfer s' s'') :
    SameTransfer s s'' := by
  unfold SameTransfer at *
  rw [h', h]

theorem Ok.quiet (h : Ok v ls s) (hv : v.Proper) (hq : l.Quiet v)
    (hst : (system B v).step l s = some s') : SameTransfer s s' := by
  have hmove {a : Server} {d : Device} (hd : d.comp = { s.dev.comp with
      otaNotification := d.comp.otaNotification }) : SameTransfer s (a.moveTo d) := hd
  cases l with
  | event e =>
    rcases event_cases hst with ⟨-, ⟨attr, op, rfl, hattr, hst⟩ | ⟨-, -, hst⟩⟩
    · unfold access at hst
      dsimp only at hst
      split at hst
      next om malloc =>
        have h1 : findOtaCharAndDesrByHandle s.otaHandleTable attr ≠ .recvFw :=
          fun hf => hq.1 ((h.find hv hattr (by simp)).mp hf).1
        have h2 : findOtaCharAndDesrByHandle s.otaHandleTable attr ≠ .cmd :=
          fun hf => hq.2 ((h.find hv hattr (by simp)).mp hf).1
        split at hst
        next hf => exact absurd hf h1
        next hf => exact absurd hf h2
        all_goals cases hst; exact rfl
      all_goals cases hst; exact rfl
    · cases e with
      | disconnect | subscribe =>
        obtain ⟨d, hd, rfl⟩ := Option.map_eq_some_iff.mp hst
        cases Device.bleStep_act (B := .otaSlots) hd
        exact hmove rfl
      | connect | access | otherGap => cases hst; exact rfl
  | nimble n =>
    obtain ⟨d, hd, rfl⟩ := Option.map_eq_some_iff.mp hst
    exact hmove (by rw [(Device.nimbleStep_sent hd).2])
  | pump n idf =>
    obtain ⟨d, hd, rfl⟩ := Option.map_eq_some_iff.mp hst
    exact hmove (by rw [(Device.pumpStep_sent (B := B) hd).2.1])

/-- **Only writes to the firmware and to the command characteristic change a transfer**: without
one the Start flag, the sector, the packet, the buffer and the declared length stay as they are,
through disconnects, new connections, subscriptions and other accesses, and whatever the two tasks
do. -/
theorem transfer_kept {pre : List ServerLabel} (hv : v.Proper)
    (h : (system B v).exec pre .init = some s) (hq : ∀ l ∈ ls, l.Quiet v)
    (he : (system B v).exec ls s = some s') : SameTransfer s s' := by
  induction ls generalizing pre s with
  | nil =>
    cases he
    exact rfl
  | cons l ls ih =>
    obtain ⟨s₁, h₁, h₂⟩ := Lib.Lts.exec_cons.mp he
    have hpre : (system B v).exec (pre ++ [l]) .init = some s₁ :=
      Lib.Lts.exec_snoc.mpr ⟨s, h, h₁⟩
    exact ((Ok.exec hv h).quiet hv (hq l (List.mem_cons_self ..)) h₁).trans
      (ih hpre (fun k hk => hq k (List.mem_cons_of_mem _ hk)) h₂)

/-- A client sends its Start and the first packet of a sector. -/
def firstPacket : List ServerLabel :=
  nextClient ++ nextStart :: List.replicate 4 (.nimble 0) ++
    [.event (.access 3 (.write [0x00, 0x00, 0x00, 0x07] true))]

/-- It leaves, and another client connects. -/
def handover : List ServerLabel := [.event .disconnect, .event (.connect 0 3)]

/-- The component still has the byte of the first client. -/
theorem transfer_kept_handover :
    SameTransfer (after firstPacket) (after (firstPacket ++ handover)) ∧
      (after (firstPacket ++ handover)).dev.comp.fwBuf = some [0x07] := by
  have hq : ∀ l ∈ handover, l.Quiet someHandles := by simp [handover, ServerLabel.Quiet]
  have hpre : (system .otaSlots someHandles).exec firstPacket .init =
      some (after firstPacket) := rfl
  exact ⟨transfer_kept someHandles_proper hpre hq rfl, rfl⟩

end Server

end BleOta
