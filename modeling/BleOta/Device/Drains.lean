import BleOta.Device.Completion

/-!
# The pump always comes to rest

`drains`: from every reachable state, whatever the IDF answers and however the receives cut the
ring, the steps of the pump alone lead to a state where it waits for an item and the ring is empty,
or to the restart. It does so within `Device.work` steps, and it never gets stuck before.

Each place of the pump has a rank (`PumpPc.rank`) that falls with every step but the one that takes
an item, and that one shortens the queue.
-/

namespace BleOta

open Lib (Ring)

/-- The rank of a place in a function of the sink. -/
def Pc.rank {α : Type} : Pc α → Nat
  | .writeFlash .. => 16
  | .writeAccount .. => 15
  | .finishEnd _ => 12
  | .finishLock .. => 11
  | .activateBoot .. => 9
  | .activateUndo _ | .activateClear _ => 8
  | .activateClose _ => 7

/-- The rank of a place of the pump. -/
def PumpPc.rank : PumpPc → Nat
  | .arrived => 20
  | .readLen => 19
  | .zeroLen | .opening _ => 18
  | .openFailed | .writing => 17
  | .inSink _ pc => pc.rank
  | .wrote _ => 14
  | .finishing => 13
  | .activating => 10
  | .timeout => 7
  | .aborting => 6
  | .giveBack => 5
  | .receive => 1
  | .halted => 0

/-- The rank of the place where the pump calls a function of the sink. -/
def Op.callRank {α : Type} : Op α → Nat
  | .sessionOpen _ => 18
  | .write _ _ => 17
  | .finish _ => 13
  | .activate _ _ => 10
  | .sessionAbort _ => 6

/-- The largest rank of a place after its return. -/
def Op.returnRank {α : Type} : Op α → Nat
  | .sessionOpen _ => 17
  | .write _ _ => 14
  | .finish _ => 10
  | .activate _ _ | .sessionAbort _ => 1

theorem Op.returnRank_lt {α : Type} (op : Op α) : op.returnRank < op.callRank := by
  cases op <;> simp [Op.returnRank, Op.callRank]

theorem Pump.after_rank (p : Pump) (o : SinkCall Cell) (r : Ret) :
    (p.after o (.inr r)).pc.rank ≤ o.1.returnRank := by
  obtain ⟨op, idf⟩ := o
  cases r with
  | restart => exact Nat.zero_le _
  | ret err e =>
    cases op with
    | sessionOpen cfg =>
      by_cases he : err = .ok <;> by_cases hz : e.getD 0 = 0 <;>
        simp [Pump.after, he, hz, PumpPc.rank, Op.returnRank]
    | finish =>
      by_cases he : err = .ok <;> simp [Pump.after, he, Pump.reset, PumpPc.rank, Op.returnRank]
    | write | activate | sessionAbort =>
      simp [Pump.after, Pump.reset, PumpPc.rank, Op.returnRank]

/-- The rank of the place of a section. -/
def sectRank {α : Type} (o : SinkCall α) : Option (Pc α) → Nat
  | none => o.1.callRank
  | some pc => pc.rank

/-- A section goes to a place of a smaller rank, or it returns. -/
theorem Sect.rank {α : Type} {B : Board} {o : SinkCall α} {p : Option (Pc α)} {s : SinkSt}
    {out : Out α} (hs : Sect B o p s out) (hpl : PlaceOk (placeAt o p) s) :
    (∃ pc, out.2.2 = .inl pc ∧ pc.rank < sectRank o p) ∨
      ∃ r, out.2.2 = .inr r ∧ o.1.returnRank < sectRank o p := by
  cases hs with
  | refused | notOpened | beginFails | begins | aborts | drops =>
    exact .inr ⟨_, rfl, o.1.returnRank_lt⟩
  | writes ho | finishes ho | activates ho =>
    refine .inl ⟨_, rfl, ?_⟩
    simp [sectRank, ho, Pc.rank, Op.callRank]
  | flashed | ended | bootFailed | booted | cleared =>
    exact .inl ⟨_, rfl, by simp [sectRank, Pc.rank]⟩
  | flashFails =>
    have ho := hpl.1
    exact .inr ⟨_, rfl, by rw [ho]; simp [sectRank, Pc.rank, Op.returnRank]⟩
  | staleAfter | accounts =>
    obtain ⟨⟨data, ho, -⟩, -⟩ := hpl
    exact .inr ⟨_, rfl, by rw [ho]; simp [sectRank, Pc.rank, Op.returnRank]⟩
  | endFailed | validated =>
    have ho := hpl.1
    exact .inr ⟨_, rfl, by rw [ho]; simp [sectRank, Pc.rank, Op.returnRank]⟩
  | undone =>
    obtain ⟨⟨r, ho⟩, -⟩ := hpl
    exact .inr ⟨_, rfl, by rw [ho]; simp [sectRank, Pc.rank, Op.returnRank]⟩
  | closed =>
    have ho := hpl.1
    exact .inr ⟨_, rfl, by rw [ho]; simp [sectRank, Pc.rank, Op.returnRank]⟩

theorem Sect.after_rank_lt {B : Board} {o : SinkCall Cell} {p : Option (Pc Cell)} {s : SinkSt}
    {out : Out Cell} (hs : Sect B o p s out) (hpl : PlaceOk (placeAt o p) s) {q : Pump} :
    (q.after o out.2.2).pc.rank < sectRank o p := by
  rcases hs.rank hpl with ⟨pc, hout, hlt⟩ | ⟨r, hout, hlt⟩
  · rw [hout]
    exact hlt
  · rw [hout]
    exact Nat.lt_of_le_of_lt (Pump.after_rank ..) hlt

namespace Device

variable {B : Board} {d d' : Device} {n : Nat} {idf : Idf}

/-- A bound of the steps that are left to the pump. -/
def work (d : Device) : Nat := 20 * d.ring.queue.length + d.pump.pc.rank

/-- The pump waits with an empty ring, or the device restarts. -/
def AtRest (d : Device) : Prop := Quiescent d ∨ d.pump.pc = .halted

/-- Only after the restart the pump has no step. -/
theorem pumpStep_isSome (B : Board) (n : Nat) (idf : Idf) (h : d.pump.pc ≠ .halted) :
    ∃ d', d.pumpStep B n idf = some d' := by
  unfold pumpStep
  dsimp only
  split
  all_goals first
    | exact ⟨_, rfl⟩
    | exact absurd (by assumption) h
    | (repeat' split
       all_goals exact ⟨_, rfl⟩)

/-- Nothing is out of the ring while the pump waits, outside of a flush. -/
theorem DevOk.held_none (h : DevOk d) (hpc : d.pump.pc = .receive)
    (hn : ∀ item, d.nimble ≠ .startReturn item) : d.ring.held = none := by
  refine h.free ?_ hn
  by_contra hd
  have := h.holds.mp hd
  rw [hpc] at this
  exact this

/-- **A step of the pump** that is not at rest leaves less work. -/
theorem pump_work (hr : (system B).Reach d) (hn : ∀ item, d.nimble ≠ .startReturn item)
    (hrest : ¬d.AtRest) (hst : (system B).step (.pump n idf) d = some d') :
    d'.work < d.work ∧ d'.nimble = d.nimble := by
  have hdev := DevOk.reach hr
  have hsame {p : Pump} (hp : p.pc.rank < d.pump.pc.rank) (ring : Ring Cell ringbufSize)
      (hq : ring.queue = d.ring.queue) :
      20 * ring.queue.length + p.pc.rank < d.work := by
    rw [hq, work]
    omega
  have hback : d.ring.giveBack.queue = d.ring.queue := rfl
  cases step_act hst with
  | @take n idf item ring hpc hrc =>
    obtain ⟨-, hq, hne, -⟩ := Ring.receive_eq_some hrc
    have hpos := List.length_pos_of_ne_nil hne
    refine ⟨?_, rfl⟩
    show 20 * ring.queue.length + 20 < 20 * d.ring.queue.length + d.pump.pc.rank
    rw [hpc, hq, List.length_append]
    show _ < 20 * (item.length + ring.queue.length) + 1
    omega
  | timesOut hpc hrc =>
    refine absurd (.inl ⟨hpc, ?_⟩) hrest
    exact (Ring.receive_eq_none hrc).resolve_left fun h => h (hdev.held_none hpc hn)
  | timeoutAbort hpc | timeoutBack hpc | lazyOpen hpc | toWrite hpc | unarmed hpc | zero hpc
    | length hpc | zeroBlock hpc | failBlock hpc =>
    exact ⟨hsame (by rw [hpc]; simp [PumpPc.rank]) _ rfl, rfl⟩
  | emptyItem hpc | giveBack hpc => exact ⟨hsame (by rw [hpc]; simp [PumpPc.rank]) _ hback, rfl⟩
  | wroteFail hpc => exact ⟨hsame (by rw [hpc]; simp [PumpPc.rank]) _ hback, rfl⟩
  | wroteOk hpc =>
    refine ⟨hsame ?_ _ hback, rfl⟩
    rw [hpc]
    dsimp only
    split <;> simp [PumpPc.rank]
  | @calls n idf op out hc _ hs =>
    have hok := (sinkOk hr).place
    rw [place_of_callOf hc] at hok
    have hrank : op.callRank = d.pump.pc.rank := by
      rcases d.pump.callOf_cases hc with ⟨_, hp, rfl⟩ | ⟨hp, rfl⟩ | ⟨hp, rfl⟩ | ⟨hp, rfl⟩ |
        ⟨hp, rfl⟩ <;> rw [hp] <;> rfl
    refine ⟨hsame (p := d.pump.after (op, idf) out.2.2) ?_ _ rfl, rfl⟩
    rw [← hrank]
    exact hs.after_rank_lt hok
  | @sections n idf o pc out hpc _ hs =>
    have hok := (sinkOk hr).place
    simp only [place, hpc] at hok
    refine ⟨hsame (p := d.pump.after o out.2.2) ?_ _ rfl, rfl⟩
    rw [hpc]
    exact hs.after_rank_lt hok

/-- **The pump comes to rest**: for any answers of the IDF, enough steps of the pump have a
beginning that is possible and ends at rest. -/
theorem drains (hr : (system B).Reach d) (hn : ∀ item, d.nimble ≠ .startReturn item)
    {ls : List DevLabel} (hls : ∀ l ∈ ls, ∃ n idf, l = .pump n idf) (hlen : d.work < ls.length) :
    ∃ pre d', pre <+: ls ∧ (system B).exec pre d = some d' ∧ d'.AtRest := by
  induction ls generalizing d with
  | nil => exact absurd hlen (Nat.not_lt_zero _)
  | cons l ls ih =>
    by_cases hrest : d.AtRest
    · exact ⟨[], d, List.nil_prefix, rfl, hrest⟩
    obtain ⟨n, idf, rfl⟩ := hls l (List.mem_cons_self ..)
    obtain ⟨d₁, h₁⟩ := pumpStep_isSome B n idf fun h => hrest (.inr h)
    have hst : (system B).step (.pump n idf) d = some d₁ := h₁
    obtain ⟨hlt, hn₁⟩ := pump_work hr hn hrest hst
    rw [List.length_cons] at hlen
    obtain ⟨pre, d', hpre, hex, hrest'⟩ := ih (.step _ hr hst) (hn₁ ▸ hn)
      (fun l hl => hls l (List.mem_cons_of_mem _ hl)) (by omega)
    refine ⟨.pump n idf :: pre, d', ?_, Lib.Lts.exec_cons.mpr ⟨d₁, hst, hex⟩, hrest'⟩
    exact List.cons_prefix_cons.mpr ⟨rfl, hpre⟩

/-- A sector of two bytes in the ring, which the receives cut into single bytes. -/
theorem drains_singleBytes :
    ∃ pre d', pre <+: List.replicate 50 (.pump 0 .allOk) ∧
      (system .otaSlots).exec pre (after (wholeStart 8 ++ acceptedSector 1 2)) = some d' ∧
      d'.AtRest := by
  have hr : (system .otaSlots).Reach (after (wholeStart 8 ++ acceptedSector 1 2)) :=
    Lib.Lts.run_reach (.init rfl) _
  refine drains hr (by rintro _ ⟨⟩) (fun l hl => ⟨0, .allOk, List.eq_of_mem_replicate hl⟩) ?_
  rw [List.length_replicate]
  exact show 41 < 50 by decide

end Device

end BleOta
