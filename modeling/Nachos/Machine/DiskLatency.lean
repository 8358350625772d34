/-
# Nachos.Machine.DiskLatency -- when a disk request is done

`TimeToSeek`, `ModuloDiff`, `ComputeLatency` and `UpdateLast` of `machine/disk.cc`, and the
two requests with the `Schedule` at their end.  The track buffer is compiled in.  Times are
`int`s that stay in range here, and `/` and `%` round towards zero.

`HeadPlaced` says where the head is when the latency has gone by; `head_placed` is that for
every request.  All that an earlier request leaves behind is `lastSector` and `bufferInit`,
and the point is that `bufferInit` is a boundary between two slots in every drive that can
be reached (`Reached.placed`).
-/
import Nachos.Lib.Rotation
import Nachos.FileSys.SynchDisk
import Nachos.Machine.Interrupt

namespace Nachos.Machine.DiskLatency

open Nachos.Lib.Bytes (Byte)
open Nachos.Lib.Rotation
open Nachos.Disk (numSectors)
open Nachos.Disk.SynchDisk (Request carryOut_eq)

set_option autoImplicit false

def SectorsPerTrack : Int := 32
def RotationTime : Int := 500
def SeekTime : Int := 500

/-- `class Disk`, with the sectors of its file. -/
structure Drive where
  sectors : Disk
  active : Bool
  lastSector : Int
  bufferInit : Int

/-- The request is a write. -/
def writing : Request → Bool
  | .read _ => false
  | .write _ _ => true

namespace Drive

/-- `Disk::Disk`. -/
def create (sectors : Disk) : Drive := ⟨sectors, false, 0, 0⟩

/-- `Disk::TimeToSeek`: what it returns, and `*rotation`. -/
def timeToSeek (d : Drive) (totalTicks newSector : Int) : Int × Int :=
  let newTrack := newSector.tdiv SectorsPerTrack
  let oldTrack := d.lastSector.tdiv SectorsPerTrack
  let seek := (newTrack - oldTrack).natAbs * SeekTime
  let over_ := (totalTicks + seek).tmod RotationTime
  (seek, if 0 < over_ then RotationTime - over_ else 0)

/-- `Disk::ModuloDiff`. -/
def moduloDiff (toSector fromSector : Int) : Int :=
  let toOffset := toSector.tmod SectorsPerTrack
  let fromOffset := fromSector.tmod SectorsPerTrack
  ((toOffset - fromOffset) + SectorsPerTrack).tmod SectorsPerTrack

/-- The condition in `Disk::ComputeLatency`: the track buffer applies. -/
def trackBufferApplies (d : Drive) (totalTicks newSector : Int) (writing : Bool) : Bool :=
  let (seek, rotation) := d.timeToSeek totalTicks newSector
  let timeAfter := totalTicks + seek + rotation
  writing == false && decide (seek = 0)
    && decide (moduloDiff newSector (d.bufferInit.tdiv RotationTime)
      < (timeAfter - d.bufferInit).tdiv RotationTime)

/-- `Disk::ComputeLatency`. -/
def computeLatency (d : Drive) (totalTicks newSector : Int) (writing : Bool) : Int :=
  let (seek, rotation) := d.timeToSeek totalTicks newSector
  let timeAfter := totalTicks + seek + rotation
  if d.trackBufferApplies totalTicks newSector writing then RotationTime
  else
    let rotation := rotation + moduloDiff newSector (timeAfter.tdiv RotationTime) * RotationTime
    seek + rotation + RotationTime

/-- `Disk::UpdateLast`. -/
def updateLast (d : Drive) (totalTicks newSector : Int) : Drive :=
  let (seek, rotate) := d.timeToSeek totalTicks newSector
  { d with
    bufferInit := if seek ≠ 0 then totalTicks + seek + rotate else d.bufferInit
    lastSector := newSector }

/-- `Disk::ReadRequest` and `Disk::WriteRequest`. -/
def request (d : Drive) (st : Interrupt.State) (r : Request) :
    Except Stop (Option (Nat → Byte) × Drive × Interrupt.State) := do
  let ticks := d.computeLatency st.totalTicks r.sectorNumber (writing r)
  ASSERT (!d.active)
  let (buffer, sectors) ← r.carryOut d.sectors
  let last := d.updateLast st.totalTicks r.sectorNumber
  let st ← Interrupt.schedule st ⟨ticks, .diskInt⟩
  return (buffer, { last with sectors, active := true }, st)

/-- `Disk::HandleInterrupt`. -/
def handleInterrupt (d : Drive) : Drive := { d with active := false }

end Drive

open Drive

/-- The sector is on the disk. -/
def OnDisk (sector : Int) : Prop := 0 ≤ sector ∧ sector < numSectors

/-- The drives that requests at any times leave behind. -/
inductive Reached : Drive → Prop where
  | create (sectors : Disk) : Reached (create sectors)
  | request {d d' : Drive} {st st' : Interrupt.State} {r : Request}
      {buffer : Option (Nat → Byte)} (reached : Reached d) (time : 0 ≤ st.totalTicks)
      (made : d.request st r = .ok (buffer, d', st')) : Reached d'
  | handleInterrupt {d : Drive} (reached : Reached d) : Reached d.handleInterrupt

theorem onDisk_of_carryOut {r : Request} {sectors : Disk}
    {after : Option (Nat → Byte) × Disk} (carried : r.carryOut sectors = .ok after) :
    OnDisk r.sectorNumber := by
  cases r with
  | read n =>
      obtain ⟨_, read, -⟩ := bind_eq_ok.mp carried
      obtain ⟨_, asserted, -⟩ := bind_eq_ok.mp read
      exact (of_decide_eq_true (ASSERT_eq_ok.mp asserted) : (Request.read n).InRange)
  | write n data =>
      obtain ⟨_, written, -⟩ := bind_eq_ok.mp carried
      obtain ⟨_, asserted, -⟩ := bind_eq_ok.mp written
      exact (of_decide_eq_true (ASSERT_eq_ok.mp asserted) : (Request.write n data).InRange)

/-! ## The three computations -/

section Computations

variable {d : Drive} {totalTicks newSector : Int}

/-- The tracks that the arm passes. -/
def trackDistance (d : Drive) (newSector : Int) : Int :=
  (newSector / SectorsPerTrack - d.lastSector / SectorsPerTrack).natAbs

theorem timeToSeek_spec (now : 0 ≤ totalTicks) (last : OnDisk d.lastSector)
    (new : OnDisk newSector) :
    (d.timeToSeek totalTicks newSector).1 = trackDistance d newSector * SeekTime ∧
    Boundary RotationTime (totalTicks + (d.timeToSeek totalTicks newSector).1)
      (totalTicks + (d.timeToSeek totalTicks newSector).1
        + (d.timeToSeek totalTicks newSector).2) := by
  have seek : (d.timeToSeek totalTicks newSector).1 = trackDistance d newSector * SeekTime := by
    rw [timeToSeek, trackDistance, Int.tdiv_eq_ediv_of_nonneg new.1,
      Int.tdiv_eq_ediv_of_nonneg last.1]
  refine ⟨seek, ?_⟩
  have later : 0 ≤ totalTicks + (d.timeToSeek totalTicks newSector).1 := by
    rw [seek, trackDistance, SeekTime]
    omega
  have remainder := Int.tmod_eq_emod_of_nonneg (b := RotationTime) later
  have pad := @boundary_pad RotationTime
    (totalTicks + (d.timeToSeek totalTicks newSector).1) (by decide)
  rw [← remainder] at pad
  exact pad

theorem moduloDiff_eq {fromSector : Int} (from_ : 0 ≤ fromSector) (new : 0 ≤ newSector) :
    moduloDiff newSector fromSector = delay SectorsPerTrack newSector fromSector := by
  have nonneg : 0 ≤ newSector % SectorsPerTrack - fromSector % SectorsPerTrack
      + SectorsPerTrack := by
    rw [SectorsPerTrack]
    omega
  rw [moduloDiff, Int.tmod_eq_emod_of_nonneg from_, Int.tmod_eq_emod_of_nonneg new,
    Int.tmod_eq_emod_of_nonneg nonneg, delay, Int.add_emod_right, ← Int.sub_emod]

/-- The track buffer begins at a boundary between two slots. -/
structure Placed (d : Drive) : Prop where
  lastSector : OnDisk d.lastSector
  nonneg : 0 ≤ d.bufferInit
  boundary : RotationTime ∣ d.bufferInit

theorem Placed.updateLast (placed : Placed d) (now : 0 ≤ totalTicks) (new : OnDisk newSector) :
    Placed (d.updateLast totalTicks newSector) := by
  obtain ⟨-, ⟨begins, after⟩, -⟩ := timeToSeek_spec now placed.lastSector new
  by_cases same : (d.timeToSeek totalTicks newSector).1 = 0
  · have kept : (d.updateLast totalTicks newSector).bufferInit = d.bufferInit :=
      if_neg (not_not_intro same)
    exact ⟨new, kept ▸ placed.nonneg, kept ▸ placed.boundary⟩
  · have moved : (d.updateLast totalTicks newSector).bufferInit = totalTicks
        + (d.timeToSeek totalTicks newSector).1 + (d.timeToSeek totalTicks newSector).2 :=
      if_pos same
    refine ⟨new, ?_, moved ▸ begins⟩
    rw [moved]
    have seek : 0 ≤ (d.timeToSeek totalTicks newSector).1 := by
      simp only [timeToSeek, SeekTime]
      omega
    omega

/-- Where the latency ends when the sector comes from the disk: the arm arrives at a boundary,
waits for the sector, and stays over it for one slot. -/
theorem computeLatency_of_disk {isWrite : Bool} (now : 0 ≤ totalTicks)
    (last : OnDisk d.lastSector) (new : OnDisk newSector)
    (disk : d.trackBufferApplies totalTicks newSector isWrite = false) :
    ∃ arrival, Boundary RotationTime (totalTicks + trackDistance d newSector * SeekTime) arrival ∧
      totalTicks + d.computeLatency totalTicks newSector isWrite =
        arrival + delay SectorsPerTrack newSector (arrival / RotationTime) * RotationTime
          + RotationTime := by
  obtain ⟨seek, arrives⟩ := timeToSeek_spec now last new
  have arrived := arrives.1.2
  rw [seek] at arrives arrived
  refine ⟨_, arrives, ?_⟩
  have nonneg : 0 ≤ totalTicks + trackDistance d newSector * SeekTime
      + (d.timeToSeek totalTicks newSector).2 := by
    rw [trackDistance, SeekTime] at arrived ⊢
    omega
  have slot : 0 ≤ (totalTicks + trackDistance d newSector * SeekTime
      + (d.timeToSeek totalTicks newSector).2) / RotationTime :=
    Int.ediv_nonneg nonneg (by decide)
  rw [computeLatency, disk]
  simp only [Bool.false_eq_true, if_false]
  rw [seek, Int.tdiv_eq_ediv_of_nonneg nonneg, moduloDiff_eq slot new.1]
  omega

/-- When the sector comes from the track buffer. -/
theorem of_trackBufferApplies {isWrite : Bool} (placed : Placed d) (now : 0 ≤ totalTicks)
    (new : OnDisk newSector)
    (applies : d.trackBufferApplies totalTicks newSector isWrite = true) :
    isWrite = false ∧ trackDistance d newSector = 0 ∧
      ∃ arrival, Boundary RotationTime totalTicks arrival ∧
        delay SectorsPerTrack newSector (d.bufferInit / RotationTime)
          < (arrival - d.bufferInit) / RotationTime := by
  obtain ⟨seek, arrives⟩ := timeToSeek_spec now placed.lastSector new
  rw [trackBufferApplies, Bool.and_eq_true, Bool.and_eq_true, beq_iff_eq, decide_eq_true_iff,
    decide_eq_true_iff] at applies
  obtain ⟨⟨read, still⟩, more⟩ := applies
  have near : trackDistance d newSector = 0 := by
    rw [still, SeekTime] at seek
    omega
  have slot : 0 ≤ d.bufferInit / RotationTime := Int.ediv_nonneg placed.nonneg (by decide)
  rw [Int.tdiv_eq_ediv_of_nonneg placed.nonneg, moduloDiff_eq slot new.1] at more
  rw [still, Int.add_zero] at arrives
  refine ⟨read, near, _, arrives, ?_⟩
  rw [still, Int.add_zero] at more
  have turned : 0 < (totalTicks + (d.timeToSeek totalTicks newSector).2 - d.bufferInit).tdiv
      RotationTime := Int.lt_of_le_of_lt (delay_nonneg (by decide)) more
  have ahead : 0 ≤ totalTicks + (d.timeToSeek totalTicks newSector).2 - d.bufferInit := by
    by_contra behind
    have back := Int.tdiv_nonneg (Int.neg_nonneg_of_nonpos (Int.not_le.mp behind).le)
      (show 0 ≤ RotationTime by decide)
    rw [Int.neg_tdiv] at back
    omega
  rwa [Int.tdiv_eq_ediv_of_nonneg ahead] at more

end Computations

/-! ## Requests -/

theorem Reached.placed {d : Drive} (reached : Reached d) : Placed d := by
  induction reached with
  | create sectors =>
      exact ⟨⟨le_refl 0, (by decide : (0 : Int) < numSectors)⟩, le_refl 0, dvd_zero _⟩
  | @request d d' st st' r buffer _ time made placed =>
      obtain ⟨_, _, made⟩ := bind_eq_ok.mp made
      obtain ⟨⟨buffer', sectors⟩, carried, made⟩ := bind_eq_ok.mp made
      obtain ⟨st'', -, made⟩ := bind_eq_ok.mp made
      cases made
      have moved := placed.updateLast time (onDisk_of_carryOut carried)
      exact ⟨moved.lastSector, moved.nonneg, moved.boundary⟩
  | handleInterrupt _ placed => exact ⟨placed.lastSector, placed.nonneg, placed.boundary⟩

/-- What the latency of a request at time `totalTicks` promises. -/
structure HeadPlaced (d : Drive) (totalTicks newSector : Int) (isWrite : Bool) : Prop where
  transfers : RotationTime ≤ d.computeLatency totalTicks newSector isWrite
  scheduled : ∀ st : Interrupt.State, ∃ st',
    Interrupt.schedule st ⟨d.computeLatency totalTicks newSector isWrite, .diskInt⟩ = .ok st'
  boundary : d.trackBufferApplies totalTicks newSector isWrite = false →
    RotationTime ∣ totalTicks + d.computeLatency totalTicks newSector isWrite
  seeks : d.trackBufferApplies totalTicks newSector isWrite = false →
    totalTicks + trackDistance d newSector * SeekTime + RotationTime
      ≤ totalTicks + d.computeLatency totalTicks newSector isWrite
  under : d.trackBufferApplies totalTicks newSector isWrite = false →
    slotBefore RotationTime (totalTicks + d.computeLatency totalTicks newSector isWrite)
      ≡ newSector [ZMOD SectorsPerTrack]
  buffered : d.trackBufferApplies totalTicks newSector isWrite = true →
    isWrite = false ∧ newSector / SectorsPerTrack = d.lastSector / SectorsPerTrack ∧
      ∃ slot arrival, slot ≡ newSector [ZMOD SectorsPerTrack] ∧
        Boundary RotationTime totalTicks arrival ∧
        d.bufferInit ≤ slot * RotationTime ∧ (slot + 1) * RotationTime ≤ arrival

theorem Placed.headPlaced {d : Drive} {totalTicks newSector : Int} (placed : Placed d)
    (now : 0 ≤ totalTicks) (new : OnDisk newSector) (isWrite : Bool) :
    HeadPlaced d totalTicks newSector isWrite := by
  have far : d.trackBufferApplies totalTicks newSector isWrite = false →
      trackDistance d newSector * SeekTime + RotationTime
        ≤ d.computeLatency totalTicks newSector isWrite := by
    intro disk
    obtain ⟨arrival, ⟨⟨-, late⟩, -⟩, ends⟩ :=
      computeLatency_of_disk now placed.lastSector new disk
    have waits := Int.mul_nonneg (delay_nonneg (n := SectorsPerTrack) (s := newSector)
      (k := arrival / RotationTime) (by decide)) (show 0 ≤ RotationTime by decide)
    omega
  have transfers : RotationTime ≤ d.computeLatency totalTicks newSector isWrite := by
    by_cases applies : d.trackBufferApplies totalTicks newSector isWrite = true
    · exact (if_pos applies).ge
    · have past := far (Bool.eq_false_of_not_eq_true applies)
      rw [trackDistance, SeekTime] at past
      omega
  refine ⟨transfers, ?_, ?_, ?_, ?_, ?_⟩
  · intro st
    have future : 0 < d.computeLatency totalTicks newSector isWrite :=
      Int.lt_of_lt_of_le (by decide) transfers
    exact Interrupt.schedule_returns future
  · intro disk
    obtain ⟨arrival, boundary, ends⟩ := computeLatency_of_disk now placed.lastSector new disk
    rw [ends]
    exact Int.dvd_add (Int.dvd_add boundary.1.1 (Int.dvd_mul_left _ _)) (Int.dvd_refl _)
  · intro disk
    have := far disk
    omega
  · intro disk
    obtain ⟨arrival, boundary, ends⟩ := computeLatency_of_disk now placed.lastSector new disk
    rw [ends]
    exact slotBefore_delay (by decide) boundary
  · intro applies
    obtain ⟨read, near, arrival, boundary, more⟩ := of_trackBufferApplies placed now new applies
    obtain ⟨slot, sector, began, ended⟩ :=
      passed_of_delay_lt (by decide) (by decide) placed.boundary more
    rw [trackDistance] at near
    exact ⟨read, by omega, slot, arrival, sector, boundary, began, ended⟩

/-- A drive that can be reached makes a request when it is idle and the sector exists; its
`Schedule` never fails. -/
theorem request_returns_iff {d : Drive} (reached : Reached d) {st : Interrupt.State}
    {r : Request} (now : 0 ≤ st.totalTicks) :
    (∃ after, d.request st r = .ok after) ↔ d.active = false ∧ r.InRange := by
  constructor
  · rintro ⟨_, made⟩
    obtain ⟨_, asserted, made⟩ := bind_eq_ok.mp made
    obtain ⟨_, carried, -⟩ := bind_eq_ok.mp made
    exact ⟨Bool.not_eq_true' _ ▸ ASSERT_eq_ok.mp asserted, onDisk_of_carryOut carried⟩
  · rintro ⟨idle, inRange⟩
    obtain ⟨buffer, carried, -⟩ := carryOut_eq inRange
    obtain ⟨after, scheduled⟩ := (reached.placed.headPlaced now inRange (writing r)).scheduled st
    rw [Drive.request, idle, Bool.not_false, ASSERT_true, ok_bind, carried, ok_bind]
    simp only [scheduled, ok_bind]
    exact ⟨_, rfl⟩

/-- The head is where it should be, whatever requests came before, wherever they left the arm,
and whatever the time is now. -/
theorem head_placed {d : Drive} (reached : Reached d) {lastSector newSector totalTicks : Int}
    (now : 0 ≤ totalTicks) (last : OnDisk lastSector) (new : OnDisk newSector) (isWrite : Bool) :
    HeadPlaced { d with lastSector } totalTicks newSector isWrite :=
  have placed : Placed { d with lastSector } :=
    ⟨last, reached.placed.nonneg, reached.placed.boundary⟩
  placed.headPlaced now new isWrite

set_option maxRecDepth 4000 in
/-- After sector 40 was read from another track, sector 41 comes from the track buffer. -/
theorem head_placed_next :
    Drive.trackBufferApplies ⟨fun _ _ => 0, false, 40, 500⟩ 4600 41 false = true ∧
      HeadPlaced ⟨fun _ _ => 0, false, 40, 500⟩ 4600 41 false := by
  have made : (create fun _ _ => 0).request Interrupt.create (.read 40)
      = .ok (_, ⟨fun _ _ => 0, true, 40, 500⟩, _) := rfl
  have reached :=
    Reached.handleInterrupt (Reached.request (.create fun _ _ => 0) (le_refl 0) made)
  exact ⟨by decide, head_placed reached (by decide) ⟨by decide, by decide⟩ ⟨by decide, by decide⟩
    false⟩

end Nachos.Machine.DiskLatency
