import ParqDB.Foundations.Checked
import ParqDB.Foundations.Outcome

/-!
# The Direct I/O reader

`DirectFile` and `AlignedBuffer` of `parqdb-local/src/parquet/direct_io.rs`: a range of a file is
read through a buffer at an aligned address, from an aligned offset on, with one `pread`.

The arithmetic is that of a 64-bit `usize`.  **What is a parameter.**  A `System` is what the
operating system and the allocator do during one call: opening a file, `pread`, and the address of
an allocation.  `Reads` says what `pread` promises.
-/

namespace ParqDB.Parquet.DirectIo

open Foundations

/-! ## Outcomes -/

inductive ErrorKind
  | invalidInput
  | unexpectedEof
  | other
deriving DecidableEq

/-- `io::Error` -/
structure IoError where
  kind : ErrorKind
  message : String
deriving DecidableEq

/-- How a call ends without a value. -/
inductive Fault
  /-- An overflow of the arithmetic, or a slice out of bounds. -/
  | panic
  /-- A vector of more than `isize::MAX` bytes: the allocation panics. -/
  | capacity
  | io (error : IoError)
deriving DecidableEq

def orPanic {α : Type} : Option α → Except Fault α
  | some value => .ok value
  | none => .error .panic

def orError {α : Type} (message : String) : Option α → Except Fault α
  | some value => .ok value
  | none => .error (.io ⟨.other, message⟩)

def ofSystem {α : Type} : Except IoError α → Except Fault α
  | .ok value => .ok value
  | .error error => .error (.io error)

@[simp]
theorem orPanic_some {α : Type} (value : α) : orPanic (some value) = .ok value := rfl

@[simp]
theorem orError_some {α : Type} (message : String) (value : α) :
    orError message (some value) = .ok value := rfl

/-- `usize::try_from` -/
def toUsize (value : ℕ) : Option ℕ := if value ≤ Checked.wordMax then some value else none

/-! ## The system -/

/-- The system during one call. -/
structure System (Handle : Type) where
  openDirect : String → Except IoError Handle
  /-- The bytes that are read, for a length and an offset. -/
  pread : Handle → ℕ → ℕ → Except IoError (List UInt8)
  /-- The address of an allocation. -/
  address : ℕ → ℕ

variable {Handle : Type}

/-- `pread` on a file: at most the requested bytes at the offset, and at least one if there is. -/
def System.Reads (system : System Handle) (handle : Handle) (file : List UInt8) : Prop :=
  ∀ length offset, ∃ bytes, system.pread handle length offset = .ok bytes ∧
    bytes <+: (file.drop offset).take length ∧
    (0 < length → offset < file.length → bytes ≠ [])

/-! ## Buffers -/

/-- `DIRECT_IO_ALIGNMENT` -/
def directIoAlignment : ℕ := 4 * 1024

/-- `isize::MAX` -/
def capacityMax : ℕ := 2 ^ 63 - 1

structure AlignedBuffer where
  storage : List UInt8
  start : ℕ
  len : ℕ
deriving DecidableEq

namespace AlignedBuffer

/-- `vec![0; allocation]` -/
def zeroed (allocation : ℕ) : Except Fault (List UInt8) :=
  if allocation ≤ capacityMax then .ok (List.replicate allocation 0) else .error .capacity

def new (address : ℕ → ℕ) (len alignment : ℕ) : Except Fault AlignedBuffer := do
  let padding ← orPanic (Checked.sub alignment 1)
  let allocation ← orError "Direct I/O buffer size overflow"
    (Checked.add Checked.wordMax len padding)
  let storage ← zeroed allocation
  let gap ← orPanic (Checked.sub alignment (address allocation % alignment))
  return ⟨storage, gap % alignment, len⟩

/-- `as_mut_slice` and `as_ref`. -/
def slice (buffer : AlignedBuffer) : Option (List UInt8) := do
  let stop ← Checked.add Checked.wordMax buffer.start buffer.len
  Checked.slice buffer.storage buffer.start stop

/-- The buffer after bytes were read into its slice. -/
def fill (buffer : AlignedBuffer) (bytes : List UInt8) : AlignedBuffer :=
  { buffer with storage := buffer.storage.take buffer.start ++
      (bytes ++ buffer.storage.drop (buffer.start + bytes.length)) }

def setLen (buffer : AlignedBuffer) (len : ℕ) : AlignedBuffer := { buffer with len := len }

end AlignedBuffer

/-! ## Files -/

/-- `Range<u64>` -/
structure Range where
  start : ℕ
  stop : ℕ
  start_le : start ≤ Checked.wordMax
  stop_le : stop ≤ Checked.wordMax

structure DirectFile (Handle : Type) where
  path : String
  /-- What the lock holds, and whether it is poisoned. -/
  file : Option Handle
  poisoned : Bool

/-- The aligned range that is read, and the requested range in it. -/
structure Window where
  alignedStart : ℕ
  alignedLen : ℕ
  requestedStart : ℕ
  requestedLen : ℕ
deriving DecidableEq

def Range.window (range : Range) : Except Fault Window := do
  let alignedStart ← orPanic
    (Checked.mul Checked.wordMax (range.start / directIoAlignment) directIoAlignment)
  let padded ← orError "Direct I/O range overflow"
    (Checked.add Checked.wordMax range.stop (directIoAlignment - 1))
  let alignedEnd ← orPanic
    (Checked.mul Checked.wordMax (padded / directIoAlignment) directIoAlignment)
  let alignedLen ← orPanic (Checked.sub alignedEnd alignedStart)
  let alignedLen ← orError "Direct I/O range is too large" (toUsize alignedLen)
  let requestedStart ← orPanic (Checked.sub range.start alignedStart)
  let requestedStart ← orError "Direct I/O range is too large" (toUsize requestedStart)
  let requestedLen ← orPanic (Checked.sub range.stop range.start)
  let requestedLen ← orError "Direct I/O range is too large" (toUsize requestedLen)
  return ⟨alignedStart, alignedLen, requestedStart, requestedLen⟩

def DirectFile.new (path : String) : DirectFile Handle := ⟨path, none, false⟩

/-- Opens the file once. -/
def DirectFile.open (system : System Handle) (direct : DirectFile Handle) :
    Except IoError Handle × DirectFile Handle :=
  if direct.poisoned then (.error ⟨.other, "Direct I/O file lock is poisoned"⟩, direct)
  else
    match direct.file with
    | some handle => (.ok handle, direct)
    | none =>
        match system.openDirect direct.path with
        | .error error => (.error error, direct)
        | .ok handle => (.ok handle, { direct with file := some handle })

namespace DirectFile

/-- The read itself, once the buffer is allocated and the file is open. -/
def readInto (system : System Handle) (handle : Handle) (window : Window)
    (buffer : AlignedBuffer) : Except Fault (List UInt8) := do
  let target ← orPanic buffer.slice
  let bytes ← ofSystem (system.pread handle target.length window.alignedStart)
  let buffer := buffer.fill bytes
  let requestedEnd ← orError "Direct I/O range is too large"
    (Checked.add Checked.wordMax window.requestedStart window.requestedLen)
  if bytes.length < requestedEnd then
    .error (.io ⟨.unexpectedEof, "Direct I/O read returned " ++ toString bytes.length ++
      " bytes, but " ++ toString requestedEnd ++ " were required"⟩)
  else
    let owner ← orPanic (buffer.setLen bytes.length).slice
    orPanic (Checked.slice owner window.requestedStart requestedEnd)

def readRange (system : System Handle) (direct : DirectFile Handle) (range : Range) :
    Except Fault (List UInt8) × DirectFile Handle :=
  if range.stop < range.start then
    (.error (.io ⟨.invalidInput, "Direct I/O range start exceeds end"⟩), direct)
  else if ¬ range.start < range.stop then (.ok [], direct)
  else
    match range.window with
    | .error fault => (.error fault, direct)
    | .ok window =>
        match AlignedBuffer.new system.address window.alignedLen directIoAlignment with
        | .error fault => (.error fault, direct)
        | .ok buffer =>
            match direct.open system with
            | (.error error, direct) => (.error (.io error), direct)
            | (.ok handle, direct) => (readInto system handle window buffer, direct)

/-- `get_byte_ranges`: one range after the other, each with what the system does then. -/
def getByteRanges (direct : DirectFile Handle) :
    List (System Handle × Range) → Except Fault (List (List UInt8)) × DirectFile Handle
  | [] => (.ok [], direct)
  | (system, range) :: ranges =>
      match direct.readRange system range with
      | (.error fault, direct) => (.error fault, direct)
      | (.ok bytes, direct) =>
          match direct.getByteRanges ranges with
          | (.error fault, direct) => (.error fault, direct)
          | (.ok rest, direct) => (.ok (bytes :: rest), direct)

end DirectFile

/-!
## What a direct read returns

A nonempty range is read from `alignedStart` on, into a buffer of `span` bytes.  If there is room
for the buffer, everything depends on how many bytes the one `pread` returns: as many as the range
needs, or the call fails.

**Results.**

* `readRange_eq`: the outcome of a call, by these three cases.
* `readRange_meets_iff`: a call agrees with a plain read of the file if and only if the buffer can
  be allocated and `pread` does not stop short of the range.
* `long_range_fails`: a range for which `pread` would have to return more than it ever does fails.
* `getByteRanges_eq`: many ranges of one file, which is opened once.
-/

variable {Handle : Type}

/-! ## Alignment -/

namespace Range

def alignedStart (range : Range) : ℕ := range.start / directIoAlignment * directIoAlignment

def alignedEnd (range : Range) : ℕ :=
  (range.stop + (directIoAlignment - 1)) / directIoAlignment * directIoAlignment

/-- The bytes that are asked for. -/
def span (range : Range) : ℕ := range.alignedEnd - range.alignedStart

variable (range : Range)

theorem alignedStart_le : range.alignedStart ≤ range.start := Nat.div_mul_le_self _ _

theorem stop_le_alignedEnd : range.stop ≤ range.alignedEnd := by
  simp only [alignedEnd, directIoAlignment]
  omega

/-- An aligned end is not among the last numbers of its type. -/
theorem alignedEnd_add_le (hpadded : range.stop + (directIoAlignment - 1) ≤ Checked.wordMax) :
    range.alignedEnd + (directIoAlignment - 1) ≤ Checked.wordMax := by
  simp only [alignedEnd, directIoAlignment, Checked.wordMax] at hpadded ⊢
  omega

theorem toUsize_of_le {value : ℕ} (hle : value ≤ Checked.wordMax) : toUsize value = some value :=
  if_pos hle

theorem window_of_le {range : Range} (hlt : range.start < range.stop)
    (hpadded : range.stop + (directIoAlignment - 1) ≤ Checked.wordMax) :
    range.window = .ok ⟨range.alignedStart, range.span, range.start - range.alignedStart,
      range.stop - range.start⟩ := by
  have hstart := range.alignedStart_le
  have hstop := range.stop_le_alignedEnd
  have hend := range.alignedEnd_add_le hpadded
  have hmul : Checked.mul Checked.wordMax (range.start / directIoAlignment) directIoAlignment =
      some range.alignedStart := Checked.mul_of_le (hstart.trans range.start_le)
  have hmulEnd : Checked.mul Checked.wordMax
      ((range.stop + (directIoAlignment - 1)) / directIoAlignment) directIoAlignment =
        some range.alignedEnd := Checked.mul_of_le ((Nat.le_add_right _ _).trans hend)
  have hsub : Checked.sub range.alignedEnd range.alignedStart = some range.span :=
    Checked.sub_of_le (by omega)
  have hsubStart : Checked.sub range.start range.alignedStart =
      some (range.start - range.alignedStart) := Checked.sub_of_le hstart
  have hsubLen : Checked.sub range.stop range.start = some (range.stop - range.start) :=
    Checked.sub_of_le hlt.le
  have hspan : range.span ≤ Checked.wordMax := by
    rw [span]
    omega
  have hrequested : range.start - range.alignedStart ≤ Checked.wordMax := by
    have hword := range.start_le
    omega
  have hlen : range.stop - range.start ≤ Checked.wordMax := by
    have hword := range.stop_le
    omega
  unfold window
  rw [hmul, orPanic_some, ok_bind, Checked.add_of_le hpadded, orError_some, ok_bind, hmulEnd,
    orPanic_some, ok_bind, hsub, orPanic_some, ok_bind, toUsize_of_le hspan, orError_some, ok_bind,
    hsubStart, orPanic_some, ok_bind, toUsize_of_le hrequested, orError_some, ok_bind, hsubLen,
    orPanic_some, ok_bind, toUsize_of_le hlen, orError_some, ok_bind]
  rfl

/-- The end of the range cannot be rounded up. -/
theorem window_overflow {range : Range}
    (hoverflow : Checked.wordMax < range.stop + (directIoAlignment - 1)) :
    range.window = .error (.io ⟨.other, "Direct I/O range overflow"⟩) := by
  have hmul : Checked.mul Checked.wordMax (range.start / directIoAlignment) directIoAlignment =
      some range.alignedStart :=
    Checked.mul_of_le (range.alignedStart_le.trans range.start_le)
  have hadd : Checked.add Checked.wordMax range.stop (directIoAlignment - 1) = none :=
    if_neg (Nat.not_le.mpr hoverflow)
  unfold window
  rw [hmul, orPanic_some, ok_bind, hadd]
  rfl

end Range

/-! ## Buffers -/

namespace AlignedBuffer

/-- The slice of a buffer lies in its storage, and the storage in memory. -/
structure Fits (buffer : AlignedBuffer) : Prop where
  bounds : buffer.start + buffer.len ≤ buffer.storage.length
  storage_le : buffer.storage.length ≤ capacityMax

variable {buffer : AlignedBuffer}

theorem slice_of_fits (hfits : buffer.Fits) :
    ∃ bytes, buffer.slice = some bytes ∧ bytes.length = buffer.len := by
  have hword : buffer.start + buffer.len ≤ Checked.wordMax :=
    (hfits.bounds.trans hfits.storage_le).trans (by decide)
  have hslice := Checked.slice_of_le (Nat.le_add_right buffer.start buffer.len) hfits.bounds
  refine ⟨_, ?_, (Checked.length_of_slice hslice).trans (Nat.add_sub_cancel_left _ _)⟩
  rw [slice, Checked.add_of_le hword]
  exact hslice

/-- What was read into a buffer is what its slice is then. -/
theorem slice_fill (hfits : buffer.Fits) {bytes : List UInt8} (hlength : bytes.length ≤ buffer.len) :
    ((buffer.fill bytes).setLen bytes.length).slice = some bytes := by
  have hbounds := hfits.bounds
  have hword : buffer.start + bytes.length ≤ Checked.wordMax :=
    ((Nat.add_le_add_left hlength _).trans (hbounds.trans hfits.storage_le)).trans (by decide)
  have hbefore : (buffer.storage.take buffer.start).length = buffer.start := by
    rw [List.length_take]
    omega
  rw [slice, setLen, fill]
  dsimp only
  rw [Checked.add_of_le hword]
  refine Checked.slice_eq_some_iff.mpr ⟨Nat.le_add_right _ _, ?_, ?_⟩
  · rw [List.length_append, List.length_append, hbefore]
    omega
  · rw [List.drop_take, Nat.add_sub_cancel_left, List.drop_left' hbefore, List.take_left]

/-- A buffer with room for its length, at an aligned start. -/
theorem new_of_le (address : ℕ → ℕ) {len : ℕ}
    (hcapacity : len + (directIoAlignment - 1) ≤ capacityMax) :
    ∃ buffer, new address len directIoAlignment = .ok buffer ∧ buffer.Fits ∧ buffer.len = len := by
  have hpos : 0 < directIoAlignment := by decide
  have hword : len + (directIoAlignment - 1) ≤ Checked.wordMax := hcapacity.trans (by decide)
  have hgap := Nat.mod_lt (address (len + (directIoAlignment - 1))) hpos
  refine ⟨⟨List.replicate (len + (directIoAlignment - 1)) 0, (directIoAlignment -
    address (len + (directIoAlignment - 1)) % directIoAlignment) % directIoAlignment, len⟩,
    ?_, ⟨?_, ?_⟩, rfl⟩
  · unfold new
    rw [Checked.sub_of_le hpos, orPanic_some, ok_bind, Checked.add_of_le hword, orError_some,
      ok_bind, zeroed, if_pos hcapacity, ok_bind, Checked.sub_of_le hgap.le, orPanic_some, ok_bind]
    rfl
  · have hstart := Nat.mod_lt (directIoAlignment -
      address (len + (directIoAlignment - 1)) % directIoAlignment) hpos
    rw [List.length_replicate]
    dsimp only
    omega
  · rw [List.length_replicate]
    exact hcapacity

theorem new_of_lt (address : ℕ → ℕ) {len : ℕ}
    (hcapacity : capacityMax < len + (directIoAlignment - 1))
    (hword : len + (directIoAlignment - 1) ≤ Checked.wordMax) :
    new address len directIoAlignment = .error .capacity := by
  unfold new
  rw [Checked.sub_of_le (show 1 ≤ directIoAlignment by decide), orPanic_some, ok_bind,
    Checked.add_of_le hword, orError_some, ok_bind, zeroed, if_neg (Nat.not_le.mpr hcapacity)]
  rfl

end AlignedBuffer

/-! ## One read -/

/-- The error of a read that stops short. -/
def shortRead (read required : ℕ) : Fault :=
  .io ⟨.unexpectedEof, "Direct I/O read returned " ++ toString read ++ " bytes, but " ++
    toString required ++ " were required"⟩

variable {handle : Handle} {system : System Handle} {direct : DirectFile Handle}

theorem readInto_eq {window : Window} {buffer : AlignedBuffer} {bytes : List UInt8}
    (hfits : buffer.Fits) (hlen : buffer.len = window.alignedLen)
    (hread : system.pread handle window.alignedLen window.alignedStart = .ok bytes)
    (hbytes : bytes.length ≤ window.alignedLen)
    (hword : window.requestedStart + window.requestedLen ≤ Checked.wordMax) :
    DirectFile.readInto system handle window buffer =
      if bytes.length < window.requestedStart + window.requestedLen then
        .error (shortRead bytes.length (window.requestedStart + window.requestedLen))
      else .ok ((bytes.take (window.requestedStart + window.requestedLen)).drop
        window.requestedStart) := by
  obtain ⟨target, htarget, hlength⟩ := AlignedBuffer.slice_of_fits hfits
  unfold DirectFile.readInto
  rw [htarget, orPanic_some, ok_bind, hlength, hlen, hread]
  show (orError _ _ >>= _) = _
  rw [Checked.add_of_le hword, orError_some, ok_bind]
  by_cases hshort : bytes.length < window.requestedStart + window.requestedLen
  · rw [if_pos hshort, if_pos hshort]
    rfl
  · rw [if_neg hshort, if_neg hshort, AlignedBuffer.slice_fill hfits (hlen ▸ hbytes), orPanic_some,
      ok_bind, Checked.slice_of_le (Nat.le_add_right _ _) (Nat.not_lt.mp hshort), orPanic_some]

/-- The bytes of a range in what was read from its aligned start. -/
theorem slice_of_prefix {file bytes : List UInt8} {offset length start stop : ℕ}
    (hfront : bytes <+: (file.drop offset).take length) (hstart : offset ≤ start)
    (hstop : stop - offset ≤ bytes.length) :
    (bytes.take (stop - offset)).drop (start - offset) = (file.take stop).drop start := by
  have hlength := hfront.length_le
  rw [List.length_take] at hlength
  have htake : bytes.take (stop - offset) = (file.drop offset).take (stop - offset) := by
    rw [List.prefix_iff_eq_take.mp hfront, List.take_take, List.take_take]
    congr 1
    omega
  calc (bytes.take (stop - offset)).drop (start - offset)
      = ((file.drop offset).take (stop - offset)).drop (start - offset) := by rw [htake]
    _ = ((file.take stop).drop offset).drop (start - offset) := by rw [← List.drop_take]
    _ = (file.take stop).drop start := by rw [List.drop_drop, Nat.add_sub_cancel' hstart]

/-- A file that is open, or that the system opens, and what is in it. -/
structure Opens (system : System Handle) (direct : DirectFile Handle) (handle : Handle)
    (file : List UInt8) : Prop where
  sound : direct.poisoned = false
  opened : direct.file = some handle ∨
    direct.file = none ∧ system.openDirect direct.path = .ok handle
  reads : system.Reads handle file

theorem Opens.open_eq {file : List UInt8} (hopens : Opens system direct handle file) :
    direct.open system = (.ok handle, { direct with file := some handle }) := by
  obtain ⟨path, cached, poisoned⟩ := direct
  obtain ⟨hsound, hopened, -⟩ := hopens
  dsimp only at hsound hopened
  subst hsound
  unfold DirectFile.open
  rw [if_neg Bool.false_ne_true]
  rcases hopened with hcached | ⟨hcached, hopen⟩
  · rw [hcached]
  · rw [hcached]
    dsimp only
    rw [hopen]

section

variable {system : System Handle} {direct : DirectFile Handle} {handle : Handle}
  {file : List UInt8} {range : Range}

/-- How many bytes `pread` returns for a range. -/
def System.transferred (system : System Handle) (handle : Handle) (range : Range) : ℕ :=
  match system.pread handle range.span range.alignedStart with
  | .ok bytes => bytes.length
  | .error _ => 0

/-- The outcome of a call for a nonempty range. -/
theorem readRange_eq (hopens : Opens system direct handle file) (hlt : range.start < range.stop) :
    (direct.readRange system range).1 =
      if Checked.wordMax < range.stop + (directIoAlignment - 1) then
        .error (.io ⟨.other, "Direct I/O range overflow"⟩)
      else if capacityMax < range.span + (directIoAlignment - 1) then .error .capacity
      else if system.transferred handle range < range.stop - range.alignedStart then
        .error (shortRead (system.transferred handle range) (range.stop - range.alignedStart))
      else .ok ((file.take range.stop).drop range.start) := by
  have hstart := range.alignedStart_le
  have hstopAligned := range.stop_le_alignedEnd
  unfold DirectFile.readRange
  rw [if_neg (Nat.not_lt.mpr hlt.le), if_neg (not_not_intro hlt)]
  by_cases hoverflow : Checked.wordMax < range.stop + (directIoAlignment - 1)
  · rw [if_pos hoverflow, Range.window_overflow hoverflow]
  · rw [if_neg hoverflow, Range.window_of_le hlt (Nat.not_lt.mp hoverflow)]
    dsimp only
    by_cases hcapacity : capacityMax < range.span + (directIoAlignment - 1)
    · have hword : range.span + (directIoAlignment - 1) ≤ Checked.wordMax :=
        (Nat.add_le_add_right (Nat.sub_le _ _) _).trans
          (range.alignedEnd_add_le (Nat.not_lt.mp hoverflow))
      rw [if_pos hcapacity, AlignedBuffer.new_of_lt _ hcapacity hword]
    · rw [if_neg hcapacity]
      obtain ⟨buffer, hbuffer, hfits, hlen⟩ :=
        AlignedBuffer.new_of_le system.address (Nat.not_lt.mp hcapacity)
      obtain ⟨bytes, hbytes, hfront, -⟩ := hopens.reads range.span range.alignedStart
      have htransferred : system.transferred handle range = bytes.length := by
        rw [System.transferred, hbytes]
      have hle : bytes.length ≤ range.span :=
        hfront.length_le.trans (List.length_take_le _ _)
      have hsum : range.start - range.alignedStart + (range.stop - range.start) =
          range.stop - range.alignedStart := by omega
      have hword : range.start - range.alignedStart + (range.stop - range.start) ≤
          Checked.wordMax := by
        rw [hsum]
        exact (Nat.sub_le _ _).trans range.stop_le
      rw [hbuffer, hopens.open_eq]
      dsimp only
      rw [readInto_eq hfits hlen hbytes hle hword, htransferred]
      dsimp only
      rw [hsum]
      by_cases hshort : bytes.length < range.stop - range.alignedStart
      · rw [if_pos hshort, if_pos hshort]
      · rw [if_neg hshort, if_neg hshort,
          slice_of_prefix hfront hstart (Nat.not_lt.mp hshort)]

/-- A call is right about a file: within the file it returns the bytes of the range, beyond its end
an error, and neither the arithmetic nor a slice goes wrong. -/
structure Meets (system : System Handle) (direct : DirectFile Handle) (file : List UInt8)
    (range : Range) : Prop where
  within : range.start ≤ range.stop → range.stop ≤ file.length →
    (direct.readRange system range).1 = .ok ((file.take range.stop).drop range.start)
  beyond : range.start < range.stop → file.length < range.stop →
    ∃ error, (direct.readRange system range).1 = .error (.io error)
  safe : (direct.readRange system range).1 ≠ .error .panic

/-- The buffer of a range can be allocated, and `pread` returns as much of the file as the range
needs; the end of a range in the file can be aligned. -/
structure Served (system : System Handle) (handle : Handle) (file : List UInt8) (range : Range) :
    Prop where
  capacity : range.stop + (directIoAlignment - 1) ≤ Checked.wordMax →
    range.span + (directIoAlignment - 1) ≤ capacityMax
  aligned : range.stop ≤ file.length → range.stop + (directIoAlignment - 1) ≤ Checked.wordMax
  enough : range.stop ≤ file.length →
    range.stop - range.alignedStart ≤ system.transferred handle range

/-- `pread` returns nothing from beyond the end of the file. -/
theorem transferred_le (hreads : system.Reads handle file) :
    system.transferred handle range ≤ file.length - range.alignedStart := by
  obtain ⟨bytes, hbytes, hfront, -⟩ := hreads range.span range.alignedStart
  rw [System.transferred, hbytes, ← List.length_drop]
  exact hfront.length_le.trans (List.length_take_le' _ _)

/-- The first bytes of a range that reaches beyond the end of the file are before the end, or there
is nothing to read: either way the range is not filled. -/
theorem transferred_lt_of_beyond (hreads : system.Reads handle file)
    (hlt : range.start < range.stop) (hbeyond : file.length < range.stop) :
    system.transferred handle range < range.stop - range.alignedStart := by
  have hle := @transferred_le _ _ _ _ range hreads
  have hstart := range.alignedStart_le
  omega

/-- An empty range, and one that is none, do not touch the file. -/
theorem readRange_empty (hempty : range.stop ≤ range.start) :
    direct.readRange system range =
      if range.stop < range.start then
        (.error (.io ⟨.invalidInput, "Direct I/O range start exceeds end"⟩), direct)
      else (.ok [], direct) := by
  unfold DirectFile.readRange
  rw [if_pos (Nat.not_lt.mpr hempty)]

section

variable (hopens : Opens system direct handle file)

include hopens

/-- No arithmetic overflows and no slice is out of bounds, whatever the range. -/
theorem readRange_safe :
    (direct.readRange system range).1 ≠ .error .panic := by
  by_cases hlt : range.start < range.stop
  · rw [readRange_eq hopens hlt]
    split_ifs <;> simp [shortRead]
  · rw [readRange_empty (Nat.not_lt.mp hlt)]
    split_ifs <;> simp

/-- A range in the file that is served is returned. -/
theorem readRange_within (hserved : range.start < range.stop → Served system handle file range)
    (hle : range.start ≤ range.stop) (hend : range.stop ≤ file.length) :
    (direct.readRange system range).1 = .ok ((file.take range.stop).drop range.start) := by
  rcases Nat.lt_or_eq_of_le hle with hlt | hempty
  · obtain ⟨hcapacity, haligned, henough⟩ := hserved hlt
    have hpadded := haligned hend
    rw [readRange_eq hopens hlt, if_neg (Nat.not_lt.mpr hpadded),
      if_neg (Nat.not_lt.mpr (hcapacity hpadded)), if_neg (Nat.not_lt.mpr (henough hend))]
  · have hnothing : (file.take range.stop).drop range.start = [] := by
      rw [List.drop_eq_nil_iff, List.length_take]
      omega
    rw [readRange_empty hempty.ge, if_neg (Nat.not_lt.mpr hle), hnothing]

/-- A range beyond the end of the file that is served is an error. -/
theorem readRange_beyond
    (hserved : Served system handle file range) (hlt : range.start < range.stop)
    (hend : file.length < range.stop) :
    ∃ error, (direct.readRange system range).1 = .error (.io error) := by
  have hcall := readRange_eq hopens hlt
  rcases Nat.lt_or_ge Checked.wordMax (range.stop + (directIoAlignment - 1)) with hover | hpadded
  · rw [if_pos hover] at hcall
    exact ⟨_, hcall⟩
  · rw [if_neg (Nat.not_lt.mpr hpadded), if_neg (Nat.not_lt.mpr (hserved.capacity hpadded)),
      if_pos (transferred_lt_of_beyond hopens.reads hlt hend)] at hcall
    exact ⟨_, hcall⟩

end

/-- A direct read of a range agrees with a plain read of the file if and only if the range is empty,
or its buffer can be allocated and `pread` does not stop short. -/
theorem readRange_meets_iff (hopens : Opens system direct handle file) :
    Meets system direct file range ↔
      (range.start < range.stop → Served system handle file range) := by
  constructor
  · rintro ⟨hwithin, hbeyond, -⟩ hlt
    rw [readRange_eq hopens hlt] at hwithin hbeyond
    have haligned : range.stop ≤ file.length →
        range.stop + (directIoAlignment - 1) ≤ Checked.wordMax := by
      intro hend
      by_contra hover
      have hexact := hwithin hlt.le hend
      rw [if_pos (Nat.not_le.mp hover)] at hexact
      cases hexact
    have hcapacity : range.stop + (directIoAlignment - 1) ≤ Checked.wordMax →
        range.span + (directIoAlignment - 1) ≤ capacityMax := by
      intro hpadded
      by_contra hfull
      rw [if_neg (Nat.not_lt.mpr hpadded), if_pos (Nat.not_le.mp hfull)] at hwithin hbeyond
      rcases Nat.lt_or_ge file.length range.stop with hend | hend
      · obtain ⟨error, herror⟩ := hbeyond hlt hend
        cases herror
      · cases hwithin hlt.le hend
    refine ⟨hcapacity, haligned, fun hend => ?_⟩
    have hpadded := haligned hend
    have hexact := hwithin hlt.le hend
    rw [if_neg (Nat.not_lt.mpr hpadded), if_neg (Nat.not_lt.mpr (hcapacity hpadded))] at hexact
    by_contra hshort
    rw [if_pos (Nat.not_le.mp hshort)] at hexact
    cases hexact
  · intro hserved
    exact ⟨readRange_within hopens hserved,
      fun hlt hend => readRange_beyond hopens (hserved hlt) hlt hend, readRange_safe hopens⟩

/-- A range for which `pread` would have to return more than it ever does fails, though it is in the
file.  Linux returns at most `0x7ffff000` bytes. -/
theorem long_range_fails (hopens : Opens system direct handle file) {limit : ℕ}
    (hlimit : ∀ length offset bytes, system.pread handle length offset = .ok bytes →
      bytes.length ≤ limit)
    (hlong : limit < range.stop - range.start) (bytes : List UInt8) :
    (direct.readRange system range).1 ≠ .ok bytes := by
  have hstart := range.alignedStart_le
  have hlt : range.start < range.stop := by omega
  have htransferred : system.transferred handle range ≤ limit := by
    obtain ⟨read, hread, -⟩ := hopens.reads range.span range.alignedStart
    rw [System.transferred, hread]
    exact hlimit _ _ _ hread
  rw [readRange_eq hopens hlt]
  split_ifs with hoverflow hcapacity hshort
  · simp
  · simp
  · simp [shortRead]
  · omega

end

/-! ## Many ranges -/

/-- A call that returns bytes leaves the file open. -/
theorem readRange_keeps {bytes : List UInt8} (hopens : Opens system direct handle file)
    (hlt : range.start < range.stop) (hok : (direct.readRange system range).1 = .ok bytes) :
    (direct.readRange system range).2 = { direct with file := some handle } := by
  unfold DirectFile.readRange at hok ⊢
  rw [if_neg (Nat.not_lt.mpr hlt.le), if_neg (not_not_intro hlt)] at hok ⊢
  cases hwindow : range.window with
  | error fault =>
      rw [hwindow] at hok
      cases hok
  | ok window =>
      rw [hwindow] at hok
      dsimp only at hok ⊢
      cases hbuffer : AlignedBuffer.new system.address window.alignedLen directIoAlignment with
      | error fault =>
          rw [hbuffer] at hok
          cases hok
      | ok buffer =>
          dsimp only
          rw [hopens.open_eq]

/-- The file is open, or the first range that is not empty opens it. -/
def OpensFirst (direct : DirectFile Handle) (handle : Handle)
    (calls : List (System Handle × Range)) : Prop :=
  direct.file = some handle ∨ direct.file = none ∧
    ∀ call ∈ calls.find? fun call => decide (call.2.start < call.2.stop),
      call.1.openDirect direct.path = .ok handle

/-- Ranges of a file that are all served are all returned.  Only the first one that is not empty
opens the file, which is kept: whether it could be opened again later does not matter. -/
theorem getByteRanges_eq {file : List UInt8} (calls : List (System Handle × Range))
    (hcalls : ∀ call ∈ calls, call.1.Reads handle file ∧
      (call.2.start < call.2.stop → Served call.1 handle file call.2) ∧
      call.2.start ≤ call.2.stop ∧ call.2.stop ≤ file.length)
    (direct : DirectFile Handle) (hsound : direct.poisoned = false)
    (hopens : OpensFirst direct handle calls) :
    (direct.getByteRanges calls).1 =
        .ok (calls.map fun call => (file.take call.2.stop).drop call.2.start) ∧
      (direct.file = some handle ∨ (∃ call ∈ calls, call.2.start < call.2.stop) →
        (direct.getByteRanges calls).2 = { direct with file := some handle }) := by
  induction calls generalizing direct with
  | nil =>
      refine ⟨rfl, fun hkept => ?_⟩
      rcases hkept with hkept | ⟨_, hcall, -⟩
      · rw [← hkept]
        rfl
      · cases hcall
  | cons call calls ih =>
      obtain ⟨system, range⟩ := call
      rw [List.forall_mem_cons] at hcalls
      obtain ⟨⟨hreads, hserved, hle, hend⟩, hrest⟩ := hcalls
      dsimp only at hserved hle hend
      -- the state after the first range
      have hafter : ∃ after, direct.readRange system range =
          (.ok ((file.take range.stop).drop range.start), after) ∧ after.poisoned = false ∧
          OpensFirst after handle calls ∧
          (after = { direct with file := some handle } ∨
            after = direct ∧ ¬ range.start < range.stop) := by
        by_cases hlt : range.start < range.stop
        · have hopened : Opens system direct handle file := by
            refine ⟨hsound, hopens.imp_right fun hfirst => ⟨hfirst.1, ?_⟩, hreads⟩
            refine hfirst.2 (system, range) ?_
            rw [List.find?_cons_of_pos (by simpa using hlt)]
            rfl
          have hbytes := readRange_within hopened hserved hle hend
          exact ⟨_, Prod.ext hbytes (readRange_keeps hopened hlt hbytes), hsound, .inl rfl, .inl rfl⟩
        · have hnothing : (file.take range.stop).drop range.start = [] := by
            rw [List.drop_eq_nil_iff, List.length_take]
            omega
          have hempty := @readRange_empty _ system direct range (Nat.not_lt.mp hlt)
          rw [if_neg (Nat.not_lt.mpr hle)] at hempty
          refine ⟨direct, by rw [hempty, hnothing], hsound, hopens.imp_right fun hfirst => ?_,
            .inr ⟨rfl, hlt⟩⟩
          rwa [List.find?_cons_of_neg (by simpa using hlt)] at hfirst
      obtain ⟨after, hfirst, hclean, hmore, hstate⟩ := hafter
      obtain ⟨hresults, hlast⟩ := ih hrest after hclean hmore
      unfold DirectFile.getByteRanges
      rw [hfirst]
      dsimp only
      generalize after.getByteRanges calls = others at hresults hlast
      obtain ⟨results, last⟩ := others
      dsimp only at hresults hlast
      subst hresults
      refine ⟨rfl, fun hkept => ?_⟩
      dsimp only
      rcases hstate with rfl | ⟨rfl, hempty⟩
      · exact hlast (.inl rfl)
      · refine hlast (hkept.imp_right fun ⟨other, hother, hlt⟩ => ?_)
        rcases List.mem_cons.mp hother with rfl | hother
        · exact absurd hlt hempty
        · exact ⟨other, hother, hlt⟩

/-! ## A read that stops short -/

/-- A system on which a file of two bytes is opened, and `pread` returns at most so many bytes. -/
def twoBytes (most : ℕ) : System Unit where
  openDirect _ := .ok ()
  pread _ length offset := .ok ((([7, 8] : List UInt8).drop offset).take (min length most))
  address allocation := allocation

def bothBytes : Range := ⟨0, 2, by decide, by decide⟩

def lastByte : Range := ⟨1, 2, by decide, by decide⟩

theorem reads_twoBytes {most : ℕ} (hmost : 0 < most) : (twoBytes most).Reads () [7, 8] := by
  intro length offset
  refine ⟨_, rfl, ?_, fun hlength hoffset => ?_⟩
  · exact List.take_prefix_take_left (Nat.min_le_left _ _)
  · rw [ne_eq, List.take_eq_nil_iff, List.drop_eq_nil_iff]
    omega

theorem opens_twoBytes {most : ℕ} (hmost : 0 < most) :
    Opens (twoBytes most) (DirectFile.new "part.parquet") () [7, 8] :=
  ⟨rfl, .inr ⟨rfl, rfl⟩, reads_twoBytes hmost⟩

/-- If all bytes come at once, the last one is returned. -/
theorem last_byte_met : Meets (twoBytes 2) (DirectFile.new "part.parquet") [7, 8] lastByte :=
  (readRange_meets_iff (opens_twoBytes Nat.two_pos)).mpr
    fun _ => ⟨fun _ => by decide, fun _ => by decide, fun _ => by decide⟩

/-- An empty range, all of a file, and its last byte when the file is gone. -/
def keptReads : List (System Unit × Range) :=
  [({ twoBytes 2 with openDirect _ := .error ⟨.other, "gone"⟩ }, ⟨1, 1, by decide, by decide⟩),
    (twoBytes 2, bothBytes),
    ({ twoBytes 2 with openDirect _ := .error ⟨.other, "gone"⟩ }, lastByte)]

theorem kept_reads_return :
    ((DirectFile.new "part.parquet").getByteRanges keptReads).1 = .ok [[], [7, 8], [8]] ∧
    ((DirectFile.new "part.parquet").getByteRanges keptReads).2 =
      ⟨"part.parquet", some (), false⟩ := by
  have hcalls : ∀ call ∈ keptReads, call.1.Reads () [7, 8] ∧
      (call.2.start < call.2.stop → Served call.1 () [7, 8] call.2) ∧
      call.2.start ≤ call.2.stop ∧ call.2.stop ≤ 2 := by
    intro call hcall
    simp only [keptReads, List.mem_cons, List.not_mem_nil, or_false] at hcall
    rcases hcall with rfl | rfl | rfl <;>
      exact ⟨reads_twoBytes Nat.two_pos,
        fun _ => ⟨fun _ => by decide, fun _ => by decide, fun _ => by decide⟩, by decide, by decide⟩
  obtain ⟨hbytes, hkept⟩ := getByteRanges_eq keptReads hcalls (DirectFile.new "part.parquet") rfl
    (.inr ⟨rfl, fun call hcall => by cases hcall; rfl⟩)
  exact ⟨hbytes, hkept (.inr ⟨(twoBytes 2, bothBytes), by simp [keptReads], by decide⟩)⟩

/-- If one byte comes first, the call fails. -/
theorem short_read_fails :
    Opens (twoBytes 1) (DirectFile.new "part.parquet") () [7, 8] ∧
    ((DirectFile.new "part.parquet").readRange (twoBytes 1) bothBytes).1 =
      .error (.io ⟨.unexpectedEof, "Direct I/O read returned 1 bytes, but 2 were required"⟩) ∧
    ¬ Meets (twoBytes 1) (DirectFile.new "part.parquet") [7, 8] bothBytes := by
  have hopens := opens_twoBytes Nat.one_pos
  have hcall := readRange_eq hopens (show bothBytes.start < bothBytes.stop by decide)
  rw [if_neg (by decide), if_neg (by decide), if_pos (by decide)] at hcall
  refine ⟨hopens, hcall, fun hmeets => ?_⟩
  have hexact := hmeets.within (by decide) (by decide)
  rw [hcall] at hexact
  cases hexact

end ParqDB.Parquet.DirectIo
