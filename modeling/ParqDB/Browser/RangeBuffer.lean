import Mathlib.Data.List.Sort
import Mathlib.Order.Interval.Finset.Nat
import ParqDB.Browser.RangeCache
import ParqDB.Foundations.Json
import ParqDB.Foundations.Runs

/-!
# Coalescing range reads

How `HttpRangeBuffer.flush` merges the reads that are pending into ranges
(`src/browser/src/http.ts`).

**Results.**  `coalesce_perm`: every read belongs to exactly one range.  `coalesce_bounded`: a
range covers its reads, is no longer than the limit, and fetches no more bytes that nobody
asked for than the gap limit allows.
-/

namespace ParqDB.Browser

/-- A read that waits for the next flush, `[start, stop)`, on behalf of a slice. -/
structure PendingRange where
  slice : ℕ
  start : ℕ
  stop : ℕ
deriving DecidableEq

structure CoalescedRange where
  start : ℕ
  stop : ℕ
  gapBytes : ℕ
  reads : List PendingRange
deriving DecidableEq

/-- The order in which reads are merged. -/
def PendingRange.Before (left right : PendingRange) : Prop :=
  left.start < right.start ∨ left.start = right.start ∧ left.stop ≤ right.stop

instance : DecidableRel PendingRange.Before := fun _ _ => inferInstanceAs (Decidable (_ ∨ _))

section

variable (maxRangeBytes maxRangeGapBytes : ℕ)

/-- Merges a read into the last range, or begins a new one. -/
def addRead (coalesced : List CoalescedRange) (read : PendingRange) : List CoalescedRange :=
  let begun : CoalescedRange := ⟨read.start, read.stop, 0, [read]⟩
  match coalesced.getLast? with
  | none => coalesced ++ [begun]
  | some previous =>
      let gap := read.start - previous.stop
      let mergedEnd := max previous.stop read.stop
      if previous.gapBytes + gap ≤ maxRangeGapBytes ∧
          mergedEnd - previous.start ≤ maxRangeBytes then
        coalesced.dropLast ++ [{ previous with
          stop := mergedEnd
          gapBytes := previous.gapBytes + gap
          reads := previous.reads ++ [read] }]
      else coalesced ++ [begun]

/-- The ranges to fetch for the reads that are pending. -/
def coalesce (pending : List PendingRange) : List CoalescedRange :=
  (pending.insertionSort PendingRange.Before).foldl (addRead maxRangeBytes maxRangeGapBytes) []

end

/-- The positions of a range that none of its reads asked for. -/
def CoalescedRange.unrequested (range : CoalescedRange) : Finset ℕ :=
  (Finset.Ico range.start range.stop).filter fun position =>
    ∀ read ∈ range.reads, position ∉ Finset.Ico read.start read.stop

/-- A range covers its reads within the limits. -/
structure CoalescedRange.Bounded (maxRangeBytes maxRangeGapBytes : ℕ) (range : CoalescedRange) :
    Prop where
  covers : ∀ read ∈ range.reads, range.start ≤ read.start ∧ read.stop ≤ range.stop
  length : range.stop - range.start ≤ maxRangeBytes
  gap : range.unrequested.card ≤ maxRangeGapBytes

variable {maxRangeBytes maxRangeGapBytes : ℕ}

/-! ## Every read in one range -/

theorem addRead_reads (coalesced : List CoalescedRange) (read : PendingRange) :
    (addRead maxRangeBytes maxRangeGapBytes coalesced read).flatMap CoalescedRange.reads =
      coalesced.flatMap CoalescedRange.reads ++ [read] := by
  unfold addRead
  cases hlast : coalesced.getLast? with
  | none => simp
  | some previous =>
      have hsplit := List.dropLast_append_getLast? previous hlast
      dsimp only
      split
      · rw [← hsplit]
        simp
      · simp

/-- Every pending read belongs to exactly one range. -/
theorem coalesce_perm (pending : List PendingRange) :
    ((coalesce maxRangeBytes maxRangeGapBytes pending).flatMap CoalescedRange.reads).Perm
      pending := by
  have hfold : ∀ (reads : List PendingRange) (coalesced : List CoalescedRange),
      (reads.foldl (addRead maxRangeBytes maxRangeGapBytes) coalesced).flatMap
        CoalescedRange.reads = coalesced.flatMap CoalescedRange.reads ++ reads := by
    intro reads
    induction reads with
    | nil => simp
    | cons read reads ih =>
        intro coalesced
        rw [List.foldl_cons, ih, addRead_reads]
        simp
  unfold coalesce
  rw [hfold]
  exact List.perm_insertionSort _ _

/-! ## Limits -/

/-- What a range keeps while reads are merged into it. -/
structure CoalescedRange.Sound (maxRangeBytes maxRangeGapBytes : ℕ) (range : CoalescedRange) :
    Prop where
  covers : ∀ read ∈ range.reads, range.start ≤ read.start ∧ read.stop ≤ range.stop
  length : range.stop - range.start ≤ maxRangeBytes
  counted : range.unrequested.card ≤ range.gapBytes
  gap : range.gapBytes ≤ maxRangeGapBytes

variable {read : PendingRange}

theorem sound_begun (hlength : read.stop - read.start ≤ maxRangeBytes) :
    CoalescedRange.Sound maxRangeBytes maxRangeGapBytes
      ⟨read.start, read.stop, 0, [read]⟩ where
  covers := by simp
  length := hlength
  counted := by simp [CoalescedRange.unrequested]
  gap := Nat.zero_le _

/-- A read that starts later adds at most the gap before it. -/
theorem unrequested_merged (previous : CoalescedRange) (read : PendingRange) :
    (CoalescedRange.mk previous.start (max previous.stop read.stop)
      (previous.gapBytes + (read.start - previous.stop)) (previous.reads ++ [read])).unrequested ⊆
      previous.unrequested ∪ Finset.Ico previous.stop read.start := by
  intro position hposition
  simp only [CoalescedRange.unrequested, Finset.mem_filter, Finset.mem_union, Finset.mem_Ico,
    List.mem_append, List.mem_singleton] at hposition ⊢
  obtain ⟨⟨hstart, hstop⟩, hunread⟩ := hposition
  have hread := hunread read (Or.inr rfl)
  rcases Nat.lt_or_ge position previous.stop with hlt | hge
  · exact Or.inl ⟨⟨hstart, hlt⟩, fun other hother => hunread other (Or.inl hother)⟩
  · right
    omega

theorem CoalescedRange.Sound.merge {previous : CoalescedRange}
    (hsound : previous.Sound maxRangeBytes maxRangeGapBytes) (hstart : previous.start ≤ read.start)
    (hgap : previous.gapBytes + (read.start - previous.stop) ≤ maxRangeGapBytes)
    (hlength : max previous.stop read.stop - previous.start ≤ maxRangeBytes) :
    CoalescedRange.Sound maxRangeBytes maxRangeGapBytes ⟨previous.start,
      max previous.stop read.stop, previous.gapBytes + (read.start - previous.stop),
      previous.reads ++ [read]⟩ where
  covers := by
    intro other hother
    rcases List.mem_append.mp hother with hother | hother
    · obtain ⟨hfirst, hlast⟩ := hsound.covers other hother
      exact ⟨hfirst, hlast.trans (Nat.le_max_left _ _)⟩
    · rw [List.mem_singleton.mp hother]
      exact ⟨hstart, Nat.le_max_right _ _⟩
  length := hlength
  counted := by
    calc (CoalescedRange.mk previous.start (max previous.stop read.stop) _ _).unrequested.card
        ≤ (previous.unrequested ∪ Finset.Ico previous.stop read.start).card :=
          Finset.card_le_card (unrequested_merged previous read)
      _ ≤ previous.unrequested.card + (Finset.Ico previous.stop read.start).card :=
          Finset.card_union_le _ _
      _ ≤ previous.gapBytes + (read.start - previous.stop) := by
          rw [Nat.card_Ico]
          exact Nat.add_le_add_right hsound.counted _
  gap := hgap

/-- Merging reads in order of their starts. -/
theorem addRead_sound {coalesced : List CoalescedRange}
    (hsound : ∀ range ∈ coalesced, range.Sound maxRangeBytes maxRangeGapBytes)
    (hstarts : ∀ range ∈ coalesced, range.start ≤ read.start)
    (hlength : read.stop - read.start ≤ maxRangeBytes) :
    ∀ range ∈ addRead maxRangeBytes maxRangeGapBytes coalesced read,
      range.Sound maxRangeBytes maxRangeGapBytes ∧ range.start ≤ read.start := by
  intro range hrange
  unfold addRead at hrange
  dsimp only at hrange
  have hbegun : ∀ other ∈ coalesced ++ [⟨read.start, read.stop, 0, [read]⟩],
      other.Sound maxRangeBytes maxRangeGapBytes ∧ other.start ≤ read.start := by
    intro other hother
    rcases List.mem_append.mp hother with hother | hother
    · exact ⟨hsound other hother, hstarts other hother⟩
    · rw [List.mem_singleton.mp hother]
      exact ⟨sound_begun hlength, le_rfl⟩
  split at hrange
  · exact hbegun range hrange
  · next previous hlast =>
      split at hrange
      · next hmerge =>
          have hmem := List.mem_of_getLast? hlast
          rcases List.mem_append.mp hrange with hrange | hrange
          · have hold := List.dropLast_subset _ hrange
            exact ⟨hsound range hold, hstarts range hold⟩
          · rw [List.mem_singleton.mp hrange]
            exact ⟨(hsound previous hmem).merge (hstarts previous hmem) hmerge.1 hmerge.2,
              hstarts previous hmem⟩
      · exact hbegun range hrange

theorem before_total (left right : PendingRange) : left.Before right ∨ right.Before left := by
  unfold PendingRange.Before
  omega

theorem before_trans {first second third : PendingRange} (hleft : first.Before second)
    (hright : second.Before third) : first.Before third := by
  unfold PendingRange.Before at *
  omega

instance : Std.Total PendingRange.Before := ⟨before_total⟩

instance : IsTrans PendingRange PendingRange.Before := ⟨fun _ _ _ => before_trans⟩

theorem coalesce_sound {pending : List PendingRange}
    (hlengths : ∀ read ∈ pending, read.stop - read.start ≤ maxRangeBytes) :
    ∀ range ∈ coalesce maxRangeBytes maxRangeGapBytes pending,
      range.Sound maxRangeBytes maxRangeGapBytes := by
  -- the ranges so far are sound and start no later than the reads to come
  have hfold : ∀ (reads : List PendingRange) (coalesced : List CoalescedRange),
      reads.Pairwise PendingRange.Before →
      (∀ read ∈ reads, read.stop - read.start ≤ maxRangeBytes) →
      (∀ range ∈ coalesced, range.Sound maxRangeBytes maxRangeGapBytes) →
      (∀ range ∈ coalesced, ∀ read ∈ reads, range.start ≤ read.start) →
      ∀ range ∈ reads.foldl (addRead maxRangeBytes maxRangeGapBytes) coalesced,
        range.Sound maxRangeBytes maxRangeGapBytes := by
    intro reads
    induction reads with
    | nil => intro coalesced _ _ hsound _; exact hsound
    | cons read reads ih =>
        intro coalesced hsorted hlengths hsound hstarts
        rw [List.pairwise_cons] at hsorted
        rw [List.forall_mem_cons] at hlengths
        have hnext := addRead_sound hsound
          (fun range hrange => hstarts range hrange read List.mem_cons_self) hlengths.1
        refine ih _ hsorted.2 hlengths.2 (fun range hrange => (hnext range hrange).1) ?_
        intro range hrange other hother
        have hbefore := hsorted.1 other hother
        have hle := (hnext range hrange).2
        unfold PendingRange.Before at hbefore
        omega
  have hperm := List.perm_insertionSort PendingRange.Before pending
  exact hfold _ [] (List.pairwise_insertionSort _ _)
    (fun read hread => hlengths read (hperm.mem_iff.mp hread)) (by simp) (by simp)

/-- A range covers its reads within the limits. -/
theorem coalesce_bounded {pending : List PendingRange}
    (hlengths : ∀ read ∈ pending, read.stop - read.start ≤ maxRangeBytes) :
    ∀ range ∈ coalesce maxRangeBytes maxRangeGapBytes pending,
      range.Bounded maxRangeBytes maxRangeGapBytes := by
  intro range hrange
  have hsound := coalesce_sound hlengths range hrange
  exact ⟨hsound.covers, hsound.length, hsound.counted.trans hsound.gap⟩

/-!
## Range buffers

The range reads of a browser client (`HttpRangeBuffer` in `src/browser/src/http.ts`): any number
of buffers that share one range cache, as a system that moves whenever a slice is asked for, a
timer fires, a response arrives, or code that awaits a promise goes on.

**Promises.**  Loads and slices are numbered in the order in which they begin, and their
promises are kept with them.  A `Wait` is code behind an await: it goes on once its load has
settled, in any order relative to other such code.

**Fetching.**  A request is answered by a response of any kind, or it fails.  What makes a
response acceptable is `fetchSlice`.
-/

open Foundations

abbrev Bytes := List UInt8

/-- `ArrayBuffer.slice`, for positions in range. -/
def sliceBytes (bytes : Bytes) (start stop : ℕ) : Bytes := (bytes.drop start).take (stop - start)

/-- Why a promise is rejected: the signal of a request was aborted, or something else. -/
inductive Failure
  | aborted (signal : ℕ)
  | failed (message : String)
deriving DecidableEq

inductive Promise (α : Type)
  | pending
  | fulfilled (value : α)
  | rejected (failure : Failure)
deriving DecidableEq

/-! ## Responses -/

/-- What `\s` and `trim` take for white space. -/
def isSpace (char : Char) : Bool :=
  let code := char.toNat
  (9 ≤ code && code ≤ 13) || code = 32 || code = 160 || code = 5760 ||
    (8192 ≤ code && code ≤ 8202) || code = 8232 || code = 8233 || code = 8239 || code = 8287 ||
    code = 12288 || code = 65279

/-- A decimal number at the start of a text. -/
def readNumber (text : List Char) : Option (ℕ × List Char) :=
  let digits := text.takeWhile Char.isDigit
  if digits = [] then none
  else some (digits.foldl (fun value digit => 10 * value + (digit.toNat - 48)) 0,
    text.drop digits.length)

def readChar (char : Char) : List Char → Option (List Char)
  | first :: rest => if first = char then some rest else none
  | [] => none

/-- A `Content-Range` header: first and last position, and the size of the object. -/
def parseContentRange (header : String) : Option (ℕ × ℕ × ℕ) := do
  let trimmed := ((header.toList.dropWhile isSpace).reverse.dropWhile isSpace).reverse
  guard ((trimmed.take 5).map Char.toLower = "bytes".toList)
  let spaced := trimmed.drop 5
  guard ((spaced.head?.any isSpace) = true)
  let (first, rest) ← readNumber (spaced.dropWhile isSpace)
  let rest ← readChar '-' rest
  let (last, rest) ← readNumber rest
  let rest ← readChar '/' rest
  let (size, rest) ← readNumber rest
  guard (rest = [])
  pure (first, last, size)

/-- A response: the protocol of the address it came from, if that is known. -/
structure Response where
  protocol : Option String
  status : ℕ
  contentRange : Option String
  body : Except String Bytes

def validateContentRange (header : Option String) (start last size : ℕ) : Except String Unit :=
  let expected := "bytes " ++ toString start ++ "-" ++ toString last ++ "/" ++ toString size
  match header with
  | none => .error ("missing Content-Range; expected " ++ expected ++ ". For cross-origin " ++
      "indexes, expose it with Access-Control-Expose-Headers")
  | some header =>
      if parseContentRange header = some (start, last, size) then .ok ()
      else .error ("invalid Content-Range " ++ String.ofList (Json.stringChars header) ++
        "; expected " ++ expected)

def validateResponseUrl (protocol : Option String) (allowHttp : Bool) : Except String Unit :=
  match protocol with
  | none => .ok ()
  | some protocol =>
      if protocol = "https:" ∨ allowHttp = true ∧ protocol = "http:" then .ok ()
      else .error "final artifact response URL must use HTTPS"

/-- A request for a range.  `cached` says that it fills an entry of the range cache, and
`recorded` that the cache has dealt with its completion. -/
structure Load where
  object : ObjectKey
  start : ℕ
  stop : ℕ
  complete : Bool
  allowHttp : Bool
  signal : Option ℕ
  cached : Bool
  promise : Promise Bytes
  recorded : Bool

def Load.key (load : Load) : RangeKey := ⟨load.object, load.start, load.stop⟩

/-- What `fetchSlice` makes of the response to a request. -/
def fetchSlice (load : Load) (response : Response) : Except String Bytes := do
  validateResponseUrl response.protocol load.allowHttp
  if load.complete = true ∧ response.status = 200 then
    let bytes ← response.body
    if bytes.length ≠ load.object.size then
      .error "complete HTTP object length does not match manifest"
    else pure bytes
  else if response.status ≠ 206 then
    .error ("range request must return 206, received " ++ toString response.status)
  else
    validateContentRange response.contentRange load.start (load.stop - 1) load.object.size
    let bytes ← response.body
    if bytes.length ≠ load.stop - load.start then
      .error "range response length does not match Content-Range"
    else pure bytes

/-! ## Buffers -/

/-- A buffer over one object, with its options. -/
structure HttpRangeBuffer where
  object : ObjectKey
  allowHttp : Bool
  signal : Option ℕ
  maxRangeBytes : ℕ
  maxRangeGapBytes : ℤ
  pending : List PendingRange
  flushScheduled : Bool

/-- The largest integer that is portable. -/
def maxSafeInteger : ℕ := 2 ^ 53 - 1

/-- A new request of a buffer. -/
def HttpRangeBuffer.load (buffer : HttpRangeBuffer) (start stop : ℕ) (complete cached : Bool) :
    Load where
  object := buffer.object
  start := start
  stop := stop
  complete := complete
  allowHttp := buffer.allowHttp
  signal := buffer.signal
  cached := cached
  promise := .pending
  recorded := false

/-- The gap limit is one that `flush` accepts. -/
def HttpRangeBuffer.gapLimit (buffer : HttpRangeBuffer) : Option ℕ :=
  if 0 ≤ buffer.maxRangeGapBytes ∧ buffer.maxRangeGapBytes ≤ maxSafeInteger ∧
      buffer.maxRangeGapBytes ≤ buffer.maxRangeBytes then some buffer.maxRangeGapBytes.toNat
  else none

/-- A call of `slice`. -/
structure Slice where
  href : String
  start : ℕ
  stop : ℕ
  promise : Promise Bytes

/-- What goes on when a load has settled. -/
inductive Waiter
  /-- The slice that asked for the complete object. -/
  | whole (slice : ℕ)
  /-- The reads of a coalesced range.  A range that was already cached is found inside the
  covering entry, which begins at `covering`. -/
  | range (start stop : ℕ) (covering : Option ℕ) (reads : List PendingRange)

structure Wait where
  load : ℕ
  waiter : Waiter
  resumed : Bool

/-- The buffers that share a range cache. -/
structure RangeReads where
  cache : HttpRangeCache
  buffers : List HttpRangeBuffer
  slices : List Slice
  loads : List Load
  waits : List Wait

/-- How a request ends. -/
inductive Reply
  | response (response : Response)
  | rejected (failure : Failure)

inductive ReadAction
  | create (buffer : HttpRangeBuffer)
  | slice (buffer : ℕ) (start stop : ℤ)
  | flush (buffer : ℕ)
  | respond (load : ℕ) (reply : Reply)
  | record (load : ℕ)
  | resume (wait : ℕ)

namespace RangeReads

def new (capacityBytes : ℕ) : RangeReads := ⟨HttpRangeCache.new capacityBytes, [], [], [], []⟩

/-- Settles the promise of a slice. -/
def settleSlice (system : RangeReads) (slice : ℕ) (promise : Promise Bytes) : RangeReads :=
  match system.slices[slice]? with
  | some found => { system with slices := system.slices.set slice { found with promise := promise } }
  | none => system

/-- Settles the slices of several reads. -/
def settleReads (system : RangeReads) (reads : List PendingRange)
    (promise : PendingRange → Promise Bytes) : RangeReads :=
  reads.foldl (fun system read => system.settleSlice read.slice (promise read)) system

/-- `slice`, up to its first await. -/
def slice (system : RangeReads) (index : ℕ) (buffer : HttpRangeBuffer) (start stop : ℤ) :
    RangeReads :=
  let byteLength := buffer.object.size
  let asked (promise : Promise Bytes) : Slice :=
    ⟨buffer.object.href, start.toNat, stop.toNat, promise⟩
  if start < 0 ∨ stop ≤ start ∨ (byteLength : ℤ) < stop then
    { system with slices := system.slices ++ [asked (.rejected (.failed ("invalid HTTP byte range [" ++
      toString start ++ ", " ++ toString stop ++ ") for " ++ toString byteLength ++
      "-byte object")))] }
  else if start = 0 ∧ stop = byteLength then
    { system with
      slices := system.slices ++ [asked .pending]
      loads := system.loads ++ [buffer.load 0 byteLength true false]
      waits := system.waits ++ [⟨system.loads.length, .whole system.slices.length, false⟩] }
  else if (buffer.maxRangeBytes : ℤ) < stop - start then
    { system with slices := system.slices ++ [asked (.rejected (.failed
      ("HTTP byte range exceeds " ++ toString buffer.maxRangeBytes ++ "-byte client limit")))] }
  else
    { system with
      slices := system.slices ++ [asked .pending]
      buffers := system.buffers.set index { buffer with
        pending := buffer.pending ++ [⟨system.slices.length, start.toNat, stop.toNat⟩]
        flushScheduled := true } }

/-- The reads of a coalesced range go to the cache. -/
def startRange (buffer : HttpRangeBuffer) (system : RangeReads) (range : CoalescedRange) :
    RangeReads :=
  let decided := system.cache.read ⟨buffer.object, range.start, range.stop⟩ system.loads.length
  let waits (load : ℕ) (covering : Option ℕ) : List Wait :=
    system.waits ++ [⟨load, .range range.start range.stop covering range.reads, false⟩]
  match decided.2 with
  | .hit covering => { system with
      cache := decided.1
      waits := waits covering.load (some covering.start) }
  | .direct => { system with
      cache := decided.1
      loads := system.loads ++ [buffer.load range.start range.stop false false]
      waits := waits system.loads.length none }
  | .miss => { system with
      cache := decided.1
      loads := system.loads ++ [buffer.load range.start range.stop false true]
      waits := waits system.loads.length none }

/-- `flush`, up to its first await. -/
def flush (system : RangeReads) (index : ℕ) (buffer : HttpRangeBuffer) : RangeReads :=
  let cleared := { system with buffers := system.buffers.set index { buffer with
    pending := []
    flushScheduled := false } }
  match buffer.gapLimit with
  | none => cleared.settleReads buffer.pending fun _ => .rejected (.failed
      ("maxRangeGapBytes must be a portable integer in [0, " ++ toString buffer.maxRangeBytes ++
        "]"))
  | some gapLimit =>
      (coalesce buffer.maxRangeBytes gapLimit buffer.pending).foldl (startRange buffer) cleared

/-- The promise of a load, once its request has ended. -/
def replied (load : Load) : Reply → Promise Bytes
  | .response response =>
      match fetchSlice load response with
      | .ok bytes => .fulfilled bytes
      | .error message => .rejected (.failed message)
  | .rejected failure => .rejected failure

/-- What the cache does when a load that fills an entry has completed. -/
def recordLoad (cache : HttpRangeCache) (index : ℕ) (load : Load) : Option HttpRangeCache :=
  match load.promise with
  | .pending => none
  | .fulfilled _ => some (cache.settle load.key index)
  | .rejected _ => some (cache.remove load.key index)

/-- The bytes of a range, out of those of the entry that covers it. -/
def coveredBytes (bytes : Bytes) (start stop : ℕ) : Option ℕ → Bytes
  | some first => sliceBytes bytes (start - first) (stop - first)
  | none => bytes

/-- Code that waited for a load goes on. -/
def resume (system : RangeReads) (load : Load) : Waiter → Option RangeReads
  | .whole slice =>
      match load.promise with
      | .pending => none
      | promise => some (system.settleSlice slice promise)
  | .range start stop covering reads =>
      match load.promise with
      | .pending => none
      | .rejected failure => some (system.settleReads reads fun _ => .rejected failure)
      | .fulfilled bytes =>
          let bytes := coveredBytes bytes start stop covering
          some (system.settleReads reads fun read =>
            .fulfilled (sliceBytes bytes (read.start - start) (read.stop - start)))

def step (system : RangeReads) : ReadAction → Option RangeReads
  | .create buffer =>
      if 0 < buffer.object.size ∧ buffer.object.size ≤ maxSafeInteger ∧ buffer.pending = [] ∧
          buffer.flushScheduled = false then
        some { system with buffers := system.buffers ++ [buffer] }
      else none
  | .slice index start stop =>
      match system.buffers[index]? with
      | some buffer => some (system.slice index buffer start stop)
      | none => none
  | .flush index =>
      match system.buffers[index]? with
      | some buffer => if buffer.flushScheduled then some (system.flush index buffer) else none
      | none => none
  | .respond index reply =>
      match system.loads[index]? with
      | some load =>
          if load.promise = .pending then
            some { system with
              loads := system.loads.set index { load with promise := replied load reply } }
          else none
      | none => none
  | .record index =>
      match system.loads[index]? with
      | some load =>
          if load.cached = true ∧ load.recorded = false then
            (recordLoad system.cache index load).map fun cache => { system with
              cache := cache
              loads := system.loads.set index { load with recorded := true } }
          else none
      | none => none
  | .resume index =>
      match system.waits[index]? with
      | some wait =>
          if wait.resumed then none
          else
            match system.loads[wait.load]? with
            | some load => { system with
                waits := system.waits.set index { wait with resumed := true } }.resume load
                  wait.waiter
            | none => none
      | none => none

end RangeReads

end ParqDB.Browser
