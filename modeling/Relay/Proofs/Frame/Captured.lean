import Relay.Frame.Capture
import Relay.Proofs.Frame.Cuts

/-! # Captures are split where frames end

The chunks of a capture have nothing to do with its frames: a chunk ends some frames
(`Relay.Frame.ended`) and begins one more. What is pending between two chunks is that beginning
(`Relay.Frame.Between`), so a capture of whole frames is split into them as long as no chunk ends
more frames than may wait (`Relay.Frame.Fits`), and is refused otherwise
(`Relay.Frame.split_joined`). -/

namespace Relay.Frame

open Assembler

variable {limits : Limits} {frames : List Bytes} {part : Bytes}

/-- How many of the frames end within the first bytes of what they are together. -/
def ended : List Bytes → Nat → Nat
  | [], _ => 0
  | frame :: rest, count =>
    if frame.size ≤ count then ended rest (count - frame.size) + 1 else 0

/-- No chunk ends more frames than may wait. -/
def Fits (limits : Limits) (frames : List Bytes) : Prop :=
  ∀ chunk, ended frames ((chunk + 1) * chunkSize) ≤
    ended frames (chunk * chunkSize) + limits.waitingFrames

/-- What a frame begins with when it breaks off. -/
def Torn (limits : Limits) (part : List UInt8) : Prop :=
  part ≠ [] ∧ ∃ next, IsFrame limits next ∧ part <+: next.toList ∧ part.length < next.size

/-! ## Ends of frames -/

/-- No more frames end than there are. -/
theorem ended_le_length (frames : List Bytes) (count : Nat) :
    ended frames count ≤ frames.length := by
  induction frames generalizing count with
  | nil => exact Nat.le_refl 0
  | cons frame rest ih =>
      rw [ended, List.length_cons]
      split
      · exact Nat.succ_le_succ (ih _)
      · exact Nat.zero_le _

/-- Behind more bytes no fewer frames end. -/
theorem ended_mono (frames : List Bytes) {count more : Nat} (le : count ≤ more) :
    ended frames count ≤ ended frames more := by
  induction frames generalizing count more with
  | nil => exact Nat.le_refl 0
  | cons frame rest ih =>
      rw [ended, ended]
      by_cases within : frame.size ≤ count
      · rw [if_pos within, if_pos (Nat.le_trans within le)]
        exact Nat.succ_le_succ (ih (Nat.sub_le_sub_right le _))
      · rw [if_neg within]
        exact Nat.zero_le _

/-- Frames that have ended have come in. -/
theorem ended_mul_le {least : Nat} (sizes : ∀ frame ∈ frames, least ≤ frame.size) (count : Nat) :
    ended frames count * least ≤ count := by
  induction frames generalizing count with
  | nil => simp [ended]
  | cons frame rest ih =>
      obtain ⟨first, others⟩ := List.forall_mem_cons.mp sizes
      rw [ended]
      split
      next within =>
        have before := ih others (count - frame.size)
        rw [Nat.succ_mul]
        omega
      next => simp

/-- As many bytes as so many frames have at least do not end more of them. -/
theorem ended_add_le {least wide room : Nat} (sizes : ∀ frame ∈ frames, least ≤ frame.size)
    (roomy : wide ≤ least * room) (count : Nat) :
    ended frames (count + wide) ≤ ended frames count + room := by
  induction frames generalizing count with
  | nil => exact Nat.zero_le _
  | cons frame rest ih =>
      obtain ⟨_, others⟩ := List.forall_mem_cons.mp sizes
      rw [ended, ended]
      by_cases within : frame.size ≤ count
      · have after := ih others (count - frame.size)
        rw [← Nat.sub_add_comm within] at after
        rw [if_pos within, if_pos (Nat.le_add_right_of_le within)]
        omega
      rw [if_neg within]
      split
      next ends =>
        -- behind the first end there is less room than for that many frames
        have spread := ended_mul_le others (count + wide - frame.size)
        have below : ended rest (count + wide - frame.size) < room := by
          refine Nat.lt_of_mul_lt_mul_left (a := least) ?_
          rw [Nat.mul_comm]
          omega
        omega
      next => exact Nat.zero_le _

/-- Frames fit if they are so long that a chunk ends no more of them than may wait. -/
theorem fits_of_size {least : Nat} (sizes : ∀ frame ∈ frames, least ≤ frame.size)
    (roomy : chunkSize ≤ least * limits.waitingFrames) : Fits limits frames := by
  intro chunk
  rw [Nat.succ_mul]
  exact ended_add_le sizes roomy _

theorem fits_of_length (few : frames.length ≤ limits.waitingFrames) : Fits limits frames :=
  fun _ => Nat.le_add_left_of_le (Nat.le_trans (ended_le_length frames _) few)

/-! ## Beginnings of frames -/

/-- What comes before the declared length is reached is the beginning of a frame. -/
theorem isBegun_of_append {front : List UInt8} (back : List UInt8)
    (allowed : lengthError? limits (declaredLength (front ++ back).toArray) = none)
    (short : front.length < declaredLength (front ++ back).toArray) :
    IsBegun limits front.toArray := by
  by_cases known : 2 ≤ front.length
  · rw [declaredLength_append known] at allowed short
    obtain ⟨header, within⟩ := lengthError?_eq_none.mp allowed
    exact .inr ⟨header, within, short⟩
  · exact .inl (Nat.lt_of_not_le known)

/-- What a whole frame begins with is begun. -/
theorem isBegun_of_isPrefix {front : List UInt8} {frame : Bytes} (whole : IsFrame limits frame)
    (begins : front <+: frame.toList) (short : front.length < frame.size) :
    IsBegun limits front.toArray := by
  obtain ⟨back, same⟩ := begins
  have declared : declaredLength (front ++ back).toArray = frame.size := by
    rw [same, Array.toArray_toList, whole.declared]
  refine isBegun_of_append back ?_ ?_
  · rw [declared]
    exact lengthError?_eq_none.mpr ⟨whole.header, whole.within⟩
  · rw [declared]
    exact short

/-- What is begun was begun before. -/
theorem isBegun_take (begun : IsBegun limits part) (count : Nat) :
    IsBegun limits (part.toList.take count).toArray := by
  have shorter : (part.toList.take count).length ≤ part.size := by
    rw [List.length_take, Array.length_toList]
    exact Nat.min_le_right _ _
  rcases begun with unknown | ⟨header, within, below⟩
  · exact .inl (Nat.lt_of_le_of_lt shorter unknown)
  · refine isBegun_of_append (part.toList.drop count) ?_ ?_
    · rw [List.take_append_drop, Array.toArray_toList]
      exact lengthError?_eq_none.mpr ⟨header, within⟩
    · rw [List.take_append_drop, Array.toArray_toList]
      exact Nat.lt_of_le_of_lt shorter below

/-- Frames can be told from the beginning of one. -/
theorem joined_eq_begun {pending : Bytes} (whole : ∀ frame ∈ frames, IsFrame limits frame)
    (begun : IsBegun limits part) (pends : IsBegun limits pending)
    (same : joined frames ++ part.toList = pending.toList) : frames = [] ∧ part = pending := by
  have framed := framing_joined whole 0 part.toList
  rw [same, framing_begun pends, framing_begun begun] at framed
  obtain ⟨none, _⟩ := Prod.mk.inj framed
  obtain rfl : frames = [] := (List.append_eq_nil_iff.mp none.symm).1
  exact ⟨rfl, Array.toList_inj.mp same⟩

/-! ## Chunk by chunk -/

/-- What is pending when so many bytes of a capture have come in, and the frames that ended were
taken out. -/
structure Between (limits : Limits) (frames : List Bytes) (part : Bytes) (count : Nat)
    (pending : Bytes) : Prop where
  begun : IsBegun limits pending
  bytes : (joined frames ++ part.toList).take count =
    joined (frames.take (ended frames count)) ++ pending.toList

/-- Behind any bytes of a capture something is pending. -/
theorem exists_between (whole : ∀ frame ∈ frames, IsFrame limits frame)
    (begun : IsBegun limits part) (count : Nat) :
    ∃ pending, Between limits frames part count pending := by
  induction frames generalizing count with
  | nil => exact ⟨_, isBegun_take begun count, by simp [joined, ended]⟩
  | cons frame rest ih =>
      obtain ⟨first, others⟩ := List.forall_mem_cons.mp whole
      have size : frame.toList.length = frame.size := Array.length_toList
      have cons (frames : List Bytes) : joined (frame :: frames) = frame.toList ++ joined frames :=
        List.flatMap_cons
      by_cases within : frame.size ≤ count
      · obtain ⟨pending, begun, bytes⟩ := ih others (count - frame.size)
        refine ⟨pending, begun, ?_⟩
        rw [ended, if_pos within, List.take_succ_cons, cons, cons, List.append_assoc,
          List.append_assoc, ← bytes, ← size, List.take_append]
        rw [List.take_of_length_le (size ▸ within)]
      · have short := Nat.lt_of_not_le within
        refine ⟨(frame.toList.take count).toArray,
          isBegun_of_isPrefix first (List.take_prefix _ _) ?_, ?_⟩
        · rw [List.length_take]
          exact Nat.lt_of_le_of_lt (Nat.min_le_left _ _) short
        · rw [ended, if_neg within, cons, List.append_assoc]
          rw [List.take_append_of_le_length (size ▸ Nat.le_of_lt short)]
          rfl

/-- Behind the last byte all frames have ended. -/
theorem Between.all {count : Nat} {pending : Bytes}
    (whole : ∀ frame ∈ frames, IsFrame limits frame) (begun : IsBegun limits part)
    (between : Between limits frames part count pending)
    (behind : (joined frames ++ part.toList).length ≤ count) :
    frames.take (ended frames count) = frames ∧ pending = part := by
  have bytes := between.bytes
  rw [List.take_of_length_le behind] at bytes
  have parted := joined_append (frames.take (ended frames count))
    (frames.drop (ended frames count))
  rw [List.take_append_drop] at parted
  rw [parted, List.append_assoc, List.append_cancel_left_eq] at bytes
  obtain ⟨none, same⟩ := joined_eq_begun
    (fun frame member => whole frame (List.mem_of_mem_drop member)) begun between.begun bytes
  have all := List.take_append_drop (ended frames count) frames
  rw [none, List.append_nil] at all
  exact ⟨all, same.symm⟩

/-! ## Pushing -/

/-- What is pending comes before a run as if it had just come in. -/
theorem pushList_begun {pending : Bytes} (begun : IsBegun limits pending) (run : List UInt8) :
    (Assembler.mk limits pending #[]).pushList run =
      ofFraming limits (framing limits limits.waitingFrames (pending.toList ++ run)) := by
  have before := pushList_new limits pending.toList
  rw [framing_begun begun] at before
  have both := pushList_append (new limits) pending.toList run
  rw [before] at both
  rw [← pushList_new, both, ofFraming, Array.toArray_toList]

/-- A stream of few frames is told with all of them and what is begun behind. -/
theorem framing_few (whole : ∀ frame ∈ frames, IsFrame limits frame) (begun : IsBegun limits part)
    {room : Nat} (few : frames.length ≤ room) :
    framing limits room (joined frames ++ part.toList) = (frames, .begun part.toList) := by
  obtain ⟨more, rfl⟩ := Nat.exists_eq_add_of_le few
  rw [framing_joined whole, framing_begun begun, List.append_nil]

/-- A stream of too many frames is refused at the first that may not wait. -/
theorem framing_many (whole : ∀ frame ∈ frames, IsFrame limits frame)
    (many : limits.waitingFrames < frames.length) (stream : List UInt8) :
    framing limits limits.waitingFrames (joined frames ++ stream) =
      (frames.take limits.waitingFrames, .refused (.limitExceeded .waitingFrames
        limits.waitingFrames (limits.waitingFrames + 1))) := by
  obtain ⟨kept, next, others, rfl, count⟩ : ∃ kept next others, frames = kept ++ next :: others ∧
      kept.length = limits.waitingFrames :=
    ⟨_, _, _, by rw [← List.drop_eq_getElem_cons many, List.take_append_drop],
      List.length_take_of_le (Nat.le_of_lt many)⟩
  obtain ⟨before, first, _⟩ := List.forall_mem_append.mp whole |>.imp_right List.forall_mem_cons.mp
  have stands : joined (kept ++ next :: others) ++ stream =
      joined kept ++ (next.toList ++ (joined others ++ stream)) := by
    simp [joined]
  have refused : Refused limits limits.waitingFrames next _ := .tooMany first rfl
  have framed := framing_joined before 0 (next.toList ++ (joined others ++ stream))
  rw [framing_refused refused (Nat.add_zero _), List.append_nil, Nat.add_zero, count] at framed
  rw [stands, framed, List.take_left' count]

/-! ## Splitting -/

/-- The frames that end behind so many bytes, up to so many more. -/
def endedIn (frames : List Bytes) (count more : Nat) : List Bytes :=
  (frames.take (ended frames (count + more))).drop (ended frames count)

theorem length_endedIn (frames : List Bytes) (count more : Nat) :
    (endedIn frames count more).length = ended frames (count + more) - ended frames count := by
  rw [endedIn, List.length_drop, List.length_take_of_le (ended_le_length frames _)]

/-- The frames that end first and those in between are all that end. -/
theorem take_endedIn (frames : List Bytes) (count more : Nat) :
    frames.take (ended frames count) ++ endedIn frames count more =
      frames.take (ended frames (count + more)) := by
  have split := List.take_append_drop (ended frames count)
    (frames.take (ended frames (count + more)))
  rwa [List.take_take, Nat.min_eq_left (ended_mono frames (Nat.le_add_right count more))] at split

namespace Between

variable {count more : Nat} {pending after : Bytes}

/-- The bytes that come in complete what is pending to the frames that end, and leave what is
pending afterwards. -/
theorem bytes_run (between : Between limits frames part count pending)
    (next : Between limits frames part (count + more) after) :
    pending.toList ++ ((joined frames ++ part.toList).drop count).take more =
      joined (endedIn frames count more) ++ after.toList := by
  have bytes := next.bytes
  rw [List.take_add, between.bytes, ← take_endedIn, joined_append, List.append_assoc,
    List.append_assoc, List.append_cancel_left_eq] at bytes
  exact bytes

/-- The next bytes of a capture end the frames in between, or are refused if those are too many. -/
theorem pushList_run (whole : ∀ frame ∈ frames, IsFrame limits frame)
    (between : Between limits frames part count pending)
    (next : Between limits frames part (count + more) after) :
    (Assembler.mk limits pending #[]).pushList
        (((joined frames ++ part.toList).drop count).take more) =
      if ended frames (count + more) ≤ ended frames count + limits.waitingFrames then
        (⟨limits, after, (endedIn frames count more).toArray⟩, none)
      else
        (⟨limits, #[], ((endedIn frames count more).take limits.waitingFrames).toArray⟩,
          some (.limitExceeded .waitingFrames limits.waitingFrames
            (limits.waitingFrames + 1))) := by
  have wholeIn : ∀ frame ∈ endedIn frames count more, IsFrame limits frame := fun frame member =>
    whole frame (List.mem_of_mem_take (List.mem_of_mem_drop member))
  have length := length_endedIn frames count more
  rw [pushList_begun between.begun, between.bytes_run next]
  split
  next few =>
    rw [framing_few wholeIn next.begun (by omega), ofFraming, Array.toArray_toList]
  next many =>
    rw [framing_many wholeIn (by omega), ofFraming]

end Between

variable {start : Nat} {pending after : Bytes}

/-- A chunk that does not end too many frames is taken apart before the next. -/
theorem splitChunks_next (whole : ∀ frame ∈ frames, IsFrame limits frame)
    (between : Between limits frames part start pending)
    (next : Between limits frames part (start + chunkSize) after) (count : Nat) :
    splitChunks (joined frames ++ part.toList).toArray (count + 1) start ⟨limits, pending, #[]⟩
        (frames.take (ended frames start)).reverse =
      if ended frames (start + chunkSize) ≤ ended frames start + limits.waitingFrames then
        splitChunks (joined frames ++ part.toList).toArray count (start + chunkSize)
          ⟨limits, after, #[]⟩ (frames.take (ended frames (start + chunkSize))).reverse
      else
        .error (.frame (.limitExceeded .waitingFrames limits.waitingFrames
          (limits.waitingFrames + 1))) := by
  have chunk : ((joined frames ++ part.toList).toArray.extract start (start + chunkSize)).toList =
      ((joined frames ++ part.toList).drop start).take chunkSize := by
    rw [Array.toList_extract, List.extract_eq_take_drop, Nat.add_sub_cancel_left]
  rw [splitChunks, push, chunk, between.pushList_run whole next]
  by_cases few : ended frames (start + chunkSize) ≤ ended frames start + limits.waitingFrames
  · simp only [if_pos few, drain]
    rw [← List.reverse_append, take_endedIn]
  · simp only [if_neg few]

/-- Chunks that do not end too many frames split a capture into all of them. -/
theorem splitChunks_fits (whole : ∀ frame ∈ frames, IsFrame limits frame)
    (begun : IsBegun limits part) (fits : Fits limits frames) {count before : Nat}
    (between : Between limits frames part (before * chunkSize) pending)
    (all : (joined frames ++ part.toList).length ≤ (before + count) * chunkSize) :
    splitChunks (joined frames ++ part.toList).toArray count (before * chunkSize)
        ⟨limits, pending, #[]⟩ (frames.take (ended frames (before * chunkSize))).reverse =
      if 0 < part.size then .error (.incomplete part.size) else .ok frames := by
  induction count generalizing before pending with
  | zero =>
      obtain ⟨taken, rfl⟩ := between.all whole begun all
      rw [splitChunks, taken, List.reverse_reverse]
  | succ count ih =>
      obtain ⟨after, next⟩ := exists_between whole begun ((before + 1) * chunkSize)
      have few := fits before
      rw [Nat.succ_mul] at next few
      rw [splitChunks_next whole between next, if_pos few, ← Nat.succ_mul]
      rw [← Nat.succ_mul] at next
      exact ih next (by rwa [Nat.succ_add_eq_add_succ])

/-- A chunk that ends too many frames is where the split fails. -/
theorem splitChunks_crowded (whole : ∀ frame ∈ frames, IsFrame limits frame)
    (begun : IsBegun limits part) {count before chunk : Nat} (later : before ≤ chunk)
    (many : ended frames (chunk * chunkSize) + limits.waitingFrames <
      ended frames ((chunk + 1) * chunkSize))
    (between : Between limits frames part (before * chunkSize) pending)
    (all : (joined frames ++ part.toList).length ≤ (before + count) * chunkSize) :
    splitChunks (joined frames ++ part.toList).toArray count (before * chunkSize)
        ⟨limits, pending, #[]⟩ (frames.take (ended frames (before * chunkSize))).reverse =
      .error (.frame (.limitExceeded .waitingFrames limits.waitingFrames
        (limits.waitingFrames + 1))) := by
  induction count generalizing before pending with
  | zero =>
      -- all frames have ended, and no more can
      obtain ⟨taken, _⟩ := between.all whole begun all
      have ends := congrArg List.length taken
      rw [List.length_take_of_le (ended_le_length frames _)] at ends
      have mono := ended_mono frames (Nat.mul_le_mul_right chunkSize later)
      have bound := ended_le_length frames ((chunk + 1) * chunkSize)
      omega
  | succ count ih =>
      obtain ⟨after, next⟩ := exists_between whole begun ((before + 1) * chunkSize)
      rw [Nat.succ_mul] at next
      rw [splitChunks_next whole between next, ← Nat.succ_mul]
      rw [← Nat.succ_mul] at next
      split
      next few =>
        have differ : before ≠ chunk := by
          rintro rfl
          exact absurd few (Nat.not_le_of_lt many)
        exact ih (Nat.lt_of_le_of_ne later differ) next (by rwa [Nat.succ_add_eq_add_succ])
      next => rfl

/-- No frame ends in front of all bytes. -/
theorem ended_zero (whole : ∀ frame ∈ frames, IsFrame limits frame) : ended frames 0 = 0 := by
  have bound := ended_mul_le (fun frame member => (whole frame member).header) 0
  exact Nat.eq_zero_of_not_pos fun some =>
    absurd bound (Nat.not_le_of_lt (Nat.mul_pos some (by decide)))

/-- In front of all bytes nothing is pending. -/
theorem between_start (whole : ∀ frame ∈ frames, IsFrame limits frame) :
    Between limits frames part (0 * chunkSize) #[] := by
  rw [Nat.zero_mul]
  exact ⟨.inl Nat.two_pos, by simp [ended_zero whole, joined]⟩

/-- Splitting starts with nothing pending and nothing found, and has chunks enough for all
bytes. -/
theorem split_eq (whole : ∀ frame ∈ frames, IsFrame limits frame) (part : Bytes) :
    ∃ count, (joined frames ++ part.toList).length ≤ (0 + count) * chunkSize ∧
      split (joined frames ++ part.toList).toArray limits =
        splitChunks (joined frames ++ part.toList).toArray count (0 * chunkSize) ⟨limits, #[], #[]⟩
          (frames.take (ended frames (0 * chunkSize))).reverse := by
  refine ⟨((joined frames ++ part.toList).length + chunkSize - 1) / chunkSize, ?_, ?_⟩
  · rw [chunkSize]
    omega
  · rw [Nat.zero_mul, ended_zero whole]
    rfl

/-- What a capture of whole frames is split into, and one that breaks off behind them. -/
structure SplitBack (limits : Limits) (frames : List Bytes) : Prop where
  /-- The frames are found again if no chunk ends more of them than may wait. -/
  found : Fits limits frames → split (joined frames).toArray limits = .ok frames
  /-- A frame that breaks off is an error. -/
  torn : ∀ {part}, Torn limits part → Fits limits frames →
    split (joined frames ++ part).toArray limits = .error (.incomplete part.length)
  /-- Too many frames in one chunk are an error, whether or not a frame breaks off. -/
  crowded : ∀ {part}, part = [] ∨ Torn limits part → ¬ Fits limits frames →
    split (joined frames ++ part).toArray limits = .error (.frame (.limitExceeded .waitingFrames
      limits.waitingFrames (limits.waitingFrames + 1)))
  /-- As many as a chunk has room for may always come. -/
  roomy : chunkSize ≤ Header.size * limits.waitingFrames → Fits limits frames

/-- What breaks off is begun. -/
theorem isBegun_of_torn {part : List UInt8} (torn : part = [] ∨ Torn limits part) :
    IsBegun limits part.toArray := by
  rcases torn with rfl | ⟨_, next, whole, begins, short⟩
  · exact .inl Nat.two_pos
  · exact isBegun_of_isPrefix whole begins short

/-- **A capture is split into the frames that it was made of**, however many there are and wherever
the chunks cut them, if no chunk ends more of them than may wait; that is so whenever as many may
wait as a chunk has room for. A frame that breaks off behind them is an error, and so is a chunk
that ends too many. -/
theorem split_joined (whole : ∀ frame ∈ frames, IsFrame limits frame) :
    SplitBack limits frames := by
  have fitting {part : List UInt8} (torn : part = [] ∨ Torn limits part)
      (fits : Fits limits frames) : split (joined frames ++ part).toArray limits =
        if 0 < part.length then .error (.incomplete part.length) else .ok frames := by
    obtain ⟨count, all, same⟩ := split_eq whole part.toArray
    rw [same, splitChunks_fits whole (isBegun_of_torn torn) fits (between_start whole) all]
    rfl
  refine ⟨?_, ?_, ?_, ?_⟩
  · intro fits
    have found := fitting (.inl rfl) fits
    rwa [List.append_nil] at found
  · intro part torn fits
    rw [fitting (.inr torn) fits, if_pos (List.length_pos_iff.mpr torn.1)]
  · intro part torn crowded
    obtain ⟨chunk, many⟩ := Classical.not_forall.mp crowded
    obtain ⟨count, all, same⟩ := split_eq whole part.toArray
    rw [same]
    exact splitChunks_crowded whole (isBegun_of_torn torn) (Nat.zero_le chunk)
      (Nat.lt_of_not_le many) (between_start whole) all
  · exact fits_of_size fun frame member => (whole frame member).header

/-- Two frames within the usual limits, and behind them half of a third. -/
theorem split_joined_pair :
    split (joined [#[4, 0, 1, 0], #[5, 0, 2, 0, 9]]).toArray .standard =
        .ok [#[4, 0, 1, 0], #[5, 0, 2, 0, 9]] ∧
      split (joined [#[4, 0, 1, 0], #[5, 0, 2, 0, 9]] ++ [6, 0, 3]).toArray .standard =
        .error (.incomplete 3) := by
  have whole : ∀ frame ∈ [#[4, 0, 1, 0], #[5, 0, 2, 0, 9]], IsFrame .standard frame :=
    List.forall_mem_cons.mpr ⟨⟨rfl, by decide, by decide⟩,
      List.forall_mem_singleton.mpr ⟨rfl, by decide, by decide⟩⟩
  have fits : Fits .standard [#[4, 0, 1, 0], #[5, 0, 2, 0, 9]] := fits_of_length (by decide)
  have torn : Torn .standard [6, 0, 3] :=
    ⟨by decide, #[6, 0, 3, 0, 1, 2], ⟨rfl, by decide, by decide⟩, by decide, by decide⟩
  exact ⟨(split_joined whole).found fits, (split_joined whole).torn torn fits⟩

/-- Where one frame may wait, two frames of one chunk are too many, although the chunk would be
taken apart before the next. -/
theorem split_crowded :
    (∀ frame ∈ [#[4, 0, 1, 0], #[4, 0, 2, 0]], IsFrame ⟨65535, 1⟩ frame) ∧
      split (joined [#[4, 0, 1, 0], #[4, 0, 2, 0]]).toArray ⟨65535, 1⟩ =
        .error (.frame (.limitExceeded .waitingFrames 1 2)) :=
  ⟨List.forall_mem_cons.mpr ⟨⟨rfl, by decide, by decide⟩,
    List.forall_mem_singleton.mpr ⟨rfl, by decide, by decide⟩⟩, by rfl⟩

end Relay.Frame
