import Relay.Proofs.Frame.Conserved

/-! # Frames do not depend on the cuts

A stream of bytes has its frames whatever the chunks are in which it arrives. They are read off the
stream as a whole (`Relay.Frame.framing`), and an assembler comes to them however the stream is cut
(`Relay.Frame.Assembler.pushAll_cut`). That a frame can be told from what follows it is all that is
needed, since an assembler loses no bytes. -/

namespace Relay.Frame

open Assembler

variable {limits : Limits}

/-- How a stream goes on behind its whole frames: with the beginning of one more, or with bytes that
are refused. -/
inductive Rest where
  | begun (pending : List UInt8)
  | refused (error : FrameError)

/-- The whole frames at the front of a stream, of which `room` may wait, and how it goes on. -/
def framing (limits : Limits) (room : Nat) (stream : List UInt8) : List Bytes × Rest :=
  let length := declaredLength stream.toArray
  if stream.length < 2 then ([], .begun stream)
  else
    match lengthError? limits length with
    | some error => ([], .refused error)
    | none =>
      if stream.length < length then ([], .begun stream)
      else
        match room with
        | 0 => ([], .refused (.limitExceeded .waitingFrames limits.waitingFrames
            (limits.waitingFrames + 1)))
        | room + 1 =>
          let (frames, rest) := framing limits room (stream.drop length)
          ((stream.take length).toArray :: frames, rest)

/-- What an assembler comes to that has taken in a stream: its frames wait, and what is begun is
pending unless bytes were refused. -/
def Assembler.ofFraming (limits : Limits) : List Bytes × Rest → Assembler × Option FrameError
  | (frames, .begun pending) => (⟨limits, pending.toArray, frames.toArray⟩, none)
  | (frames, .refused error) => (⟨limits, #[], frames.toArray⟩, some error)

/-! ## Frames at the front of a stream -/

/-- The declared length is told by what comes first. -/
theorem declaredLength_append {front : List UInt8} (known : 2 ≤ front.length)
    (stream : List UInt8) :
    declaredLength (front ++ stream).toArray = declaredLength front.toArray := by
  have same : ((front ++ stream).toArray.extract 0 2).toList =
      (front.toArray.extract 0 2).toList := by
    simp only [Array.toList_extract, List.extract_eq_take_drop, List.drop_zero]
    exact List.take_append_of_le_length known
  simp only [declaredLength, Header.numberAt, Nat.zero_add, same]

/-- A whole frame is the first one of its stream. -/
theorem framing_frame {frame : Bytes} (whole : IsFrame limits frame) (room : Nat)
    (stream : List UInt8) :
    framing limits (room + 1) (frame.toList ++ stream) =
      (frame :: (framing limits room stream).1, (framing limits room stream).2) := by
  have least : Header.size = 4 := rfl
  have size : frame.toList.length = frame.size := Array.length_toList
  have header := whole.header
  have declared : declaredLength (frame.toList ++ stream).toArray = frame.toList.length := by
    rw [declaredLength_append (by omega), Array.toArray_toList, whole.declared, size]
  have allowed : lengthError? limits frame.toList.length = none :=
    lengthError?_eq_none.mpr (size ▸ ⟨whole.header, whole.within⟩)
  rw [framing, declared]
  simp only [allowed, List.length_append, List.take_left, List.drop_left, Array.toArray_toList]
  rw [if_neg (by omega), if_neg (by omega)]

/-- Whole frames are the first ones of their stream. -/
theorem framing_joined {frames : List Bytes} (whole : ∀ frame ∈ frames, IsFrame limits frame)
    (room : Nat) (stream : List UInt8) :
    framing limits (frames.length + room) (joined frames ++ stream) =
      (frames ++ (framing limits room stream).1, (framing limits room stream).2) := by
  induction frames with
  | nil => simp [joined]
  | cons frame rest ih =>
      obtain ⟨first, others⟩ := List.forall_mem_cons.mp whole
      have cons : joined (frame :: rest) ++ stream = frame.toList ++ (joined rest ++ stream) := by
        simp [joined]
      rw [cons, List.length_cons, Nat.add_right_comm, framing_frame first, ih others]
      rfl

/-- What is begun is no frame yet. -/
theorem framing_begun {pending : Bytes} (begun : IsBegun limits pending) (room : Nat) :
    framing limits room pending.toList = ([], .begun pending.toList) := by
  rw [framing.eq_def, Array.toArray_toList, Array.length_toList]
  rcases begun with unknown | ⟨header, within, below⟩
  · exact if_pos unknown
  · simp only [lengthError?_eq_none.mpr ⟨header, within⟩, if_pos below, ite_self]

/-- Bytes are refused at the front of a stream as an assembler refuses them with which as many
frames wait as may. -/
theorem framing_refused {fault : Bytes} {error : FrameError} {waiting room : Nat}
    (refused : Refused limits waiting fault error) (count : waiting + room = limits.waitingFrames)
    (stream : List UInt8) :
    framing limits room (fault.toList ++ stream) = ([], .refused error) := by
  have least : Header.size = 4 := rfl
  have size : fault.toList.length = fault.size := Array.length_toList
  have declared (known : 2 ≤ fault.size) :
      declaredLength (fault.toList ++ stream).toArray = declaredLength fault := by
    rw [declaredLength_append (by omega), Array.toArray_toList]
  rw [framing.eq_def, List.length_append]
  cases refused with
  | tooSmall known small =>
      have checked : lengthError? limits (declaredLength fault) =
          some (.frameTooSmall (declaredLength fault)) := if_pos small
      rw [declared (by omega), if_neg (by omega)]
      simp only [checked]
  | tooLarge known allowed large =>
      have checked : lengthError? limits (declaredLength fault) = some (.limitExceeded .frameBytes
          limits.frameBytes (declaredLength fault)) :=
        (if_neg (Nat.not_lt.mpr allowed)).trans (if_pos large)
      rw [declared (by omega), if_neg (by omega)]
      simp only [checked]
  | tooMany whole full =>
      obtain rfl : room = 0 := by omega
      have header := whole.header
      have allowed := lengthError?_eq_none.mpr ⟨whole.header, whole.within⟩
      rw [declared (by omega), whole.declared, if_neg (by omega)]
      simp only [allowed]
      rw [if_neg (by omega), full]

/-! ## Chunks of a stream -/

namespace Assembler

/-- Take in chunks one after the other, up to the first that is refused. -/
def pushAll (assembler : Assembler) : List Bytes → Assembler × Option FrameError
  | [] => (assembler, none)
  | chunk :: rest =>
    match assembler.push chunk with
    | (after, .error error) => (after, some error)
    | (after, .ok _) => after.pushAll rest

/-- Chunks are taken in as the bytes that they are together. -/
theorem pushAll_eq_pushList (assembler : Assembler) (chunks : List Bytes) :
    assembler.pushAll chunks = assembler.pushList (joined chunks) := by
  induction chunks generalizing assembler with
  | nil => rfl
  | cons chunk rest ih =>
      have cons : joined (chunk :: rest) = chunk.toList ++ joined rest := List.flatMap_cons
      rw [cons, pushList_append, pushAll, push]
      rcases assembler.pushList chunk.toList with ⟨after, _ | error⟩
      · exact ih after
      · rfl

/-- An assembler that is new takes a stream in as its frames. -/
theorem pushList_new (limits : Limits) (stream : List UInt8) :
    (new limits).pushList stream =
      ofFraming limits (framing limits limits.waitingFrames stream) := by
  have taken := takes_pushList (sound_new limits) stream
  rcases pushed : (new limits).pushList stream with ⟨⟨_, pending, frames⟩, error?⟩
  rw [pushed] at taken
  obtain ⟨same, sound, completed, lost, whole, waiting, bytes, ends⟩ := taken
  simp only [new, List.nil_append] at same waiting bytes
  have framed : ∀ frame ∈ completed, IsFrame limits frame := whole
  subst same
  obtain rfl : frames = completed.toArray := by simpa using congrArg List.toArray waiting
  obtain ⟨room, count⟩ := Nat.exists_eq_add_of_le sound.waiting
  simp only [List.size_toArray] at count
  rw [bytes, count, List.append_assoc, framing_joined framed]
  cases error? with
  | none =>
      obtain rfl := ends
      rw [List.append_nil, framing_begun sound.begun]
      simp [ofFraming]
  | some error =>
      obtain ⟨rfl, fault, rest, rfl, refused⟩ := ends
      rw [List.nil_append, framing_refused refused (by simpa using count.symm)]
      simp [ofFraming]

/-- Take in chunks one after the other by turns, up to the first that is refused. -/
def turnsAll (assembler : Assembler) : List Bytes → Assembler × Option FrameError
  | [] => (assembler, none)
  | chunk :: rest =>
    match assembler.turns chunk.toList with
    | (after, some error) => (after, some error)
    | (after, none) => after.turnsAll rest

/-- To take in by turns is to take in byte by byte, over any chunks. -/
theorem turnsAll_eq_pushAll {assembler : Assembler} (sound : assembler.Sound)
    (chunks : List Bytes) : assembler.turnsAll chunks = assembler.pushAll chunks := by
  induction chunks generalizing assembler with
  | nil => rfl
  | cons chunk rest ih =>
      have kept := (takes_pushList sound chunk.toList).sound
      rw [turnsAll, pushAll, push, ← pushList_eq_turns sound]
      revert kept
      rcases assembler.pushList chunk.toList with ⟨after, _ | error⟩
      · exact fun kept => ih kept
      · exact fun _ => rfl

/-- **Frames do not depend on the cuts.** However a stream is cut into chunks, what an assembler
comes to that takes them in up to the first that is refused is read off the stream as a whole: the
frames, what is pending behind them or why bytes were refused. It does not matter whether a chunk is
taken in byte by byte or by turns. -/
theorem pushAll_cut {chunks pieces : List Bytes} (same : joined chunks = joined pieces)
    (limits : Limits) :
    (new limits).pushAll chunks = (new limits).pushAll pieces ∧
      (new limits).pushAll chunks =
        ofFraming limits (framing limits limits.waitingFrames (joined chunks)) ∧
      (new limits).turnsAll chunks = (new limits).pushAll chunks := by
  refine ⟨?_, ?_, turnsAll_eq_pushAll (sound_new limits) chunks⟩
  · rw [pushAll_eq_pushList, pushAll_eq_pushList, same]
  · rw [pushAll_eq_pushList, pushList_new]

/-- A frame and a refused length, cut before, within and behind the lengths. -/
theorem pushAll_cut_sample :
    joined [#[], #[4], #[0, 1, 0, 3], #[], #[0, 9]] = joined [#[4, 0, 1, 0], #[3, 0, 9]] ∧
      (new .small).pushAll [#[], #[4], #[0, 1, 0, 3], #[], #[0, 9]] =
        (⟨.small, #[], #[#[4, 0, 1, 0]]⟩, some (.frameTooSmall 3)) ∧
      (new .small).pushAll [#[], #[4], #[0, 1, 0, 3], #[], #[0, 9]] =
        (new .small).pushAll [#[4, 0, 1, 0], #[3, 0, 9]] :=
  have same : joined [#[], #[4], #[0, 1, 0, 3], #[], #[0, 9]] =
      joined [#[4, 0, 1, 0], #[3, 0, 9]] := by decide
  ⟨same, by decide +kernel, (pushAll_cut same .small).1⟩

end Assembler

end Relay.Frame
