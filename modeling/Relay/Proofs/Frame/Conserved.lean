import Relay.Frame.Assembly

/-! # Frames lose no bytes

Whatever is done with an assembler (`Relay.Frame.Assembler.Operation`), the frames that wait are
whole and within the limits, and what is pending is the beginning of one more. Until a length is
refused or everything is forgotten, the frames that were taken out, those that wait and what is
pending are the bytes that came in (`Relay.Frame.Assembler.conserved_run`). Bytes are taken in one
by one; taking them in by runs comes to the same (`Relay.Frame.Assembler.pushList_eq_turns`). -/

namespace Relay.Frame.Assembler

variable {limits : Limits} {assembler : Assembler} {pending : Bytes}

/-- A whole frame is as long as it declares, and of a length that is allowed. -/
structure IsFrame (limits : Limits) (frame : Bytes) : Prop where
  declared : declaredLength frame = frame.size
  header : Header.size ≤ frame.size
  within : frame.size ≤ limits.frameBytes

/-- The beginning of a frame declares no length yet, or one that is allowed and not reached. -/
def IsBegun (limits : Limits) (pending : Bytes) : Prop :=
  pending.size < 2 ∨ Header.size ≤ declaredLength pending ∧
    declaredLength pending ≤ limits.frameBytes ∧ pending.size < declaredLength pending

/-- What holds of an assembler however its bytes came in. -/
structure Sound (assembler : Assembler) : Prop where
  frames : ∀ frame ∈ assembler.frames.toList, IsFrame assembler.limits frame
  waiting : assembler.frames.size ≤ assembler.limits.waitingFrames
  begun : IsBegun assembler.limits assembler.pending

/-- Why bytes are refused while `waiting` frames wait: the length that they declare, as soon as it
is known, or one whole frame too many. -/
inductive Refused (limits : Limits) (waiting : Nat) (bytes : Bytes) : FrameError → Prop where
  | tooSmall (known : bytes.size = 2) (small : declaredLength bytes < Header.size) :
    Refused limits waiting bytes (.frameTooSmall (declaredLength bytes))
  | tooLarge (known : bytes.size = 2) (allowed : Header.size ≤ declaredLength bytes)
    (large : limits.frameBytes < declaredLength bytes) :
    Refused limits waiting bytes
      (.limitExceeded .frameBytes limits.frameBytes (declaredLength bytes))
  | tooMany (whole : IsFrame limits bytes) (full : waiting = limits.waitingFrames) :
    Refused limits waiting bytes
      (.limitExceeded .waitingFrames limits.waitingFrames (waiting + 1))

/-- An assembler that is new is sound. -/
theorem sound_new (limits : Limits) : (new limits).Sound where
  frames _ member := absurd member List.not_mem_nil
  waiting := Nat.zero_le _
  begun := .inl Nat.two_pos

/-! ## One byte -/

/-- The declared length does not change once it is known. -/
theorem declaredLength_push (known : 2 ≤ pending.size) (b : UInt8) :
    declaredLength (pending.push b) = declaredLength pending := by
  have same : ((pending.push b).extract 0 2).toList = (pending.extract 0 2).toList := by
    simp only [Array.toList_extract, Array.toList_push, List.extract_eq_take_drop, List.drop_zero]
    exact List.take_append_of_le_length (by simpa using known)
  simp only [declaredLength, Header.numberAt, Nat.zero_add, same]

/-- A length is allowed if it covers a header and does not pass the limit. -/
theorem lengthError?_eq_none {length : Nat} :
    lengthError? limits length = none ↔ Header.size ≤ length ∧ length ≤ limits.frameBytes := by
  rw [lengthError?]
  split
  next => simp; omega
  next => split <;> simp <;> omega

/-- One more byte leaves what is begun begun, or completes its length or the frame. -/
theorem IsBegun.push (begun : IsBegun limits pending) (b : UInt8) :
    (pending.push b).size ≤ 2 ∨ Header.size ≤ declaredLength (pending.push b) ∧
      declaredLength (pending.push b) ≤ limits.frameBytes ∧
      (pending.push b).size ≤ declaredLength (pending.push b) := by
  have grown : (pending.push b).size = pending.size + 1 := Array.size_push b
  by_cases known : 2 ≤ pending.size
  · rcases begun with unknown | ⟨header, within, below⟩
    · omega
    · rw [Assembler.declaredLength_push known, grown]
      exact .inr ⟨header, within, below⟩
  · exact .inl (by omega)

/-- A length that is known and not allowed is refused. -/
theorem refused_of_lengthError? {error : FrameError} {waiting : Nat} (known : pending.size = 2)
    (checked : lengthError? limits (declaredLength pending) = some error) :
    Refused limits waiting pending error := by
  rw [lengthError?] at checked
  split at checked
  next small =>
    cases checked
    exact .tooSmall known small
  next allowed =>
    split at checked
    next large =>
      cases checked
      exact .tooLarge known (Nat.le_of_not_lt allowed) large
    next => cases checked

/-- Every byte goes on with the frame, completes it, or is refused with all that is pending. -/
theorem pushByte_cases (sound : assembler.Sound) (b : UInt8) :
    (IsBegun assembler.limits (assembler.pending.push b) ∧
      assembler.pushByte b = ({ assembler with pending := assembler.pending.push b }, none)) ∨
    (IsFrame assembler.limits (assembler.pending.push b) ∧
      assembler.frames.size < assembler.limits.waitingFrames ∧
      assembler.pushByte b =
        (⟨assembler.limits, #[], assembler.frames.push (assembler.pending.push b)⟩, none)) ∨
    ∃ error, Refused assembler.limits assembler.frames.size (assembler.pending.push b) error ∧
      assembler.pushByte b = ({ assembler with pending := #[] }, some error) := by
  obtain ⟨limits, pending, frames⟩ := assembler
  obtain ⟨_, waiting, begun⟩ := sound
  simp only at waiting begun ⊢
  have grown := begun.push b
  have least : Header.size = 4 := rfl
  by_cases short : (pending.push b).size < 2
  · exact .inl ⟨.inl short, by rw [pushByte, if_pos short]⟩
  cases checked : lengthError? limits (declaredLength (pending.push b)) with
  | some error =>
      -- the length has just become known, since it was not refused before
      have known : (pending.push b).size = 2 := by
        rcases grown with unknown | ⟨header, within, _⟩
        · omega
        · rw [lengthError?_eq_none.mpr ⟨header, within⟩] at checked
          cases checked
      exact .inr (.inr ⟨error, refused_of_lengthError? known checked,
        by simp only [pushByte, if_neg short, checked]⟩)
  | none =>
      obtain ⟨header, within⟩ := lengthError?_eq_none.mp checked
      by_cases more : (pending.push b).size < declaredLength (pending.push b)
      · exact .inl ⟨.inr ⟨header, within, more⟩,
          by simp only [pushByte, if_neg short, checked, if_pos more]⟩
      have reached : declaredLength (pending.push b) = (pending.push b).size := by omega
      have whole : IsFrame limits (pending.push b) :=
        ⟨reached, reached ▸ header, reached ▸ within⟩
      by_cases full : limits.waitingFrames ≤ frames.size
      · exact .inr (.inr ⟨_, .tooMany whole (Nat.le_antisymm waiting full),
          by simp only [pushByte, if_neg short, checked, if_neg more, if_pos full]⟩)
      · exact .inr (.inl ⟨whole, Nat.lt_of_not_le full,
          by simp only [pushByte, if_neg short, checked, if_neg more, if_neg full]⟩)

/-! ## Runs of bytes -/

/-- The bytes of frames, one frame after the other. -/
def joined (frames : List Bytes) : List UInt8 :=
  frames.flatMap Array.toList

theorem joined_append (frames more : List Bytes) :
    joined (frames ++ more) = joined frames ++ joined more :=
  List.flatMap_append

/-- Without an error no bytes are lost. With one, what was pending is lost and the rest of the run,
from the bytes that are refused on. -/
def Lost (after : Assembler) : Option FrameError → List UInt8 → Prop
  | none, lost => lost = []
  | some error, lost => after.pending = #[] ∧ ∃ fault rest, lost = fault.toList ++ rest ∧
      Refused after.limits after.frames.size fault error

/-- What a run of bytes comes to: some whole frames, which wait behind those that waited before,
then what is pending, and then what is lost. -/
structure Takes (before : Assembler) (run : List UInt8) (after : Assembler)
    (error? : Option FrameError) : Prop where
  limits : after.limits = before.limits
  sound : after.Sound
  account : ∃ completed lost, (∀ frame ∈ completed, IsFrame before.limits frame) ∧
    after.frames.toList = before.frames.toList ++ completed ∧
    before.pending.toList ++ run = joined completed ++ after.pending.toList ++ lost ∧
    Lost after error? lost

namespace Takes

variable {before middle after : Assembler} {run more : List UInt8} {error : FrameError}
  {error? : Option FrameError}

/-- No bytes are taken in without a change. -/
theorem refl (sound : assembler.Sound) : Takes assembler [] assembler none where
  limits := rfl
  sound := sound
  account := ⟨[], [], List.forall_mem_nil _, (List.append_nil _).symm, by simp [joined], rfl⟩

/-- A run that is taken in goes before one more. -/
theorem append (first : Takes before run middle none) (second : Takes middle more after error?) :
    Takes before (run ++ more) after error? where
  limits := second.limits.trans first.limits
  sound := second.sound
  account := by
    obtain ⟨completed, _, whole, frames, bytes, rfl⟩ := first.account
    obtain ⟨others, lost, wholeOthers, framesAfter, bytesAfter, ends⟩ := second.account
    rw [List.append_nil] at bytes
    rw [first.limits] at wholeOthers
    refine ⟨completed ++ others, lost, List.forall_mem_append.mpr ⟨whole, wholeOthers⟩, ?_, ?_,
      ends⟩
    · rw [framesAfter, frames, List.append_assoc]
    · calc before.pending.toList ++ (run ++ more)
          = joined completed ++ (middle.pending.toList ++ more) := by
            rw [← List.append_assoc, bytes, List.append_assoc]
        _ = joined (completed ++ others) ++ after.pending.toList ++ lost := by
            rw [bytesAfter, joined_append]
            simp only [List.append_assoc]

/-- What follows a refused byte is lost. -/
theorem append_lost (first : Takes before run after (some error)) (more : List UInt8) :
    Takes before (run ++ more) after (some error) where
  limits := first.limits
  sound := first.sound
  account := by
    obtain ⟨completed, lost, whole, frames, bytes, empty, fault, rest, same, refused⟩ :=
      first.account
    refine ⟨completed, lost ++ more, whole, frames, ?_, empty, fault, rest ++ more, ?_, refused⟩
    · rw [← List.append_assoc, bytes]
      simp only [List.append_assoc]
    · rw [same, List.append_assoc]

end Takes

/-- A byte is taken in. -/
theorem takes_pushByte (sound : assembler.Sound) (b : UInt8) :
    Takes assembler [b] (assembler.pushByte b).1 (assembler.pushByte b).2 := by
  have grown : (assembler.pending.push b).toList = assembler.pending.toList ++ [b] :=
    Array.toList_push
  rcases pushByte_cases sound b with ⟨begun, same⟩ | ⟨whole, room, same⟩ | ⟨error, refused, same⟩
  · rw [same]
    exact ⟨rfl, ⟨sound.frames, sound.waiting, begun⟩, [], [], List.forall_mem_nil _,
      (List.append_nil _).symm, by simp [joined], rfl⟩
  · rw [same]
    let frames := assembler.frames.push (assembler.pending.push b)
    have sound : Sound ⟨assembler.limits, #[], frames⟩ := {
      frames := by
        rw [Array.toList_push, List.forall_mem_append, List.forall_mem_singleton]
        exact ⟨sound.frames, whole⟩
      waiting := by
        rw [Array.size_push]
        exact room
      begun := .inl Nat.two_pos }
    exact ⟨rfl, sound, [assembler.pending.push b], [], List.forall_mem_singleton.mpr whole,
      Array.toList_push, by simp [joined], rfl⟩
  · rw [same]
    exact ⟨rfl, ⟨sound.frames, sound.waiting, .inl Nat.two_pos⟩, [],
      (assembler.pending.push b).toList, List.forall_mem_nil _, (List.append_nil _).symm,
      by simp [joined], rfl, _, [], (List.append_nil _).symm, refused⟩

/-- **A run of bytes is taken in**, byte by byte. -/
theorem takes_pushList (sound : assembler.Sound) (run : List UInt8) :
    Takes assembler run (assembler.pushList run).1 (assembler.pushList run).2 := by
  induction run generalizing assembler with
  | nil => exact .refl sound
  | cons b rest ih =>
      have first := takes_pushByte sound b
      rw [pushList]
      rcases pushed : assembler.pushByte b with ⟨after, _ | error⟩
      all_goals rw [pushed] at first
      · exact first.append (ih first.sound)
      · exact first.append_lost rest

/-- A chunk is taken in as a run of bytes, and tells how many frames wait or why it is refused. -/
def TakesChunk (before : Assembler) (chunk : Bytes) : Assembler × Except FrameError Nat → Prop
  | (after, .ok waiting) => Takes before chunk.toList after none ∧ waiting = after.frames.size
  | (after, .error error) => Takes before chunk.toList after (some error)

/-- A chunk is taken in as a run. -/
theorem takes_push (sound : assembler.Sound) (chunk : Bytes) :
    TakesChunk assembler chunk (assembler.push chunk) := by
  have taken := takes_pushList sound chunk.toList
  rw [push]
  rcases pushed : assembler.pushList chunk.toList with ⟨after, _ | error⟩
  all_goals rw [pushed] at taken
  · exact ⟨taken, rfl⟩
  · exact taken

/-! ## Taking in by runs -/

/-- Take as much of the frame as there is, when its length is known. Tells what of the run is
left. -/
def takeBody (assembler : Assembler) (run : List UInt8) :
    Assembler × Option FrameError × List UInt8 :=
  let length := declaredLength assembler.pending
  let missing := length - assembler.pending.size
  let pending := assembler.pending ++ (run.take missing).toArray
  let run := run.drop missing
  if pending.size = length then
    if assembler.limits.waitingFrames ≤ assembler.frames.size then
      ({ assembler with pending := #[] },
        some (.limitExceeded .waitingFrames assembler.limits.waitingFrames
          (assembler.frames.size + 1)), run)
    else (⟨assembler.limits, #[], assembler.frames.push pending⟩, none, run)
  else ({ assembler with pending := pending }, none, run)

/-- One turn of taking in by runs: the length is completed and looked at, and then as much of the
frame is taken as there is. Tells what of the run is left. -/
def turn (assembler : Assembler) (run : List UInt8) :
    Assembler × Option FrameError × List UInt8 :=
  let missing := 2 - assembler.pending.size
  let pending := assembler.pending ++ (run.take missing).toArray
  let run := run.drop missing
  if pending.size < 2 then ({ assembler with pending := pending }, none, run)
  else
    match lengthError? assembler.limits (declaredLength pending) with
    | some error => ({ assembler with pending := #[] }, some error, run)
    | none => takeBody { assembler with pending := pending } run

/-- Take in a run by turns, until nothing is left of it. -/
def turns (assembler : Assembler) (run : List UInt8) : Assembler × Option FrameError :=
  if run.isEmpty then (assembler, none)
  else
    match assembler.turn run with
    | (after, some error, _) => (after, some error)
    | (after, none, rest) =>
      if rest.length < run.length then after.turns rest else (after, none)
  termination_by run.length

/-- A run is taken in up to the first error, and the next one goes on from there. -/
theorem pushList_append (assembler : Assembler) (run more : List UInt8) :
    assembler.pushList (run ++ more) =
      match assembler.pushList run with
      | (after, some error) => (after, some error)
      | (after, none) => after.pushList more := by
  induction run generalizing assembler with
  | nil => rfl
  | cons b rest ih =>
      rw [List.cons_append, pushList, pushList]
      rcases assembler.pushByte b with ⟨after, _ | error⟩
      · exact ih after
      · rfl

/-- Up to the length that is declared, bytes are put to what is pending. -/
theorem pushList_body {body : List UInt8} (known : 2 ≤ assembler.pending.size)
    (allowed : lengthError? assembler.limits (declaredLength assembler.pending) = none)
    (below : assembler.pending.size < declaredLength assembler.pending)
    (fits : assembler.pending.size + body.length ≤ declaredLength assembler.pending) :
    assembler.pushList body =
      if assembler.pending.size + body.length = declaredLength assembler.pending then
        if assembler.limits.waitingFrames ≤ assembler.frames.size then
          ({ assembler with pending := #[] },
            some (.limitExceeded .waitingFrames assembler.limits.waitingFrames
              (assembler.frames.size + 1)))
        else
          (⟨assembler.limits, #[], assembler.frames.push (assembler.pending ++ body.toArray)⟩, none)
      else ({ assembler with pending := assembler.pending ++ body.toArray }, none) := by
  induction body generalizing assembler with
  | nil =>
      rw [List.length_nil, Nat.add_zero, if_neg (Nat.ne_of_lt below), Array.append_empty]
      rfl
  | cons b rest ih =>
      obtain ⟨limits, pending, frames⟩ := assembler
      simp only [List.length_cons] at known allowed below fits ⊢
      have grown : (pending.push b).size = pending.size + 1 := Array.size_push b
      have same := declaredLength_push known b
      have long : ¬ (pending.push b).size < 2 := by omega
      have joins : pending.push b ++ rest.toArray = pending ++ (b :: rest).toArray := by simp
      by_cases more : (pending.push b).size < declaredLength pending
      · have step : pushByte ⟨limits, pending, frames⟩ b =
            (⟨limits, pending.push b, frames⟩, none) := by
          simp only [pushByte, if_neg long, same, allowed, if_pos more]
        rw [pushList, step]
        dsimp only
        rw [ih (by simp only; omega) (by simpa only [same] using allowed)
          (by simpa only [same] using more) (by simp only [same]; omega)]
        simp only [same, grown, joins, Nat.add_assoc, Nat.add_comm 1]
      · obtain rfl : rest = [] := List.eq_nil_of_length_eq_zero (by omega)
        have reached : pending.size + (([] : List UInt8).length + 1) = declaredLength pending := by
          simp only [List.length_nil] at fits ⊢
          omega
        rw [pushList, if_pos reached, ← joins]
        by_cases full : limits.waitingFrames ≤ frames.size
        · simp only [pushByte, if_neg long, same, allowed, if_neg more, if_pos full]
        · simp only [pushByte, if_neg long, same, allowed, if_neg more, if_neg full, pushList,
            Array.append_empty]

/-- With its second byte the length is looked at. -/
theorem pushByte_second (alone : assembler.pending.size = 1) (b : UInt8) :
    assembler.pushByte b =
      match lengthError? assembler.limits (declaredLength (assembler.pending.push b)) with
      | some error => ({ assembler with pending := #[] }, some error)
      | none => ({ assembler with pending := assembler.pending.push b }, none) := by
  obtain ⟨limits, pending, frames⟩ := assembler
  have grown : (pending.push b).size = pending.size + 1 := Array.size_push b
  simp only at alone ⊢
  have long : ¬ (pending.push b).size < 2 := by omega
  cases checked : lengthError? limits (declaredLength (pending.push b)) with
  | some error => simp only [pushByte, if_neg long, checked]
  | none =>
      have least : Header.size = 4 := rfl
      have more : (pending.push b).size < declaredLength (pending.push b) := by
        have allowed := lengthError?_eq_none.mp checked
        omega
      simp only [pushByte, if_neg long, checked, if_pos more]

/-- Before the length is known, bytes are put to what is pending. -/
theorem pushList_short {run : List UInt8} (short : assembler.pending.size + run.length < 2) :
    assembler.pushList run =
      ({ assembler with pending := assembler.pending ++ run.toArray }, none) := by
  match run with
  | [] =>
      rw [Array.append_empty]
      rfl
  | [b] =>
      have small : (assembler.pending.push b).size < 2 := by
        rw [Array.size_push]
        exact short
      rw [pushList, pushByte, if_pos small]
      rfl
  | _ :: _ :: _ => simp only [List.length_cons] at short; omega

/-- With the bytes of the length, the length is looked at. -/
theorem pushList_head {head : List UInt8} (nonempty : head ≠ [])
    (complete : assembler.pending.size + head.length = 2) :
    assembler.pushList head =
      match lengthError? assembler.limits (declaredLength (assembler.pending ++ head.toArray)) with
      | some error => ({ assembler with pending := #[] }, some error)
      | none => ({ assembler with pending := assembler.pending ++ head.toArray }, none) := by
  obtain ⟨first, b, rfl⟩ := (List.eq_nil_or_concat head).resolve_left nonempty
  rw [List.concat_eq_append, List.length_append, List.length_singleton] at complete
  rw [List.concat_eq_append]
  have grown : assembler.pending ++ (first ++ [b]).toArray =
      (assembler.pending ++ first.toArray).push b := by simp
  have alone : (assembler.pending ++ first.toArray).size = 1 := by
    simp only [Array.size_append, List.size_toArray]
    omega
  rw [pushList_append, pushList_short (by omega), grown]
  dsimp only
  rw [pushList, pushByte_second alone]
  dsimp only
  cases lengthError? assembler.limits
    (declaredLength ((assembler.pending ++ first.toArray).push b)) <;> rfl

/-- The body of a frame is taken at once as it is byte by byte. -/
theorem pushList_takeBody (known : 2 ≤ assembler.pending.size)
    (allowed : lengthError? assembler.limits (declaredLength assembler.pending) = none)
    (below : assembler.pending.size < declaredLength assembler.pending) (run : List UInt8) :
    assembler.pushList (run.take (declaredLength assembler.pending - assembler.pending.size)) =
      ((assembler.takeBody run).1, (assembler.takeBody run).2.1) := by
  rw [pushList_body known allowed below (by rw [List.length_take]; omega), takeBody]
  simp only [Array.size_append, List.size_toArray]
  split
  next => split <;> rfl
  next => rfl

/-- The bytes behind the body of a frame are left. -/
theorem rest_takeBody (assembler : Assembler) (run : List UInt8) :
    (assembler.takeBody run).2.2 =
      run.drop (declaredLength assembler.pending - assembler.pending.size) := by
  rw [takeBody]
  split
  next => split <;> rfl
  next => rfl

/-- A part of a run that is not empty is taken in as the outcome of a turn tells, and the rest of
the run is left. -/
def TakesPart (assembler : Assembler) (run : List UInt8)
    (turned : Assembler × Option FrameError × List UInt8) : Prop :=
  ∃ part, part ≠ [] ∧ run = part ++ turned.2.2 ∧
    assembler.pushList part = (turned.1, turned.2.1)

/-- With the length known, a turn takes as much of the frame as there is. -/
theorem takesPart_of_known (sound : assembler.Sound) (known : 2 ≤ assembler.pending.size)
    {run : List UInt8} (nonempty : run ≠ []) : TakesPart assembler run (assembler.turn run) := by
  obtain ⟨header, within, below⟩ := sound.begun.resolve_left (Nat.not_lt.mpr known)
  have allowed := lengthError?_eq_none.mpr ⟨header, within⟩
  have turned : assembler.turn run = assembler.takeBody run := by
    simp only [turn, Nat.sub_eq_zero_of_le known, List.take_zero, List.drop_zero,
      Array.append_empty, if_neg (Nat.not_lt.mpr known), allowed]
  rw [turned, TakesPart, rest_takeBody]
  have missing : declaredLength assembler.pending - assembler.pending.size ≠ 0 := by omega
  exact ⟨_, by simp [missing, nonempty], (List.take_append_drop _ run).symm,
    pushList_takeBody known allowed below run⟩

/-- A turn takes in a part of the run. -/
theorem takesPart_turn (sound : assembler.Sound) {run : List UInt8} (nonempty : run ≠ []) :
    TakesPart assembler run (assembler.turn run) := by
  by_cases known : 2 ≤ assembler.pending.size
  · exact takesPart_of_known sound known nonempty
  generalize lacking : 2 - assembler.pending.size = missing
  have head : run.take missing ≠ [] := by
    have positive : missing ≠ 0 := by omega
    simp [positive, nonempty]
  have parts := (run.take_append_drop missing).symm
  rw [turn, lacking]
  have size : (assembler.pending ++ (run.take missing).toArray).size =
      assembler.pending.size + (run.take missing).length := by
    simp only [Array.size_append, List.size_toArray]
  by_cases unknown : (assembler.pending ++ (run.take missing).toArray).size < 2
  · rw [if_pos unknown]
    exact ⟨_, head, parts, pushList_short (size ▸ unknown)⟩
  · rw [if_neg unknown]
    have complete : assembler.pending.size + (run.take missing).length = 2 := by
      rw [List.length_take] at size ⊢
      omega
    have judged := pushList_head head complete
    cases checked : lengthError? assembler.limits
        (declaredLength (assembler.pending ++ (run.take missing).toArray)) with
    | some error =>
        rw [checked] at judged
        exact ⟨_, head, parts, judged⟩
    | none =>
        rw [checked] at judged
        have least : Header.size = 4 := rfl
        have allowed := lengthError?_eq_none.mp checked
        let middle := { assembler with pending := assembler.pending ++ (run.take missing).toArray }
        have enough : 2 ≤ middle.pending.size := Nat.le_of_not_lt unknown
        have below : middle.pending.size < declaredLength middle.pending := by
          simp only [middle]
          omega
        have taken := pushList_takeBody enough checked below (run.drop missing)
        refine ⟨run.take missing ++ (run.drop missing).take
          (declaredLength middle.pending - middle.pending.size), by simp [head], ?_, ?_⟩
        · change run = _ ++ (middle.takeBody (run.drop missing)).2.2
          rw [rest_takeBody, List.append_assoc, List.take_append_drop, List.take_append_drop]
        · rw [pushList_append, judged]
          exact taken

/-- **Taking in by turns comes to the same.** -/
theorem pushList_eq_turns {assembler : Assembler} (sound : assembler.Sound) (run : List UInt8) :
    assembler.pushList run = assembler.turns run := by
  rw [turns]
  split
  next empty =>
    rw [List.isEmpty_iff.mp empty]
    rfl
  next more =>
    obtain ⟨part, nonempty, parts, taken⟩ :=
      takesPart_turn sound (fun empty => more (List.isEmpty_iff.mpr empty))
    have whole : assembler.pushList run = _ := (congrArg _ parts).trans (pushList_append _ _ _)
    have kept := (takes_pushList sound part).sound
    have shorter : (assembler.turn run).2.2.length < run.length := by
      have length := congrArg List.length parts
      rw [List.length_append] at length
      have positive := List.length_pos_iff.mpr nonempty
      omega
    rw [taken] at whole kept
    rcases turned : assembler.turn run with ⟨after, _ | error, rest⟩
    all_goals rw [turned] at whole kept shorter
    · have less : rest.length < run.length := shorter
      rw [whole]
      dsimp only
      rw [if_pos less]
      exact pushList_eq_turns kept rest
    · exact whole
  termination_by run.length

/-! ## Histories -/

/-- What can be done with an assembler. -/
inductive Operation where
  | push (chunk : Bytes)
  | pop
  | reset

/-- An assembler with all bytes that came in, the frames that were taken out, and whether anything
was refused or forgotten meanwhile. -/
structure History where
  assembler : Assembler
  pushed : List UInt8
  popped : List Bytes
  broken : Bool

namespace History

/-- Nothing has happened yet. -/
def start (limits : Limits) : History := ⟨new limits, [], [], false⟩

/-- The history after one more operation. -/
def apply (history : History) : Operation → History
  | .push chunk =>
    let (assembler, result) := history.assembler.push chunk
    { history with
      assembler := assembler
      pushed := history.pushed ++ chunk.toList
      broken := history.broken || !result.isOk }
  | .pop =>
    let (frame, assembler) := history.assembler.pop
    { history with assembler := assembler, popped := history.popped ++ frame.toList }
  | .reset => { history with assembler := history.assembler.reset, broken := true }

/-- The history of an assembler with which some operations were done. -/
def run (limits : Limits) (operations : List Operation) : History :=
  operations.foldl apply (start limits)

end History

/-- What holds of an assembler and its history. Of what is to come, too: a chunk that is refused
leaves nothing pending but keeps the frames that waited and those that it completes. -/
structure Conserved (limits : Limits) (history : History) : Prop where
  limits : history.assembler.limits = limits
  sound : history.assembler.Sound
  bytes : history.broken = false →
    joined (history.popped ++ history.assembler.frames.toList) ++
      history.assembler.pending.toList = history.pushed
  chunks : ∀ chunk, TakesChunk history.assembler chunk (history.assembler.push chunk)

/-- The frame that is taken out is the first one that waits. -/
theorem toList_pop (assembler : Assembler) :
    assembler.pop.1.toList ++ assembler.pop.2.frames.toList = assembler.frames.toList := by
  obtain ⟨limits, pending, ⟨frames⟩⟩ := assembler
  cases frames <;> simp [pop]

/-- An assembler stays sound when a frame is taken out. -/
theorem sound_pop (sound : assembler.Sound) : assembler.pop.2.Sound where
  frames frame member := by
    apply sound.frames
    rw [← toList_pop]
    exact List.mem_append_right _ member
  waiting := by
    have fewer := congrArg List.length (toList_pop assembler)
    rw [List.length_append] at fewer
    exact Nat.le_trans (Nat.le_of_add_left_le (Nat.le_of_eq fewer)) sound.waiting
  begun := sound.begun

/-- A chunk conserves the bytes. -/
theorem conserved_push {history : History} (conserved : Conserved limits history) (chunk : Bytes) :
    Conserved limits (history.apply (.push chunk)) := by
  have taken := conserved.chunks chunk
  rcases pushed : history.assembler.push chunk with ⟨after, error | waiting⟩
  all_goals rw [pushed] at taken; simp only [History.apply, pushed]
  · exact {
      limits := taken.limits.trans conserved.limits
      sound := taken.sound
      bytes := by simp [Except.isOk, Except.toBool]
      chunks := takes_push taken.sound }
  · obtain ⟨completed, _, _, frames, bytes, rfl⟩ := taken.1.account
    exact {
      limits := taken.1.limits.trans conserved.limits
      sound := taken.1.sound
      bytes := by
        intro intact
        have before := conserved.bytes (by simpa [Except.isOk, Except.toBool] using intact)
        calc joined (history.popped ++ after.frames.toList) ++ after.pending.toList
            = joined (history.popped ++ history.assembler.frames.toList) ++
                (joined completed ++ after.pending.toList ++ []) := by
              simp only [frames, joined_append, List.append_assoc, List.append_nil]
          _ = history.pushed ++ chunk.toList := by
              rw [← bytes, ← before, List.append_assoc]
      chunks := takes_push taken.1.sound }

/-- A frame that is taken out conserves the bytes. -/
theorem conserved_pop {history : History} (conserved : Conserved limits history) :
    Conserved limits (history.apply .pop) where
  limits := conserved.limits
  sound := sound_pop conserved.sound
  bytes := by
    intro intact
    have before := conserved.bytes intact
    rw [← toList_pop history.assembler, ← List.append_assoc] at before
    exact before
  chunks := takes_push (sound_pop conserved.sound)

/-- A reset conserves the bytes up to what it forgets. -/
theorem conserved_reset {history : History} (conserved : Conserved limits history) :
    Conserved limits (history.apply .reset) where
  limits := conserved.limits
  sound := sound_new _
  bytes intact := by cases intact
  chunks := takes_push (sound_new _)

/-- **Operations conserve the bytes**, however many. -/
theorem conserved_foldl {history : History} (conserved : Conserved limits history)
    (operations : List Operation) :
    Conserved limits (operations.foldl History.apply history) := by
  induction operations generalizing history with
  | nil => exact conserved
  | cons operation rest ih =>
      cases operation with
      | push chunk => exact ih (conserved_push conserved chunk)
      | pop => exact ih (conserved_pop conserved)
      | reset => exact ih (conserved_reset conserved)

/-- **Frames lose no bytes.** Whatever is done with an assembler, at most as many frames wait as are
allowed, each as long as its first two bytes say and within the limits; what is pending is the
beginning of such a frame; and until something is refused or forgotten, the frames that were taken
out, those that wait and what is pending are all bytes that came in. A chunk that is refused leaves
nothing pending, but keeps all frames that were whole before the bytes that are refused. -/
theorem conserved_run (limits : Limits) (operations : List Operation) :
    Conserved limits (History.run limits operations) :=
  have start : Conserved limits (.start limits) := {
    limits := rfl
    sound := sound_new limits
    bytes := fun _ => rfl
    chunks := takes_push (sound_new limits) }
  conserved_foldl start operations

end Relay.Frame.Assembler
