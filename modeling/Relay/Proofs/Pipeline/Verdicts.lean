import Relay.Proofs.Pipeline.Visited

/-! # What verdicts make of a message

The hooks of a message are visited one after the other, and each finds the message as the one before
has left it (`Relay.Pipeline.Handed`). A visit changes the message by how the callback ends and by
nothing else (`Relay.Pipeline.Visit.makes_left`): a callback on the bytes that does not fail leaves
its bytes, an object that is accepted is written back. So bytes that differ are always marked as
modified, and of the verdicts the last that decides tells whether the message is dropped
(`Relay.Pipeline.governed_handle`). -/

namespace Relay

variable {σ : Type}

/-- Whether a message is silenced after a verdict. -/
def Verdict.silences (silenced : Bool) : Verdict → Bool
  | .pass => silenced
  | .accept => false
  | .silence => true

/-- The last verdict of at most one that decides is that verdict. -/
theorem Verdict.elim_getLast? (verdict : Option Verdict) (silenced : Bool) :
    (verdict.toList.filter (· ≠ .pass)).getLast?.elim silenced (· == .silence) =
      verdict.elim silenced (·.silences silenced) := by
  rcases verdict with _ | _ | _ | _ <;> rfl

namespace Pipeline

namespace Ended

/-- The verdict of a callback, unless it failed. -/
def verdict? : Ended → Option Verdict
  | .raw ending => ending.toOption.map Prod.fst
  | .parsed _ ending => ending.toOption.map Prod.fst

/-- The bytes that a callback makes of a message: those that it leaves, or those of the object that
it accepts, if the definition can write it. -/
def makes? : Ended → Option Bytes
  | .raw ending => ending.toOption.map Prod.snd
  | .parsed resolved (.ok (.accept, object)) => (resolved.encode object).toOption
  | .parsed _ _ => none

end Ended

/-! ## One hook -/

/-- What becomes of a message when a callback has made some bytes of it, if any, and has given a
verdict, if any. -/
structure Makes (before after : Passage σ) (made : Option Bytes) (verdict : Option Verdict) :
    Prop where
  bytes : after.bytes = made.getD before.bytes
  raised : before.flags.modified = true → after.flags.modified = true
  marked : after.bytes ≠ before.bytes → after.flags.modified = true
  silenced : after.flags.silenced =
    verdict.elim before.flags.silenced (·.silences before.flags.silenced)
  still : made = none → verdict = none → after.flags = before.flags

namespace Makes

variable {before middle after : Passage σ} {made : Option Bytes} {verdict : Option Verdict}

theorem refl (passage : Passage σ) : Makes passage passage none none :=
  ⟨rfl, id, fun differs => absurd rfl differs, rfl, fun _ _ => rfl⟩

/-- A callback finds the message as it is, whatever was read of it. -/
theorem of_reading (makes : Makes middle after made verdict) (bytes : middle.bytes = before.bytes)
    (flags : middle.flags = before.flags) : Makes before after made verdict := by
  obtain ⟨left, raised, marked, silenced, still⟩ := makes
  rw [bytes] at left marked
  rw [flags] at raised silenced still
  exact ⟨left, raised, marked, silenced, still⟩

theorem complain (makes : Makes before after made verdict) (hook : Hook σ) (text : String)
    (details : List (String × String)) :
    Makes before (after.complain hook text details) made verdict :=
  ⟨makes.bytes, makes.raised, makes.marked, makes.silenced, makes.still⟩

/-- That a hook has run makes nothing of the message. -/
theorem finish (makes : Makes before after made verdict) (hook : Hook σ) :
    Makes before (after.finish hook) made verdict := by
  rw [Passage.finish]
  split <;> exact ⟨makes.bytes, makes.raised, makes.marked, makes.silenced, makes.still⟩

/-- A verdict changes the flags as it says, and makes no bytes. -/
theorem judge (makes : Makes before after made none) (verdict : Verdict) :
    Makes before (after.judge verdict) made (some verdict) := by
  obtain ⟨left, raised, marked, silenced, still⟩ := makes
  cases verdict with
  | pass => exact ⟨left, raised, marked, silenced, nofun⟩
  | accept => exact ⟨left, raised, marked, rfl, nofun⟩
  | silence => exact ⟨left, raised, marked, rfl, nofun⟩

end Makes

/-- The end of a hook on the bytes makes of the message the bytes that it leaves. -/
theorem makes_endRaw (code : UInt16) (hook : Hook σ) (passage : Passage σ)
    (ending : Ending Bytes) :
    Makes passage (passage.endRaw code hook ending) (Ended.raw ending).makes?
      (Ended.raw ending).verdict? := by
  cases ending with
  | ok result =>
      obtain ⟨verdict, bytes⟩ := result
      refine (Makes.judge ?_ verdict).finish hook
      by_cases same : bytes = passage.bytes
      · subst same
        rw [beq_self_eq_true, if_pos rfl]
        exact ⟨rfl, id, fun differs => absurd rfl differs, rfl, nofun⟩
      · rw [if_neg (by simpa using same)]
        exact ⟨rfl, fun _ => rfl, fun _ => rfl, rfl, nofun⟩
  | error failure => exact ((Makes.refl passage).complain hook _ _).finish hook

/-- The end of a hook on the object makes of the message what is written of it, if it is
accepted. -/
theorem makes_endParsed (hook : Hook σ) (resolved : Resolved) (passage : Passage σ)
    (ending : Ending Object) :
    Makes passage (passage.endParsed hook resolved ending) (Ended.parsed resolved ending).makes?
      (Ended.parsed resolved ending).verdict? := by
  rw [Passage.endParsed.eq_def]
  split
  next edited =>
    rw [Ended.makes?]
    cases resolved.encode edited with
    | ok bytes =>
        refine Makes.finish ?_ hook
        exact ⟨rfl, fun _ => rfl, fun _ => rfl, rfl,
          fun _ failed => absurd failed (Option.some_ne_none Verdict.accept)⟩
    | error error =>
        refine Makes.finish ?_ hook
        exact ⟨rfl, fun _ => rfl, fun _ => rfl, rfl,
          fun _ failed => absurd failed (Option.some_ne_none Verdict.accept)⟩
  next verdict edited other =>
    have none : (Ended.parsed resolved (.ok (verdict, edited))).makes? = none := by
      cases verdict with
      | accept => exact absurd rfl other
      | pass => rfl
      | silence => rfl
    rw [none]
    exact ((Makes.refl passage).judge verdict).finish hook
  next failure => exact ((Makes.refl passage).complain hook _ _).finish hook

namespace Visit

/-- The bytes that the callback makes of the message, if any. -/
def makes? (visit : Visit σ) : Option Bytes :=
  visit.ended?.bind Ended.makes?

/-- The verdict of the callback, if it is called and does not fail. -/
def verdict? (visit : Visit σ) : Option Verdict :=
  visit.ended?.bind Ended.verdict?

/-- **A visit makes of a message what its callback makes of it.** -/
theorem makes_left (visit : Visit σ) :
    Makes visit.passage visit.left visit.makes? visit.verdict? := by
  cases visit.comes with
  | idle _ _ ended left =>
      rw [makes?, verdict?, ended]
      exact (Makes.refl visit.left).of_reading (congrArg (·.bytes) left) (congrArg (·.flags) left)
  | raw run _ _ _ ended left =>
      rw [makes?, verdict?, ended, left]
      exact (makes_endRaw _ _ _ _).of_reading rfl rfl
  | parsed version run resolved object passage _ _ read _ _ ended left =>
      rw [makes?, verdict?, ended, left]
      exact (makes_endParsed _ _ _ _).of_reading (congrArg (·.bytes) read)
        (congrArg (·.flags) read)

/-- A callback that gives no verdict makes nothing. -/
theorem makes?_of_failed {visit : Visit σ} (failed : visit.verdict? = none) :
    visit.makes? = none := by
  rw [verdict?] at failed
  rw [makes?]
  cases ended : visit.ended? with
  | none => rfl
  | some how =>
      rw [ended] at failed
      cases how with
      | raw ending =>
          cases ending with
          | ok => cases failed
          | error => rfl
      | parsed resolved ending =>
          cases ending with
          | ok => cases failed
          | error => rfl

end Visit

/-! ## One message -/

variable {start finish : Passage σ} {visits : List (Visit σ)}

/-- Hooks that are visited one after the other: the first finds the message as it is at the start,
each leaves it to the next, and the last leaves it as it is at the end. -/
def Handed (start : Passage σ) : List (Visit σ) → Passage σ → Prop
  | [], finish => start = finish
  | visit :: rest, finish => visit.passage = start ∧ Handed visit.left rest finish

/-- Along a schedule each hook finds the message as the one before has left it. -/
theorem handed_visitsAlong (pipeline : Pipeline σ) (code : UInt16) (passage : Passage σ)
    (entries : List (Option UInt16 × Nat)) :
    Handed passage (visitsAlong pipeline code passage entries)
      (entries.foldl (passEntry Passage.pass pipeline code) passage) := by
  induction entries generalizing passage with
  | nil => exact rfl
  | cons entry rest ih =>
      rw [visitsAlong, List.foldl_cons, passEntry]
      cases pipeline.table.get? entry.1 entry.2 with
      | none => exact ih passage
      | some hook => exact ⟨rfl, ih _⟩

/-- All visits of a message are by the same pipeline, on messages of its code. -/
theorem of_mem_visitsAlong {pipeline : Pipeline σ} {code : UInt16} {passage : Passage σ}
    {entries : List (Option UInt16 × Nat)} {visit : Visit σ}
    (member : visit ∈ visitsAlong pipeline code passage entries) :
    visit.pipeline = pipeline ∧ visit.code = code := by
  induction entries generalizing passage with
  | nil => cases member
  | cons entry rest ih =>
      rw [visitsAlong, List.mem_append, Option.mem_toList, Option.map_eq_some_iff] at member
      rcases member with ⟨hook, _, rfl⟩ | later
      · exact ⟨rfl, rfl⟩
      · exact ih later

/-- The verdicts that decide, in order. -/
def deciding (visits : List (Visit σ)) : List Verdict :=
  (visits.filterMap Visit.verdict?).filter (· ≠ .pass)

/-- The verdicts that decide come in the order of the visits. -/
theorem deciding_cons (visit : Visit σ) (rest : List (Visit σ)) :
    deciding (visit :: rest) = visit.verdict?.toList.filter (· ≠ .pass) ++ deciding rest := by
  rw [deciding, List.filterMap_cons]
  cases visit.verdict? with
  | none => rfl
  | some verdict => cases verdict <;> rfl

namespace Handed

/-- The last verdict that decides tells whether the message is silenced. -/
theorem silenced (handed : Handed start visits finish) :
    finish.flags.silenced =
      (deciding visits).getLast?.elim start.flags.silenced (· == .silence) := by
  induction visits generalizing start with
  | nil =>
      obtain rfl := handed
      rfl
  | cons visit rest ih =>
      obtain ⟨rfl, later⟩ := handed
      rw [ih later, visit.makes_left.silenced, deciding_cons, List.getLast?_append,
        ← Verdict.elim_getLast?]
      cases (deciding rest).getLast? <;> rfl

/-- What is marked as modified stays so. -/
theorem raised (handed : Handed start visits finish) (modified : start.flags.modified = true) :
    ∀ visit ∈ visits, visit.view.flags.modified = true := by
  induction visits generalizing start with
  | nil => exact List.forall_mem_nil _
  | cons visit rest ih =>
      obtain ⟨rfl, later⟩ := handed
      exact List.forall_mem_cons.mpr ⟨modified, ih later (visit.makes_left.raised modified)⟩

/-- Every hook behind one that leaves bytes other than `bytes` sees that they were modified. -/
theorem marked {bytes : Bytes} (handed : Handed start visits finish)
    (shown : start.bytes ≠ bytes → start.flags.modified = true) :
    visits.Pairwise fun visit later =>
      visit.left.bytes ≠ bytes → later.view.flags.modified = true := by
  induction visits generalizing start with
  | nil => exact .nil
  | cons visit rest ih =>
      obtain ⟨rfl, later⟩ := handed
      have after : visit.left.bytes ≠ bytes → visit.left.flags.modified = true := by
        intro differs
        by_cases same : visit.left.bytes = visit.passage.bytes
        · exact visit.makes_left.raised (shown (same ▸ differs))
        · exact visit.makes_left.marked same
      exact .cons (fun other member differs => later.raised (after differs) other member)
        (ih later after)

/-- Hooks that make no other bytes leave the bytes as they were. -/
theorem kept (handed : Handed start visits finish)
    (same : ∀ visit ∈ visits, ∀ made, visit.makes? = some made → made = visit.passage.bytes) :
    finish.bytes = start.bytes := by
  induction visits generalizing start with
  | nil =>
      obtain rfl := handed
      rfl
  | cons visit rest ih =>
      obtain ⟨rfl, later⟩ := handed
      obtain ⟨first, others⟩ := List.forall_mem_cons.mp same
      have left : visit.left.bytes = visit.passage.bytes := by
        rw [visit.makes_left.bytes]
        cases made : visit.makes? with
        | none => rfl
        | some bytes => exact first bytes made
      rw [ih later others, left]

end Handed

/-- How a message of some bytes comes through a pipeline, told by how the callbacks of its hooks
end. -/
structure Governed (pipeline : Pipeline σ) (bytes : Bytes) (incoming fake : Bool) : Prop where
  /-- What is no message is forwarded, and no callback is called. -/
  short : bytes.size < Frame.Header.size →
    (pipeline.handle bytes incoming fake).1 = .forward bytes ∧
      (pipeline.handling bytes incoming fake).visits = [] ∧
      pipeline.sightings handle bytes incoming fake = []
  /-- The callbacks that are called are those that end somehow. -/
  called : ∀ visit ∈ (pipeline.handling bytes incoming fake).visits,
    visit.called = visit.ended?.isSome
  /-- An object is read and written by the definition that the hook asks for, and under the code
  that the message came with. -/
  parsed : ∀ visit ∈ (pipeline.handling bytes incoming fake).visits, ∀ {resolved ending},
    visit.ended? = some (.parsed resolved ending) →
      resolved.code = Frame.Header.numberAt bytes 2 ∧
        ∃ version run, visit.hook.callback = .parsed version run ∧
          pipeline.store.resolve pipeline.protocol (.code resolved.code) version = .ok resolved
  /-- Each hook finds the message as the one before has left it, and the last one leaves it as it
  comes out. -/
  handed : ∃ finish : Passage σ,
    Handed (.arriving pipeline bytes incoming fake) (pipeline.handling bytes incoming fake).visits
      finish ∧ (pipeline.handle bytes incoming fake).1 = finish.outcome
  /-- A hook leaves the bytes as they were or as its callback made them. -/
  left : ∀ visit ∈ (pipeline.handling bytes incoming fake).visits,
    visit.left.bytes = visit.makes?.getD visit.passage.bytes
  /-- If no callback makes other bytes, the message is forwarded as it came or dropped. -/
  kept : (∀ visit ∈ (pipeline.handling bytes incoming fake).visits, ∀ made,
      visit.makes? = some made → made = visit.passage.bytes) →
    (pipeline.handle bytes incoming fake).1 = .forward bytes ∨
      (pipeline.handle bytes incoming fake).1 = .dropped
  /-- Once the bytes differ, every later hook sees that the message was modified. -/
  marked : (pipeline.handling bytes incoming fake).visits.Pairwise fun visit later =>
    visit.left.bytes ≠ bytes → later.view.flags.modified = true
  /-- The message is dropped if and only if the last verdict that decides is to silence it. -/
  dropped : (pipeline.handle bytes incoming fake).1 = .dropped ↔
    (deciding (pipeline.handling bytes incoming fake).visits).getLast? = some .silence

theorem visits_of_short {pipeline : Pipeline σ} {bytes : Bytes} {error : Frame.HeaderError}
    (short : Frame.Header.read bytes = .error error) (incoming fake : Bool) :
    (pipeline.handling bytes incoming fake).visits = [] := by
  rw [handling, handlingWith, Handling.visits, short]

/-- A message with a front visits the hooks of its schedule. -/
theorem visits_of_front {pipeline : Pipeline σ} {bytes : Bytes} {header : Frame.Header}
    (front : Frame.Header.read bytes = .ok header) (incoming fake : Bool) :
    (pipeline.handling bytes incoming fake).visits =
      visitsAlong pipeline header.code (.arriving pipeline bytes incoming fake)
        (pipeline.table.schedule header.code) := by
  rw [handling, handlingWith, Handling.visits, front]
  rfl

/-- A message visits hooks by the code that stands at its front. -/
theorem of_mem_visits {pipeline : Pipeline σ} {bytes : Bytes} {incoming fake : Bool}
    {visit : Visit σ} (member : visit ∈ (pipeline.handling bytes incoming fake).visits) :
    visit.pipeline = pipeline ∧ visit.code = Frame.Header.numberAt bytes 2 := by
  cases front : Frame.Header.read bytes with
  | error =>
      rw [visits_of_short front] at member
      cases member
  | ok header =>
      rw [visits_of_front front] at member
      obtain ⟨same, code⟩ := of_mem_visitsAlong member
      rw [Frame.Header.read] at front
      rcases ite_eq_iff.mp front with ⟨_, refused⟩ | ⟨_, read⟩
      · cases refused
      · cases read
        exact ⟨same, code⟩

/-- What is too short is forwarded as it is, and only remarked. -/
theorem handle_of_short (pipeline : Pipeline σ) {bytes : Bytes} {error : Frame.HeaderError}
    (short : Frame.Header.read bytes = .error error) (incoming fake : Bool) :
    ∃ entry, pipeline.handle bytes incoming fake = (.forward bytes, pipeline.remark entry) := by
  refine ⟨.warning "message shorter than its header, forwarding untouched"
    [("len", toString bytes.size)], ?_⟩
  rw [handle, handleWith, passHooks_of_short pipeline short]
  cases pipeline.levels <;> rfl

/-- The message as it comes out is what its last hook leaves. -/
theorem handed_handle (pipeline : Pipeline σ) (bytes : Bytes) (incoming fake : Bool) :
    ∃ finish : Passage σ,
      Handed (.arriving pipeline bytes incoming fake) (pipeline.handling bytes incoming fake).visits
        finish ∧ (pipeline.handle bytes incoming fake).1 = finish.outcome := by
  cases front : Frame.Header.read bytes with
  | error =>
      obtain ⟨entry, same⟩ := handle_of_short pipeline front incoming fake
      rw [visits_of_short front, same]
      exact ⟨.arriving pipeline bytes incoming fake, rfl, rfl⟩
  | ok header =>
      rw [visits_of_front front]
      refine ⟨_, handed_visitsAlong _ _ _ _, ?_⟩
      exact congrArg Prod.fst (passHooks_of_front front incoming fake)

/-- **The last verdict decides, and no bytes change unmarked.** However the callbacks of its hooks
end, a message comes out with the bytes that it came with or with those that one of them made; from
the first hook on that leaves other bytes all hooks see that it was modified; and it is dropped if
and only if the last verdict other than to pass is to silence it. A hook that fails decides nothing
and makes nothing. -/
theorem governed_handle (pipeline : Pipeline σ) (bytes : Bytes) (incoming fake : Bool) :
    Governed pipeline bytes incoming fake := by
  obtain ⟨finish, handed, outcome⟩ := handed_handle pipeline bytes incoming fake
  refine ⟨?_, ?_, ?_, ⟨finish, handed, outcome⟩, ?_, ?_, ?_, ?_⟩
  · intro short
    have none : Frame.Header.read bytes = .error (.tooSmall bytes.size Frame.Header.size) :=
      if_pos short
    obtain ⟨entry, same⟩ := handle_of_short pipeline none incoming fake
    obtain ⟨noted, unseen⟩ := handle_of_short (pipeline.watched []) none incoming fake
    refine ⟨congrArg Prod.fst same, visits_of_short none incoming fake, ?_⟩
    rw [sightings, unseen]
    rfl
  · exact fun visit _ => visit.called_eq
  · intro visit member resolved ending ended
    obtain ⟨same, code⟩ := of_mem_visits member
    obtain ⟨given, version, run, callback, known⟩ := Visit.exists_of_parsed ended
    rw [← given, same] at known
    exact ⟨given.trans code, version, run, callback, known⟩
  · exact fun visit _ => visit.makes_left.bytes
  · intro same
    rw [outcome, Passage.outcome, handed.kept same]
    split
    · exact .inr rfl
    · exact .inl rfl
  · exact handed.marked fun differs => absurd rfl differs
  · rw [outcome, Passage.outcome, handed.silenced]
    cases (deciding _).getLast? with
    | none => simp [Passage.arriving]
    | some verdict => cases verdict <;> simp

end Pipeline

end Relay
