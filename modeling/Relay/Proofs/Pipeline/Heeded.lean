import Relay.Proofs.Hook.Changed
import Relay.Proofs.Pipeline.Apart
import Relay.Proofs.Pipeline.Observed

/-! # What failing hooks have asked for

What a failing hook made of a message is undone, but what it asked for until then is done. Such a
hook cannot be told from one that asks for the same and lets the message pass: when the callbacks of
a pipeline are calmed, so that they let a message pass where they would fail
(`Relay.Pipeline.calmed`), a message comes to the same and leaves the same state behind
(`Relay.Pipeline.handle_calmed`). So its requests are written, removed and counted with those of the
other hooks (`Relay.Pipeline.heeds_handle`). -/

namespace Relay

variable {σ α β : Type}

/-! ## Callbacks that do not fail -/

/-- The end of a callback that lets what it was given pass where it would fail. -/
def Ending.calmed (given : α) : Ending α → Ending α
  | .ok result => .ok result
  | .error _ => .ok (.pass, given)

/-- A callback that does the same, and lets a message pass where it would fail. -/
def Callback.calmed : Callback σ → Callback σ
  | .raw run => .raw fun view code bytes =>
    (run view code bytes).bind fun ending => .done (Ending.calmed bytes ending)
  | .parsed version run => .parsed version fun view event =>
    (run view event).bind fun ending => .done (Ending.calmed event.data ending)

/-- A hook of which the callback does not fail. -/
def Hook.calmed (hook : Hook σ) : Hook σ :=
  { hook with callback := hook.callback.calmed }

/-- A pipeline of which no callback fails. -/
def Pipeline.calmed (pipeline : Pipeline σ) : Pipeline σ :=
  { pipeline with table := pipeline.table.mapHooks Hook.calmed }

theorem Hook.keepsPlace_calmed : KeepsPlace (@calmed σ) :=
  ⟨fun _ => rfl, fun _ => rfl, fun _ => rfl⟩

/-- Whatever becomes of the end of a program, the program asks for the same. -/
theorem Program.run_bind_done (view : HookView) (limit : Nat) (program : Program σ α)
    (after : α → β) (requests : Requests σ) :
    (program.bind fun result => .done (after result)).run view limit requests =
      (after (program.run view limit requests).1, (program.run view limit requests).2) := by
  induction program generalizing requests with
  | done => rfl
  | world change next ih => exact ih _ _
  | write request next ih =>
      obtain ⟨world, writes, unhooks, remarks⟩ := requests
      simp only [bind, run]
      split
      next => exact ih false ⟨world, writes, unhooks, remarks.push _⟩
      next => exact ih true ⟨world, writes.push request, unhooks, remarks⟩
  | unhook handle next ih => exact ih _
  | remark entry next ih => exact ih _

namespace Pipeline

namespace Passage

variable {pipeline : Pipeline σ} {passage other : Passage σ} {code : UInt16}

/-- A failure on the bytes comes to what letting them pass would have come to. -/
theorem endRaw_calmed (code : UInt16) (hook : Hook σ) (passage : Passage σ)
    (ending : Ending Bytes) :
    (passage.endRaw code hook.calmed (Ending.calmed passage.bytes ending)).bare =
      (passage.endRaw code hook ending).bare := by
  cases ending with
  | ok => rfl
  | error failure =>
      rw [Ending.calmed, endRaw, endRaw, beq_self_eq_true, if_pos rfl, bare_finish, bare_finish]
      rfl

/-- A failure on the object comes to what letting it pass would have come to. -/
theorem endParsed_calmed (hook : Hook σ) (resolved : Resolved) (passage : Passage σ)
    (object : Object) (ending : Ending Object) :
    (passage.endParsed hook.calmed resolved (Ending.calmed object ending)).bare =
      (passage.endParsed hook resolved ending).bare := by
  cases ending with
  | ok => rfl
  | error failure =>
      rw [Ending.calmed, endParsed.eq_def, endParsed.eq_def]
      dsimp only
      rw [bare_finish, bare_finish]
      rfl

/-- A calmed hook on the bytes does the same to the message. -/
theorem passRaw_calmed (hook : Hook σ)
    (run : HookView → UInt16 → Bytes → Program σ (Ending Bytes)) (same : passage.bare = other.bare)
    (remarks : Journal) : (passRaw pipeline code hook run passage).bare =
      (passRaw { pipeline.calmed with remarks := remarks } code hook.calmed
        (fun view code bytes => (run view code bytes).bind fun ending =>
          .done (Ending.calmed bytes ending)) other).bare := by
  rw [← bare_passRaw code hook.calmed _ same]
  unfold passRaw
  dsimp only
  rw [Program.run_bind_done]
  exact (endRaw_calmed code hook { passage with requests := _ } _).symm

/-- A calmed hook on the object does the same to the message. -/
theorem passParsed_calmed (hook : Hook σ) (resolved : Resolved) (object : Object)
    (run : HookView → Event → Program σ (Ending Object)) (same : passage.bare = other.bare)
    (remarks : Journal) : (passParsed pipeline hook resolved object run passage).bare =
      (passParsed { pipeline.calmed with remarks := remarks } hook.calmed resolved object
        (fun view event => (run view event).bind fun ending =>
          .done (Ending.calmed event.data ending)) other).bare := by
  rw [← bare_passParsed hook.calmed resolved object _ same]
  unfold passParsed
  dsimp only
  rw [Program.run_bind_done]
  exact (endParsed_calmed hook resolved { passage with requests := _ } object _).symm

/-- **One hook, calmed or not.** -/
theorem pass_calmed (same : passage.bare = other.bare) (remarks : Journal) (hook : Hook σ) :
    (passAfresh pipeline code passage hook).bare =
      (passAfresh { pipeline.calmed with remarks := remarks } code other hook.calmed).bare := by
  have flags : other.flags = passage.flags := congrArg (·.flags) same.symm
  have bytes : other.bytes = passage.bytes := congrArg (·.bytes) same.symm
  have filter : hook.calmed.filter = hook.filter := rfl
  have callback : hook.calmed.callback = hook.callback.calmed := rfl
  rw [passAfresh, passWith, passWith, flags, filter, callback]
  split
  next =>
    cases hook.callback with
    | raw run => exact passRaw_calmed hook run same remarks
    | parsed version run =>
        dsimp only [Callback.calmed, Pipeline.calmed]
        cases pipeline.store.resolve pipeline.protocol (.code code) version with
        | error => exact same
        | ok resolved =>
            dsimp only [readingAfresh]
            rw [bytes]
            cases (resolved.read pipeline.protocol passage.bytes).1.toOption with
            | none => exact same
            | some object => exact passParsed_calmed hook resolved object run same remarks
  next => exact same

end Passage

/-! ## Whole messages -/

section Messages

variable {pipeline : Pipeline σ} {passage other : Passage σ} {code : UInt16}

/-- A message passes the calmed hooks of its schedule as it passes the others. -/
theorem passScheduled_calmed (same : passage.bare = other.bare) (remarks : Journal) :
    (pipeline.passScheduled passAfresh code passage).bare =
      ({ pipeline.calmed with remarks := remarks }.passScheduled passAfresh code other).bare := by
  have schedule : (pipeline.table.mapHooks Hook.calmed).schedule code =
      pipeline.table.schedule code :=
    HookTable.schedule_mapHooks Hook.keepsPlace_calmed pipeline.table code
  unfold passScheduled
  dsimp only [calmed]
  rw [schedule]
  generalize pipeline.table.schedule code = entries
  induction entries generalizing passage other with
  | nil => exact same
  | cons entry rest ih =>
      have found : (pipeline.table.mapHooks Hook.calmed).get? entry.1 entry.2 =
          (pipeline.table.get? entry.1 entry.2).map Hook.calmed :=
        HookTable.get?_mapHooks Hook.keepsPlace_calmed pipeline.table entry.1 entry.2
      rw [List.foldl_cons, List.foldl_cons]
      apply ih
      unfold passEntry
      dsimp only
      rw [found]
      cases pipeline.table.get? entry.1 entry.2 with
      | none => exact same
      | some hook => exact Passage.pass_calmed same remarks hook

/-- The same pipeline with its callbacks calmed, whatever was told of it. -/
abbrev IsCalmed (pipeline other : Pipeline σ) : Prop :=
  pipeline.calmed.bare = other.bare

/-- What comes of a message is told alike, calmed or not. -/
theorem conclude_calmed (same : passage.bare = other.bare) (remarks : Journal) :
    (pipeline.conclude passage).1 =
        ({ pipeline.calmed with remarks := remarks }.conclude other).1 ∧
      IsCalmed (pipeline.conclude passage).2.1
        ({ pipeline.calmed with remarks := remarks }.conclude other).2.1 ∧
      (pipeline.conclude passage).2.2 =
        ({ pipeline.calmed with remarks := remarks }.conclude other).2.2 := by
  obtain ⟨readings, told, rfl⟩ := Passage.exists_of_bare_eq same
  have removed := HookTable.foldl_remove_mapHooks Hook.keepsPlace_calmed
    (passage.finished ++ passage.requests.unhooks.toList) pipeline.table
  refine ⟨rfl, ?_, rfl⟩
  exact congrArg (fun table => { (pipeline.conclude passage).2.1.bare with table := table })
    removed.symm

/-- To be calmed lasts through all that is done with a pipeline but to let messages pass. -/
theorem lasting_isCalmed : Lasting (@IsCalmed σ) where
  store same := congrArg (·.store) same
  protocol same := congrArg (·.protocol) same
  depth same := congrArg (·.depth) same
  remark same _ := same
  send same message := congrArg
    (fun pipeline => { pipeline with outbox := pipeline.outbox.push message }) same
  deeper same := congrArg (deeper 1) same
  outer same := congrArg outer same

/-- To be calmed lasts while messages pass. -/
theorem keepsHooks_isCalmed : KeepsHooks (@IsCalmed σ) passAfresh passAfresh := by
  intro pipeline other same bytes incoming fake
  unfold passHooks
  cases Frame.Header.read bytes with
  | error => exact ⟨rfl, same, rfl⟩
  | ok header =>
      have table : pipeline.table.mapHooks Hook.calmed = other.table := congrArg (·.table) same
      dsimp only
      rw [← table, HookTable.schedule_mapHooks Hook.keepsPlace_calmed]
      split
      next => exact ⟨rfl, same, rfl⟩
      next =>
        obtain ⟨remarks, rfl⟩ := exists_of_bare_eq same
        have arrives : (Passage.arriving pipeline bytes incoming fake).bare = (Passage.arriving
            { pipeline.calmed with remarks := remarks } bytes incoming fake).bare := rfl
        exact conclude_calmed (passScheduled_calmed arrives remarks) remarks

/-- **A hook that fails is as good as one that lets the message pass.** -/
theorem handle_calmed (pipeline : Pipeline σ) (bytes : Bytes) (incoming fake : Bool) :
    (pipeline.calmed.handle bytes incoming fake).1 = (pipeline.handle bytes incoming fake).1 ∧
      (pipeline.calmed.handle bytes incoming fake).2.bare =
        (pipeline.handle bytes incoming fake).2.calmed.bare := by
  obtain ⟨outcome, after⟩ := handle_bare pipeline bytes incoming fake
  obtain ⟨outcome', after'⟩ := handle_bare pipeline.calmed bytes incoming fake
  obtain ⟨alike, left⟩ := keeps_handleWith_flush lasting_isCalmed keepsHooks_isCalmed
    pipeline.levels pipeline pipeline.calmed rfl bytes incoming fake
  refine ⟨outcome'.trans (alike.symm.trans outcome.symm), ?_⟩
  calc
    (pipeline.calmed.handle bytes incoming fake).2.bare
      = (pipeline.calmed.handleAfresh bytes incoming fake).2.bare := after'
    _ = (pipeline.handleAfresh bytes incoming fake).2.calmed.bare := left.symm
    _ = (pipeline.handle bytes incoming fake).2.calmed.bare := (congrArg calmed after).symm

end Messages

/-! ## Requests of all hooks -/

namespace Handed

variable {start finish : Passage σ} {visits before after : List (Visit σ)}

/-- What hooks have asked to be written, one behind the other, is there when the message has passed
them. -/
theorem writes (handed : Handed start visits finish) :
    finish.requests.writes.toList =
      start.requests.writes.toList ++ visits.flatMap Visit.written := by
  induction visits generalizing start with
  | nil =>
      obtain rfl := handed
      exact (List.append_nil _).symm
  | cons visit rest ih =>
      obtain ⟨rfl, later⟩ := handed
      rw [ih later, visit.writes_left, List.flatMap_cons, List.append_assoc]

/-- Visits that are handed on can be split anywhere. -/
theorem exists_between (handed : Handed start (before ++ after) finish) :
    ∃ between, Handed start before between ∧ Handed between after finish := by
  induction before generalizing start with
  | nil => exact ⟨start, rfl, handed⟩
  | cons visit rest ih =>
      obtain ⟨rfl, later⟩ := handed
      obtain ⟨between, first, second⟩ := ih later
      exact ⟨between, ⟨rfl, first⟩, second⟩

end Handed

/-- What the last hook leaves tells what hooks have asked to be written. -/
theorem handed_requests (pipeline : Pipeline σ) (bytes : Bytes) (incoming fake : Bool) :
    ∃ finish : Passage σ,
      Handed (.arriving pipeline bytes incoming fake) (pipeline.handling bytes incoming fake).visits
        finish ∧
      (pipeline.handling bytes incoming fake).requests = finish.requests.writes.toList := by
  cases front : Frame.Header.read bytes with
  | error =>
      refine ⟨.arriving pipeline bytes incoming fake, ?_, ?_⟩
      · rw [visits_of_short front]
        exact rfl
      · change (pipeline.passHooks Passage.pass bytes incoming fake).2.2 = _
        rw [passHooks, front]
        rfl
  | ok header =>
      rw [visits_of_front front]
      refine ⟨_, handed_visitsAlong _ _ _ _, ?_⟩
      exact congrArg (fun passed : Outcome × Pipeline σ × List WriteRequest => passed.2.2)
        (passHooks_of_front front incoming fake)

/-- A hook that some callback asks to be removed is not there any more when the message has
passed. -/
theorem Handling.ne_of_asked {handling : Handling σ} (inOrder : handling.pipeline.table.InOrder)
    {visit : Visit σ} (passes : visit ∈ handling.visits) {number : Nat}
    (asked : number ∈ visit.asked) :
    ∀ entry ∈ handling.passed.table.registered, entry.2.handle ≠ number := by
  rintro entry member rfl
  rw [registered_passed inOrder, List.mem_filter, Bool.not_eq_true'] at member
  have contained : (handling.visits.flatMap Visit.spends ++
      handling.visits.flatMap Visit.asked).contains entry.2.handle = true := by
    rw [List.contains_iff_mem]
    exact List.mem_append_right _ (List.mem_flatMap.mpr ⟨visit, passes, asked⟩)
  rw [contained] at member
  exact Bool.noConfusion member.2

/-- What becomes of a message and of the requests of its hooks, whether or not they fail. A hook
without a verdict, because it fails or is not called, leaves the message as it was (`undone`). All
that hooks have asked to be written until they end is requested (`requested`), and there is less
room by as much for those that follow (`room`). All hooks are gone that they have asked to be
removed (`removed`). Had those that fail let the message pass instead, all would have come to the
same (`calmed`). -/
structure Heeds (pipeline : Pipeline σ) (bytes : Bytes) (incoming fake : Bool) : Prop where
  undone : ∀ handling ∈ (pipeline.handling bytes incoming fake).begun, ∀ visit ∈ handling.visits,
    visit.verdict? = none →
      visit.left.bytes = visit.passage.bytes ∧ visit.left.flags = visit.passage.flags
  requested : ∀ handling ∈ (pipeline.handling bytes incoming fake).begun,
    handling.requests = handling.visits.flatMap Visit.written
  room : ∀ handling ∈ (pipeline.handling bytes incoming fake).begun, ∀ before visit after,
    handling.visits = before ++ visit :: after →
      visit.passage.requests.writes.toList = before.flatMap Visit.written
  removed : ∀ handling ∈ (pipeline.handling bytes incoming fake).begun, ∀ visit ∈ handling.visits,
    ∀ number ∈ visit.asked, ∀ entry ∈ handling.passed.table.registered, entry.2.handle ≠ number
  calmed : (pipeline.calmed.handle bytes incoming fake).1 =
      (pipeline.handle bytes incoming fake).1 ∧
    (pipeline.calmed.handle bytes incoming fake).2.bare =
      (pipeline.handle bytes incoming fake).2.calmed.bare

/-- **Requests of failing hooks are heeded.** Whatever was done with a new pipeline, a hook that
fails while a message is handled, or one that the message causes, leaves the message as it was, and
yet all is done that it has asked for before it failed, as if it had let the message pass. -/
theorem heeds_handle {store : Store} {protocol : UInt32} {limits : PipelineLimits} {world : σ}
    {start : Pipeline σ} (made : (Pipeline.new store protocol limits world).1 = .ok start)
    (operations : List (Operation σ)) (bytes : Bytes) (incoming fake : Bool) :
    Heeds (runAll operations start).2 bytes incoming fake := by
  have inOrder := inOrder_of_new made operations
  generalize (runAll operations start).2 = pipeline at inOrder ⊢
  constructor
  case undone =>
    intro handling member visit passes failed
    have makes := visit.makes_left
    have nothing := Visit.makes?_of_failed failed
    have bytes := makes.bytes
    rw [nothing] at bytes
    exact ⟨bytes, makes.still nothing failed⟩
  case requested =>
    intro handling member
    rw [eq_handling_of_mem member]
    obtain ⟨finish, handed, requested⟩ := handed_requests handling.pipeline handling.bytes
      handling.incoming handling.fake
    rw [requested]
    exact handed.writes
  case room =>
    intro handling member before visit after split
    obtain ⟨finish, handed, _⟩ := handed_requests handling.pipeline handling.bytes
      handling.incoming handling.fake
    rw [← eq_handling_of_mem member, split] at handed
    obtain ⟨between, first, second⟩ := handed.exists_between
    rw [second.1]
    exact first.writes
  case removed =>
    intro handling member visit passes number asked
    obtain ⟨_, _, _, follows, _⟩ := exists_level_of_mem member
    exact Handling.ne_of_asked (follows.table.inOrder inOrder) passes asked
  case calmed => exact handle_calmed pipeline bytes incoming fake

/-- A new connection on which the hooks of a message may write one message. -/
def crampedStart : Pipeline Unit :=
  ⟨unhooked.store, 1, ⟨1, 8⟩, .empty, #[], 0, (), #[]⟩

/-- A callback that asks for a message and for the removal of a hook, and then breaks off. -/
def torn : Callback Unit :=
  .raw fun _ _ _ => .write (.raw .toClient #[4, 0, 11, 0]) fun _ => .unhook 2 <|
    .done (.error (.panicked "torn"))

/-- A callback that asks for another message. -/
def answering : Callback Unit :=
  .raw fun _ _ bytes => .write (.raw .toClient #[4, 0, 12, 0]) fun _ => .done (.ok (.pass, bytes))

/-- A hook that breaks off, and one behind it. -/
def tearing : List (Operation Unit) :=
  [.hook none "C_ASK" torn .standard, .hook none "C_ASK" answering .standard]

/-- A hook that breaks off is heeded, though it takes the room of the one behind it. -/
theorem heeds_tearing :
    (Pipeline.new crampedStart.store 1 ⟨1, 8⟩ ()).1 = .ok crampedStart ∧
      Heeds (runAll tearing crampedStart).2 #[4, 0, 10, 0] false false :=
  have made : (Pipeline.new crampedStart.store 1 ⟨1, 8⟩ ()).1 = .ok crampedStart := rfl
  ⟨made, heeds_handle made tearing _ _ _⟩

/-- A hook fails, and yet the message is sent that it has asked for, the other hook is removed, and
there was no room for what this one has asked for. -/
theorem torn_heeded :
    let handling := (runAll tearing crampedStart).2.handling #[4, 0, 10, 0] false false
    let after := ((runAll tearing crampedStart).2.handle #[4, 0, 10, 0] false false).2
    handling.visits.map (fun visit => (visit.hook.handle, visit.called, visit.verdict?,
        visit.written.length, visit.asked)) =
      [(1, true, none, 1, [2]), (2, true, some .pass, 0, [])] ∧
      after.outbox = #[⟨.toClient, #[4, 0, 11, 0]⟩] ∧
      after.table.registered.map (·.2.handle) = [1] :=
  ⟨rfl, rfl, rfl⟩

end Pipeline

end Relay
