import Relay.Proofs.Hook.Changed
import Relay.Proofs.Pipeline.Afresh

/-! # Watching the callbacks of a pipeline

Callbacks can be watched: what each of them is called on and what it asks for is noted beside the
world that they share (`Relay.Pipeline.watched`), and this changes nothing else. So it can be told
that callbacks are called on the same messages, in the same order, whether what was read of a
message is kept or every hook reads it afresh (`Relay.Pipeline.handle_afresh`). -/

namespace Relay

variable {σ α : Type}

/-- What is seen of callbacks: what they are called on, what they ask to be written and whether
there is room for it, and which hooks they ask to be removed. -/
inductive Sighting where
  | raw (view : HookView) (code : UInt16) (bytes : Bytes)
  | parsed (view : HookView) (event : Event)
  | write (request : WriteRequest) (kept : Bool)
  | unhook (handle : Nat)

/-- Note a sighting beside the world. -/
def Sighting.note (sighting : Sighting) (world : σ × List Sighting) : σ × List Sighting :=
  (world.1, world.2 ++ [sighting])

namespace Program

/-- A program of which it is noted what it asks for. -/
def watched : Program σ α → Program (σ × List Sighting) α
  | .done result => .done result
  | .world change next => .world (Prod.map change id) fun world => (next world.1).watched
  | .write request next => .write request fun kept =>
    .world (Sighting.write request kept).note fun _ => (next kept).watched
  | .unhook handle next => .unhook handle
    (.world (Sighting.unhook handle).note fun _ => next.watched)
  | .remark entry next => .remark entry next.watched

end Program

/-- A callback of which it is noted what it is called on and what it asks for. -/
def Callback.watched : Callback σ → Callback (σ × List Sighting)
  | .raw run => .raw fun view code bytes =>
    .world (Sighting.raw view code bytes).note fun _ => (run view code bytes).watched
  | .parsed version run => .parsed version fun view event =>
    .world (Sighting.parsed view event).note fun _ => (run view event).watched

/-- A hook of which the callback is watched. -/
def Hook.watched (hook : Hook σ) : Hook (σ × List Sighting) :=
  { hook with callback := hook.callback.watched }

/-- A table of which all hooks are watched. -/
def HookTable.watched (table : HookTable σ) : HookTable (σ × List Sighting) :=
  ⟨table.groups.map fun (code, hooks) => (code, hooks.map Hook.watched), table.issued⟩

/-- Requests beside which it is noted what was seen. -/
def Requests.watched (seen : List Sighting) (requests : Requests σ) :
    Requests (σ × List Sighting) :=
  { requests with world := (requests.world, seen) }

/-- A passage beside which it is noted what was seen. -/
def Pipeline.Passage.watched (seen : List Sighting) (passage : Passage σ) :
    Passage (σ × List Sighting) :=
  { passage with requests := passage.requests.watched seen }

/-- A pipeline of which all hooks are watched. -/
def Pipeline.watched (seen : List Sighting) (pipeline : Pipeline σ) :
    Pipeline (σ × List Sighting) :=
  { pipeline with table := pipeline.table.watched, world := (pipeline.world, seen) }

@[simp]
theorem Hook.filter_watched (hook : Hook σ) : hook.watched.filter = hook.filter :=
  rfl

@[simp]
theorem Hook.callback_watched (hook : Hook σ) : hook.watched.callback = hook.callback.watched :=
  rfl

@[simp]
theorem Pipeline.Passage.flags_watched (seen : List Sighting) (passage : Passage σ) :
    (passage.watched seen).flags = passage.flags :=
  rfl

@[simp]
theorem Pipeline.Passage.bytes_watched (seen : List Sighting) (passage : Passage σ) :
    (passage.watched seen).bytes = passage.bytes :=
  rfl

@[simp]
theorem Pipeline.Passage.readings_watched (seen : List Sighting) (passage : Passage σ) :
    (passage.watched seen).readings = passage.readings :=
  rfl

@[simp]
theorem Pipeline.store_watched (seen : List Sighting) (pipeline : Pipeline σ) :
    (pipeline.watched seen).store = pipeline.store :=
  rfl

@[simp]
theorem Pipeline.protocol_watched (seen : List Sighting) (pipeline : Pipeline σ) :
    (pipeline.watched seen).protocol = pipeline.protocol :=
  rfl

/-- Watching a program does not change what it does. -/
theorem Program.run_watched (view : HookView) (limit : Nat) (program : Program σ α)
    (requests : Requests σ) (seen : List Sighting) :
    ∃ now, program.watched.run view limit (requests.watched seen) =
      ((program.run view limit requests).1, (program.run view limit requests).2.watched now) := by
  induction program generalizing requests seen with
  | done result => exact ⟨seen, rfl⟩
  | world change next ih =>
      obtain ⟨world, writes, unhooks, remarks⟩ := requests
      exact ih (change world) ⟨change world, writes, unhooks, remarks⟩ seen
  | write request next ih =>
      obtain ⟨world, writes, unhooks, remarks⟩ := requests
      simp only [watched, run, Requests.watched]
      split
      next =>
        exact ih false ⟨world, writes, unhooks, remarks.push _⟩ (seen ++ [.write request false])
      next =>
        exact ih true ⟨world, writes.push request, unhooks, remarks⟩
          (seen ++ [.write request true])
  | unhook handle next ih =>
      obtain ⟨world, writes, unhooks, remarks⟩ := requests
      exact ih ⟨world, writes, unhooks.push handle, remarks⟩ (seen ++ [.unhook handle])
  | remark entry next ih =>
      obtain ⟨world, writes, unhooks, remarks⟩ := requests
      exact ih ⟨world, writes, unhooks, remarks.push entry⟩ seen

namespace HookTable

theorem keepsPlace_watched : Hook.KeepsPlace (@Hook.watched σ) :=
  ⟨fun _ => rfl, fun _ => rfl, fun _ => rfl⟩

theorem schedule_watched (table : HookTable σ) (code : UInt16) :
    table.watched.schedule code = table.schedule code :=
  schedule_mapHooks keepsPlace_watched table code

theorem get?_watched (table : HookTable σ) (code : Option UInt16) (handle : Nat) :
    table.watched.get? code handle = (table.get? code handle).map Hook.watched :=
  get?_mapHooks keepsPlace_watched table code handle

theorem remove_watched (table : HookTable σ) (handle : Nat) :
    table.watched.remove handle = (table.remove handle).watched :=
  remove_mapHooks keepsPlace_watched table handle

theorem insert_watched (table : HookTable σ) (code : Option UInt16) (hook : Nat → Hook σ) :
    table.watched.insert code (fun handle => (hook handle).watched) =
      ((table.insert code hook).1, (table.insert code hook).2.watched) :=
  insert_mapHooks keepsPlace_watched table code hook

theorem find?_watched (table : HookTable σ) (handle : Nat) :
    table.watched.find? handle = (table.find? handle).map Hook.watched :=
  find?_mapHooks keepsPlace_watched table handle

theorem removeOwnedBy_watched (table : HookTable σ) (owner : String) :
    table.watched.removeOwnedBy owner = (table.removeOwnedBy owner).watched :=
  removeOwnedBy_mapHooks keepsPlace_watched table owner

theorem foldl_remove_watched (handles : List Nat) (table : HookTable σ) :
    handles.foldl remove table.watched = (handles.foldl remove table).watched :=
  foldl_remove_mapHooks keepsPlace_watched handles table

end HookTable

namespace Pipeline

namespace Passage

variable {pipeline : Pipeline σ} {passage : Passage σ} {seen later now : List Sighting}

theorem judge_watched (verdict : Verdict) :
    (passage.watched seen).judge verdict = (passage.judge verdict).watched seen := by
  cases verdict <;> rfl

/-- A hook is spent alike, watched or not. -/
theorem finish_watched (hook : Hook σ) :
    (passage.watched seen).finish hook.watched = (passage.finish hook).watched seen := by
  rw [finish, finish]
  change (if hook.once then _ else _) = _
  split <;> rfl

/-- A hook on the bytes ends alike, watched or not. -/
theorem endRaw_watched (code : UInt16) (hook : Hook σ) (ending : Ending Bytes) :
    (passage.watched seen).endRaw code hook.watched ending =
      (passage.endRaw code hook ending).watched seen := by
  cases ending with
  | ok result =>
      obtain ⟨verdict, bytes⟩ := result
      rw [endRaw, endRaw, ← finish_watched, ← judge_watched]
      change (Passage.judge (if bytes == passage.bytes then _ else _) verdict).finish _ = _
      split <;> rfl
  | error failure =>
      rw [endRaw, endRaw, ← finish_watched]
      rfl

/-- A hook on the object ends alike, watched or not. -/
theorem endParsed_watched (hook : Hook σ) (resolved : Resolved) (ending : Ending Object) :
    (passage.watched seen).endParsed hook.watched resolved ending =
      (passage.endParsed hook resolved ending).watched seen := by
  rw [endParsed.eq_def, endParsed.eq_def]
  split
  next edited =>
    cases resolved.encode edited <;> simp only [← finish_watched] <;> rfl
  next =>
    rw [← finish_watched, ← judge_watched]
  next =>
    rw [← finish_watched]
    rfl

/-- A hook on the bytes does the same to the message when it is watched. -/
theorem passRaw_watched (code : UInt16) (hook : Hook σ)
    (run : HookView → UInt16 → Bytes → Program σ (Ending Bytes)) :
    ∃ now, passRaw (pipeline.watched later) code hook.watched
        (fun view code bytes => .world (Sighting.raw view code bytes).note fun _ =>
          (run view code bytes).watched) (passage.watched seen) =
      (passRaw pipeline code hook run passage).watched now := by
  obtain ⟨now, same⟩ := Program.run_watched (hook.view passage.flags pipeline.protocol)
    pipeline.limits.deferredWrites
    (run (hook.view passage.flags pipeline.protocol) code passage.bytes) passage.requests
    (seen ++ [.raw (hook.view passage.flags pipeline.protocol) code passage.bytes])
  refine ⟨now, Eq.trans ?_ (endRaw_watched code hook _)⟩
  exact congrArg (fun ran => { passage.watched seen with requests := ran.2 }.endRaw code
    hook.watched ran.1) same

/-- A hook on the object does the same to the message when it is watched. -/
theorem passParsed_watched (hook : Hook σ) (resolved : Resolved) (object : Object)
    (run : HookView → Event → Program σ (Ending Object)) :
    ∃ now, passParsed (pipeline.watched later) hook.watched resolved object
        (fun view event => .world (Sighting.parsed view event).note fun _ =>
          (run view event).watched) (passage.watched seen) =
      (passParsed pipeline hook resolved object run passage).watched now := by
  let event : Event := ⟨resolved.name, resolved.version, passage.flags, object⟩
  obtain ⟨now, same⟩ := Program.run_watched (hook.view passage.flags pipeline.protocol)
    pipeline.limits.deferredWrites
    (run (hook.view passage.flags pipeline.protocol) event) passage.requests
    (seen ++ [.parsed (hook.view passage.flags pipeline.protocol) event])
  refine ⟨now, Eq.trans ?_ (endParsed_watched hook resolved _)⟩
  exact congrArg (fun ran => { passage.watched seen with requests := ran.2 }.endParsed
    hook.watched resolved ran.1) same

/-- What was read is kept alike, watched or not. -/
theorem keep_watched (hook : Hook σ) (resolved : Resolved)
    (read : Except StoreError Object × Journal) :
    (passage.watched seen).keep hook.watched resolved read =
      (passage.keep hook resolved read).watched seen := by
  obtain ⟨result, remarks⟩ := read
  cases result <;> rfl

/-- A message is read alike, watched or not. -/
theorem reading_watched (hook : Hook σ) (resolved : Resolved) :
    reading (pipeline.watched later) hook.watched resolved (passage.watched seen) =
      ((reading pipeline hook resolved passage).1,
        (reading pipeline hook resolved passage).2.watched seen) := by
  rw [reading, reading, readings_watched, bytes_watched, protocol_watched]
  cases passage.readings.lookup resolved.version with
  | some found => rfl
  | none =>
      dsimp only
      rw [keep_watched]

end Passage

/-- Two ways to pass a hook of which the second is the first with the hook watched. -/
def WatchesPass (pass : Pipeline σ → UInt16 → Passage σ → Hook σ → Passage σ)
    (watching : Pipeline (σ × List Sighting) → UInt16 → Passage (σ × List Sighting) →
      Hook (σ × List Sighting) → Passage (σ × List Sighting)) : Prop :=
  ∀ (pipeline : Pipeline σ) code passage hook later seen, ∃ now,
    watching (pipeline.watched later) code (passage.watched seen) hook.watched =
      (pass pipeline code passage hook).watched now

/-- A hook is passed alike, watched or not, as long as messages are read alike. -/
theorem watches_passWith
    {reading : Pipeline σ → Hook σ → Resolved → Passage σ → Option Object × Passage σ}
    {watching : Pipeline (σ × List Sighting) → Hook (σ × List Sighting) → Resolved →
      Passage (σ × List Sighting) → Option Object × Passage (σ × List Sighting)}
    (reads : ∀ pipeline hook resolved passage later seen,
      watching (pipeline.watched later) hook.watched resolved (passage.watched seen) =
        ((reading pipeline hook resolved passage).1,
          (reading pipeline hook resolved passage).2.watched seen)) :
    WatchesPass (Passage.passWith reading) (Passage.passWith watching) := by
  intro pipeline code passage hook later seen
  rw [Passage.passWith, Passage.passWith]
  by_cases admitted : hook.filter.admits passage.flags = true
  · simp only [Hook.filter_watched, Passage.flags_watched, Hook.callback_watched, admitted, if_true]
    cases hook.callback with
    | raw run => exact Passage.passRaw_watched code hook run
    | parsed version run =>
        simp only [Callback.watched, store_watched, protocol_watched]
        cases pipeline.store.resolve pipeline.protocol (.code code) version with
        | error => exact ⟨seen, rfl⟩
        | ok resolved =>
            simp only [reads]
            rcases reading pipeline hook resolved passage with ⟨_ | object, after⟩
            · exact ⟨seen, rfl⟩
            · exact Passage.passParsed_watched hook resolved object run
  · simp only [Hook.filter_watched, Passage.flags_watched, admitted]
    exact ⟨seen, rfl⟩

/-- With its readings kept, a message passes watched hooks as it passes others. -/
theorem watches_pass : WatchesPass (@Passage.pass σ) Passage.pass :=
  watches_passWith fun _ hook resolved _ _ _ => Passage.reading_watched hook resolved

theorem watches_passAfresh : WatchesPass (@passAfresh σ) passAfresh :=
  watches_passWith fun _ _ _ _ _ _ => rfl

/-! ## Whole messages -/

section Messages

variable {pass : Pipeline σ → UInt16 → Passage σ → Hook σ → Passage σ}
  {watching : Pipeline (σ × List Sighting) → UInt16 → Passage (σ × List Sighting) →
    Hook (σ × List Sighting) → Passage (σ × List Sighting)}

/-- A message passes the hooks of its schedule alike, watched or not. -/
theorem passScheduled_watched (watches : WatchesPass pass watching) (pipeline : Pipeline σ)
    (code : UInt16) (passage : Passage σ) (later seen : List Sighting) :
    ∃ now, (pipeline.watched later).passScheduled watching code (passage.watched seen) =
      (pipeline.passScheduled pass code passage).watched now := by
  rw [passScheduled, passScheduled]
  change ∃ now, (pipeline.table.watched.schedule code).foldl _ _ = _
  rw [HookTable.schedule_watched]
  induction pipeline.table.schedule code generalizing passage seen with
  | nil => exact ⟨seen, rfl⟩
  | cons entry rest ih =>
      have found : (pipeline.watched later).table.get? entry.1 entry.2 =
          (pipeline.table.get? entry.1 entry.2).map Hook.watched :=
        HookTable.get?_watched pipeline.table entry.1 entry.2
      rw [List.foldl_cons, List.foldl_cons, passEntry, passEntry, found]
      cases pipeline.table.get? entry.1 entry.2 with
      | none => exact ih passage seen
      | some hook =>
          obtain ⟨between, same⟩ := watches pipeline code passage hook later seen
          rw [Option.map_some]
          dsimp only
          rw [same]
          exact ih _ between

/-- What comes of a message is told alike, watched or not. -/
theorem conclude_watched (pipeline : Pipeline σ) (passage : Passage σ)
    (later seen : List Sighting) :
    (pipeline.watched later).conclude (passage.watched seen) = ((pipeline.conclude passage).1,
      (pipeline.conclude passage).2.1.watched seen, (pipeline.conclude passage).2.2) := by
  have removed := HookTable.foldl_remove_watched
    (passage.finished ++ passage.requests.unhooks.toList) pipeline.table
  exact congrArg (fun table => ((pipeline.conclude passage).1,
    { (pipeline.conclude passage).2.1.watched seen with table := table },
    (pipeline.conclude passage).2.2)) removed

/-- A message passes its hooks alike, watched or not. -/
theorem passHooks_watched (watches : WatchesPass pass watching) (pipeline : Pipeline σ)
    (seen : List Sighting) (bytes : Bytes) (incoming fake : Bool) :
    ∃ now, (pipeline.watched seen).passHooks watching bytes incoming fake =
      ((pipeline.passHooks pass bytes incoming fake).1,
        (pipeline.passHooks pass bytes incoming fake).2.1.watched now,
        (pipeline.passHooks pass bytes incoming fake).2.2) := by
  rw [passHooks, passHooks]
  cases Frame.Header.read bytes with
  | error => exact ⟨seen, rfl⟩
  | ok header =>
      have scheduled : (pipeline.watched seen).table.schedule header.code =
          pipeline.table.schedule header.code :=
        HookTable.schedule_watched pipeline.table header.code
      dsimp only
      rw [scheduled]
      split
      next => exact ⟨seen, rfl⟩
      next =>
        obtain ⟨now, same⟩ := passScheduled_watched watches pipeline header.code
          ⟨bytes, ⟨fake, incoming, false, false⟩, [], [],
            ⟨pipeline.world, #[], #[], pipeline.remarks⟩⟩ seen seen
        exact ⟨now, (congrArg (pipeline.watched seen).conclude same).trans
          (conclude_watched pipeline _ seen now)⟩

/-- The same pipeline with its hooks watched, whatever was seen of them. -/
def IsWatched (pipeline : Pipeline σ) (other : Pipeline (σ × List Sighting)) : Prop :=
  ∃ seen, other = pipeline.watched seen

/-- To be watched lasts through all that is done with a pipeline but to let messages pass. -/
theorem lasting_isWatched : Lasting (@IsWatched σ) where
  store := fun ⟨_, same⟩ => (congrArg (·.store) same).symm
  protocol := fun ⟨_, same⟩ => (congrArg (·.protocol) same).symm
  depth := fun ⟨_, same⟩ => (congrArg (·.depth) same).symm
  remark := fun ⟨seen, same⟩ entry => ⟨seen, congrArg (·.remark entry) same⟩
  send := fun ⟨seen, same⟩ message => ⟨seen, congrArg
    (fun pipeline => { pipeline with outbox := pipeline.outbox.push message }) same⟩
  deeper := fun ⟨seen, same⟩ => ⟨seen, congrArg (deeper 1) same⟩
  outer := fun ⟨seen, same⟩ => ⟨seen, congrArg outer same⟩

/-- To be watched lasts while messages pass. -/
theorem keepsHooks_isWatched (watches : WatchesPass pass watching) :
    KeepsHooks IsWatched pass watching := by
  rintro pipeline other ⟨seen, rfl⟩ bytes incoming fake
  obtain ⟨now, same⟩ := passHooks_watched watches pipeline seen bytes incoming fake
  rw [same]
  exact ⟨rfl, ⟨now, rfl⟩, rfl⟩

/-- A watched pipeline handles messages as the other does. -/
theorem keeps_handle : Keeps (@IsWatched σ) handle handle := by
  rintro pipeline other ⟨seen, rfl⟩
  exact keeps_handleWith_flush lasting_isWatched (keepsHooks_isWatched watches_pass)
    pipeline.levels pipeline _ ⟨seen, rfl⟩

/-- A watched pipeline that reads afresh handles messages as the other does. -/
theorem keeps_handleAfresh : Keeps (@IsWatched σ) handleAfresh handleAfresh := by
  rintro pipeline other ⟨seen, rfl⟩
  exact keeps_handleWith_flush lasting_isWatched (keepsHooks_isWatched watches_passAfresh)
    pipeline.levels pipeline _ ⟨seen, rfl⟩

/-- What is seen of the callbacks while a message is handled. -/
def sightings (handle : Pipeline (σ × List Sighting) → Bytes → Bool → Bool →
    Outcome × Pipeline (σ × List Sighting)) (pipeline : Pipeline σ) (bytes : Bytes)
    (incoming fake : Bool) : List Sighting :=
  (handle (pipeline.watched []) bytes incoming fake).2.world.2

/-- **To watch changes nothing.** A watched pipeline does what the other does, and tells besides
what its callbacks were called on. -/
theorem handle_watched {handle : Pipeline σ → Bytes → Bool → Bool → Outcome × Pipeline σ}
    {watching : Pipeline (σ × List Sighting) → Bytes → Bool → Bool →
      Outcome × Pipeline (σ × List Sighting)}
    (keeps : Keeps IsWatched handle watching) (pipeline : Pipeline σ) (bytes : Bytes)
    (incoming fake : Bool) :
    watching (pipeline.watched []) bytes incoming fake =
      ((handle pipeline bytes incoming fake).1, (handle pipeline bytes incoming fake).2.watched
        (pipeline.sightings watching bytes incoming fake)) := by
  obtain ⟨outcome, now, same⟩ := keeps pipeline _ ⟨[], rfl⟩ bytes incoming fake
  have seen : pipeline.sightings watching bytes incoming fake = now := by
    rw [sightings, same]
    rfl
  rw [seen]
  exact Prod.ext outcome.symm same

/-- **Keeping what was read cannot be observed.** A pipeline that keeps nothing and reads the bytes
of a message as they are for every hook comes to the same outcome and the same state. Its callbacks
are called on the same in the same order and ask for the same, and that they are watched changes
nothing else for either of the two. -/
theorem handle_afresh (pipeline : Pipeline σ) (bytes : Bytes) (incoming fake : Bool) :
    (pipeline.handle bytes incoming fake).1 = (pipeline.handleAfresh bytes incoming fake).1 ∧
      (pipeline.handle bytes incoming fake).2.bare =
        (pipeline.handleAfresh bytes incoming fake).2.bare ∧
      pipeline.sightings handle bytes incoming fake =
        pipeline.sightings handleAfresh bytes incoming fake ∧
      (pipeline.watched []).handle bytes incoming fake =
        ((pipeline.handle bytes incoming fake).1, (pipeline.handle bytes incoming fake).2.watched
          (pipeline.sightings handle bytes incoming fake)) ∧
      (pipeline.watched []).handleAfresh bytes incoming fake =
        ((pipeline.handleAfresh bytes incoming fake).1,
          (pipeline.handleAfresh bytes incoming fake).2.watched
            (pipeline.sightings handleAfresh bytes incoming fake)) := by
  obtain ⟨outcome, same⟩ := handle_bare pipeline bytes incoming fake
  obtain ⟨_, watched⟩ := handle_bare (pipeline.watched []) bytes incoming fake
  exact ⟨outcome, same, congrArg (·.world.2) watched,
    handle_watched keeps_handle pipeline bytes incoming fake,
    handle_watched keeps_handleAfresh pipeline bytes incoming fake⟩

end Messages

end Pipeline

end Relay
