import Relay.Proofs.Pipeline.Abreast
import Relay.Proofs.Protocol.Alike

/-! # Reading a message afresh for every hook

What was read of a message is kept for the hooks that follow. This cannot be told from a pipeline
that keeps nothing and reads the bytes of a message, as they are at that moment, for every hook that
wants an object (`Relay.Pipeline.passAfresh`): but for remarks, both do the same
(`Relay.Pipeline.handle_bare`). -/

namespace Relay

namespace Pipeline

variable {σ α : Type} {pipeline : Pipeline σ} {code : UInt16} {hook : Hook σ}

/-! ## The reference -/

/-- What a version of the message is read as, from its bytes as they are and nothing else. -/
def readingAfresh (pipeline : Pipeline σ) (_ : Hook σ) (resolved : Resolved)
    (passage : Passage σ) : Option Object × Passage σ :=
  ((resolved.read pipeline.protocol passage.bytes).1.toOption, passage)

/-- Pass a hook, if it sees the message, and read the message for it. -/
def passAfresh : Pipeline σ → UInt16 → Passage σ → Hook σ → Passage σ :=
  Passage.passWith readingAfresh

/-- Let a message pass its hooks, and read it afresh for every hook. -/
def handleAfresh (pipeline : Pipeline σ) (bytes : Bytes) (incoming fake : Bool) :
    Outcome × Pipeline σ :=
  pipeline.handleWith passAfresh (flush passAfresh pipeline.levels) bytes incoming fake

/-! ## Without remarks and readings -/

/-- A pipeline without what was told of it. -/
def bare (pipeline : Pipeline σ) : Pipeline σ :=
  { pipeline with remarks := #[] }

/-- Pipelines that differ in what was told of them at most. -/
theorem exists_of_bare_eq {other : Pipeline σ} (same : pipeline.bare = other.bare) :
    ∃ remarks, other = { pipeline with remarks := remarks } := by
  refine ⟨other.remarks, ?_⟩
  cases pipeline
  cases other
  cases same
  rfl

end Pipeline

/-- What a running hook has asked for, without remarks. -/
def Requests.bare {σ : Type} (requests : Requests σ) : Requests σ :=
  { requests with remarks := #[] }

/-- What a program does depends on no remarks. -/
theorem Program.run_bare {σ α : Type} (view : HookView) (limit : Nat) (program : Program σ α)
    {requests other : Requests σ} (same : requests.bare = other.bare) :
    (program.run view limit requests).1 = (program.run view limit other).1 ∧
      (program.run view limit requests).2.bare = (program.run view limit other).2.bare := by
  induction program generalizing requests other with
  | done => exact ⟨rfl, same⟩
  | world change next ih =>
      cases requests
      cases other
      cases same
      exact ih _ rfl
  | write request next ih =>
      cases requests
      cases other
      cases same
      rw [run, run]
      split
      next => exact ih false rfl
      next => exact ih true rfl
  | unhook handle next ih =>
      cases requests
      cases other
      cases same
      exact ih rfl
  | remark entry next ih =>
      cases requests
      cases other
      cases same
      exact ih rfl

namespace Pipeline

namespace Passage

variable {σ : Type} {pipeline : Pipeline σ} {passage other : Passage σ}

/-- A passage without remarks and without what was read. -/
def bare (passage : Passage σ) : Passage σ :=
  { passage with readings := [], requests := passage.requests.bare }

/-- What is the same but for readings and remarks differs in these only. -/
theorem exists_of_bare_eq (same : passage.bare = other.bare) :
    ∃ readings remarks, other = { passage with
      readings := readings, requests := { passage.requests with remarks := remarks } } := by
  obtain ⟨_, _, _, _, requests⟩ := passage
  obtain ⟨_, _, readings, _, others⟩ := other
  cases requests
  cases others
  cases same
  exact ⟨readings, _, rfl⟩

theorem bare_judge (verdict : Verdict) :
    (passage.judge verdict).bare = passage.bare.judge verdict := by
  cases verdict <;> rfl

theorem bare_finish (hook : Hook σ) : (passage.finish hook).bare = passage.bare.finish hook := by
  rw [finish, finish]
  split <;> rfl

/-- What is noted and kept does not matter for how a hook on the bytes ends. -/
theorem bare_endRaw (code : UInt16) (hook : Hook σ) (ending : Ending Bytes) :
    (passage.endRaw code hook ending).bare = (passage.bare.endRaw code hook ending).bare := by
  cases ending with
  | ok result =>
      obtain ⟨verdict, bytes⟩ := result
      rw [endRaw, endRaw, bare_finish, bare_finish, bare_judge, bare_judge]
      congr 2
      change (if bytes == passage.bytes then _ else _ : Passage σ).bare =
        (if bytes == passage.bytes then _ else _ : Passage σ).bare
      split <;> rfl
  | error failure =>
      rw [endRaw, endRaw, bare_finish, bare_finish]
      rfl

/-- What is noted and kept does not matter for how a hook on the object ends. -/
theorem bare_endParsed (hook : Hook σ) (resolved : Resolved) (ending : Ending Object) :
    (passage.endParsed hook resolved ending).bare =
      (passage.bare.endParsed hook resolved ending).bare := by
  rw [endParsed.eq_def, endParsed.eq_def]
  split
  next edited => cases resolved.encode edited <;> simp only [bare_finish] <;> rfl
  next =>
    rw [bare_finish, bare_finish, bare_judge, bare_judge]
    rfl
  next =>
    rw [bare_finish, bare_finish]
    rfl

theorem endRaw_congr (same : passage.bare = other.bare) {code : UInt16} {hook : Hook σ}
    {ending again : Ending Bytes} (ends : ending = again) :
    (passage.endRaw code hook ending).bare = (other.endRaw code hook again).bare := by
  rw [bare_endRaw, same, ends, ← bare_endRaw]

theorem endParsed_congr (same : passage.bare = other.bare) {hook : Hook σ} {resolved : Resolved}
    {ending again : Ending Object} (ends : ending = again) :
    (passage.endParsed hook resolved ending).bare = (other.endParsed hook resolved again).bare := by
  rw [bare_endParsed, same, ends, ← bare_endParsed]

theorem bare_requests (readings : List (UInt32 × Option Object)) {requests others : Requests σ}
    (alike : requests.bare = others.bare) : { passage with requests := requests }.bare =
      { passage with readings := readings, requests := others }.bare := by
  rw [bare, bare, alike]

/-- A hook on the bytes does the same, whatever was noted and kept. -/
theorem bare_passRaw (code : UInt16) (hook : Hook σ)
    (run : HookView → UInt16 → Bytes → Program σ (Ending Bytes))
    (same : passage.bare = other.bare) :
    (passRaw pipeline code hook run passage).bare =
      (passRaw pipeline code hook run other).bare := by
  obtain ⟨readings, remarks, rfl⟩ := exists_of_bare_eq same
  obtain ⟨ends, alike⟩ := Program.run_bare (hook.view passage.flags pipeline.protocol)
    pipeline.limits.deferredWrites
    (run (hook.view passage.flags pipeline.protocol) code passage.bytes)
    (congrArg requests same)
  exact endRaw_congr (bare_requests readings alike) ends

/-- A hook on the object does the same, whatever was noted and kept. -/
theorem bare_passParsed (hook : Hook σ) (resolved : Resolved) (object : Object)
    (run : HookView → Event → Program σ (Ending Object)) (same : passage.bare = other.bare) :
    (passParsed pipeline hook resolved object run passage).bare =
      (passParsed pipeline hook resolved object run other).bare := by
  obtain ⟨readings, remarks, rfl⟩ := exists_of_bare_eq same
  obtain ⟨ends, alike⟩ := Program.run_bare (hook.view passage.flags pipeline.protocol)
    pipeline.limits.deferredWrites
    (run (hook.view passage.flags pipeline.protocol)
      ⟨resolved.name, resolved.version, passage.flags, object⟩) (congrArg requests same)
  exact endParsed_congr (bare_requests readings alike) ends

/-! ## What is kept is what would be read -/

/-- What is kept of a message is what any request for that version would read in its bytes. -/
def Fresh (pipeline : Pipeline σ) (code : UInt16) (passage : Passage σ) : Prop :=
  ∀ request resolved found,
    pipeline.store.resolve pipeline.protocol (.code code) request = .ok resolved →
    passage.readings.lookup resolved.version = some found →
    found = (resolved.read pipeline.protocol passage.bytes).1.toOption

/-- A hook either leaves the bytes and what is kept of them or forgets what was kept. -/
def Forgets (passage after : Passage σ) : Prop :=
  after.readings = [] ∨ after.readings = passage.readings ∧ after.bytes = passage.bytes

variable {code : UInt16} {hook : Hook σ}

/-- Of what is not kept nothing is wrong. -/
theorem fresh_of_nil (none : passage.readings = []) : Fresh pipeline code passage := by
  intro request resolved found _ kept
  rw [none] at kept
  cases kept

/-- What is kept stays right as long as it is forgotten when the bytes change. -/
theorem Fresh.of_forgets (fresh : Fresh pipeline code passage) (forgets : passage.Forgets other) :
    Fresh pipeline code other := by
  rcases forgets with none | ⟨readings, bytes⟩
  · exact fresh_of_nil none
  · intro request resolved found known kept
    rw [readings] at kept
    rw [bytes]
    exact fresh request resolved found known kept

/-- That a hook has run neither changes the bytes nor what is kept. -/
theorem Forgets.finish (forgets : passage.Forgets other) (hook : Hook σ) :
    passage.Forgets (other.finish hook) := by
  rw [Passage.finish]
  split <;> exact forgets

theorem Forgets.judge (forgets : passage.Forgets other) (verdict : Verdict) :
    passage.Forgets (other.judge verdict) := by
  cases verdict <;> exact forgets

/-- **A hook that leaves other bytes makes what was read of them forgotten.** -/
theorem forgets_endRaw (code : UInt16) (hook : Hook σ) (ending : Ending Bytes) :
    passage.Forgets (passage.endRaw code hook ending) := by
  cases ending with
  | ok result =>
      refine (Forgets.judge ?_ _).finish hook
      split
      next => exact .inr ⟨rfl, rfl⟩
      next => exact .inl rfl
  | error failure => exact Forgets.finish (.inr ⟨rfl, rfl⟩) hook

/-- A hook of which the object is written back makes what was read before forgotten. -/
theorem forgets_endParsed (hook : Hook σ) (resolved : Resolved) (ending : Ending Object) :
    passage.Forgets (passage.endParsed hook resolved ending) := by
  rw [endParsed.eq_def]
  split
  next edited =>
    split
    next => exact Forgets.finish (.inl rfl) hook
    next => exact Forgets.finish (.inr ⟨rfl, rfl⟩) hook
  next => exact (Forgets.judge (.inr ⟨rfl, rfl⟩) _).finish hook
  next => exact Forgets.finish (.inr ⟨rfl, rfl⟩) hook

/-- To keep what was read changes nothing else. -/
theorem bare_keep (hook : Hook σ) (resolved : Resolved)
    (read : Except StoreError Object × Journal) :
    (passage.keep hook resolved read).bare = passage.bare := by
  obtain ⟨result, remarks⟩ := read
  cases result <;> rfl

/-- To keep what was read leaves the bytes alone. -/
theorem bytes_keep (hook : Hook σ) (resolved : Resolved)
    (read : Except StoreError Object × Journal) :
    (passage.keep hook resolved read).bytes = passage.bytes := by
  obtain ⟨result, remarks⟩ := read
  cases result <;> rfl

/-- What was read is kept in front of what was kept before. -/
theorem readings_keep (hook : Hook σ) (resolved : Resolved)
    (read : Except StoreError Object × Journal) :
    (passage.keep hook resolved read).readings =
      (resolved.version, read.1.toOption) :: passage.readings := by
  obtain ⟨result, remarks⟩ := read
  cases result <;> rfl

/-- What is read is worth keeping: the version alone tells the definition. -/
theorem Fresh.keep {request : VersionRequest} {resolved : Resolved}
    (fresh : Fresh pipeline code passage)
    (known : pipeline.store.resolve pipeline.protocol (.code code) request = .ok resolved)
    (hook : Hook σ) : Fresh pipeline code
      (passage.keep hook resolved (resolved.read pipeline.protocol passage.bytes)) := by
  intro other again found anew kept
  rw [bytes_keep]
  rw [readings_keep, List.lookup_cons] at kept
  by_cases same : again.version = resolved.version
  · obtain rfl := Store.resolve_unique anew known same
    rw [beq_self_eq_true] at kept
    exact (Option.some.inj kept).symm
  · rw [beq_eq_false_iff_ne.mpr same] at kept
    exact fresh other again found anew kept

/-- Reading from what is kept is reading the bytes as they are. -/
theorem reading_eq {request : VersionRequest} {resolved : Resolved}
    (fresh : Fresh pipeline code passage)
    (known : pipeline.store.resolve pipeline.protocol (.code code) request = .ok resolved)
    (hook : Hook σ) :
    (reading pipeline hook resolved passage).1 =
        (resolved.read pipeline.protocol passage.bytes).1.toOption ∧
      (reading pipeline hook resolved passage).2.bare = passage.bare ∧
      Fresh pipeline code (reading pipeline hook resolved passage).2 := by
  rw [reading]
  split
  next found kept => exact ⟨fresh request resolved found known kept, rfl, fresh⟩
  next => exact ⟨rfl, bare_keep hook resolved _, fresh.keep known hook⟩

/-- **One hook, read afresh or not.** -/
theorem pass_bare (fresh : Fresh pipeline code passage) (same : passage.bare = other.bare)
    (hook : Hook σ) :
    (pass pipeline code passage hook).bare = (passAfresh pipeline code other hook).bare ∧
      Fresh pipeline code (pass pipeline code passage hook) := by
  have flags : other.flags = passage.flags := congrArg (·.flags) same.symm
  have bytes : other.bytes = passage.bytes := congrArg (·.bytes) same.symm
  rw [pass, passAfresh, passWith, passWith, flags]
  split
  next =>
    cases hook.callback with
    | raw run => exact ⟨bare_passRaw code hook run same, fresh.of_forgets (forgets_endRaw _ _ _)⟩
    | parsed version run =>
        dsimp only
        cases known : pipeline.store.resolve pipeline.protocol (.code code) version with
        | error => exact ⟨same, fresh⟩
        | ok resolved =>
            obtain ⟨value, kept, later⟩ := reading_eq fresh known hook
            rcases read : reading pipeline hook resolved passage with ⟨found, after⟩
            rw [read] at value kept later
            obtain rfl := value
            dsimp only
            rw [read, readingAfresh, bytes]
            cases (resolved.read pipeline.protocol passage.bytes).1 with
            | error => exact ⟨kept.trans same, later⟩
            | ok object =>
                exact ⟨bare_passParsed hook resolved object run (kept.trans same),
                  later.of_forgets (forgets_endParsed _ _ _)⟩
  next => exact ⟨same, fresh⟩

end Passage

/-! ## Whole messages -/

section Messages

variable {σ : Type} {pipeline again : Pipeline σ} {passage other : Passage σ}

/-- A message passes the hooks of its schedule alike, whether it is read afresh each time or not. -/
theorem passScheduled_bare {code : UInt16} (fresh : Passage.Fresh pipeline code passage)
    (same : passage.bare = other.bare) (remarks : Journal) :
    (pipeline.passScheduled Passage.pass code passage).bare =
      ({ pipeline with remarks := remarks }.passScheduled passAfresh code other).bare := by
  change (List.foldl (passEntry Passage.pass pipeline code) passage _).bare =
    (List.foldl (passEntry passAfresh pipeline code) other (pipeline.table.schedule code)).bare
  generalize pipeline.table.schedule code = entries
  induction entries generalizing passage other with
  | nil => exact same
  | cons entry rest ih =>
      rw [List.foldl_cons, List.foldl_cons, passEntry, passEntry]
      cases pipeline.table.get? entry.1 entry.2 with
      | none => exact ih fresh same
      | some hook =>
          obtain ⟨alike, later⟩ := Passage.pass_bare fresh same hook
          exact ih later alike

/-- **A message passes its hooks alike**, whether it is read afresh each time or not. -/
theorem passHooks_bare (same : pipeline.bare = again.bare) (bytes : Bytes) (incoming fake : Bool) :
    (pipeline.passHooks Passage.pass bytes incoming fake).1 =
        (again.passHooks passAfresh bytes incoming fake).1 ∧
      (pipeline.passHooks Passage.pass bytes incoming fake).2.1.bare =
        (again.passHooks passAfresh bytes incoming fake).2.1.bare ∧
      (pipeline.passHooks Passage.pass bytes incoming fake).2.2 =
        (again.passHooks passAfresh bytes incoming fake).2.2 := by
  obtain ⟨remarks, rfl⟩ := exists_of_bare_eq same
  rw [passHooks, passHooks]
  cases Frame.Header.read bytes with
  | error => exact ⟨rfl, rfl, rfl⟩
  | ok header =>
      dsimp only
      split
      next => exact ⟨rfl, rfl, rfl⟩
      next =>
        obtain ⟨readings, told, equal⟩ := Passage.exists_of_bare_eq
          (passScheduled_bare (Passage.fresh_of_nil (rfl : Passage.readings
            ⟨bytes, ⟨fake, incoming, false, false⟩, [], [],
              ⟨pipeline.world, #[], #[], pipeline.remarks⟩⟩ = []))
            (rfl : _ = Passage.bare ⟨bytes, ⟨fake, incoming, false, false⟩, [], [],
              ⟨pipeline.world, #[], #[], remarks⟩⟩) remarks)
        rw [equal]
        exact ⟨rfl, rfl, rfl⟩

/-- Pipelines that differ in remarks at most stay so. -/
theorem lasting_bare :
    Lasting fun one other : Pipeline σ => one.bare = other.bare where
  store same := congrArg (·.store) same
  protocol same := congrArg (·.protocol) same
  depth same := congrArg (·.depth) same
  remark same _ := same
  send same message := congrArg
    (fun pipeline => { pipeline with outbox := pipeline.outbox.push message }) same
  deeper same := congrArg (deeper 1) same
  outer same := congrArg outer same

/-- **Keeping what was read cannot be told.** A pipeline that reads every message afresh for every
hook comes to the same outcome and to the same state, with the same hooks, world and outbox. -/
theorem handle_bare (pipeline : Pipeline σ) (bytes : Bytes) (incoming fake : Bool) :
    (pipeline.handle bytes incoming fake).1 = (pipeline.handleAfresh bytes incoming fake).1 ∧
      (pipeline.handle bytes incoming fake).2.bare =
        (pipeline.handleAfresh bytes incoming fake).2.bare :=
  keeps_handleWith_flush lasting_bare (fun _ _ => passHooks_bare) pipeline.levels pipeline pipeline
    rfl bytes incoming fake

end Messages

end Pipeline

end Relay
