import Relay.Proofs.Pipeline.Called

/-! # Hooks that share nothing

A hook has a part of the world for itself if its callback is one over this part, and those of all
others are over the rest (`Relay.Hook.Apart`). If it fails, and has asked for nothing, the others
cannot tell that it was called (`Relay.Pipeline.Passage.Matches.skip`), and they do the same whether
or not it is there (`Relay.Pipeline.Passage.Matches.pass`). -/

namespace Relay

variable {σ τ κ ρ α : Type}

/-! ## Callbacks with parts of the world -/

/-- A program over a part of the world, which is taken out of it and put back. -/
def Program.inside (get : σ → τ) (put : τ → σ → σ) : Program τ α → Program σ α
  | .done result => .done result
  | .world change next =>
    .world (fun world => put (change (get world)) world) fun world =>
      (next (get world)).inside get put
  | .write request next => .write request fun kept => (next kept).inside get put
  | .unhook number next => .unhook number (next.inside get put)
  | .remark entry next => .remark entry (next.inside get put)

/-- A callback over a part of the world. -/
def Callback.inside (get : σ → τ) (put : τ → σ → σ) : Callback τ → Callback σ
  | .raw run => .raw fun view code bytes => (run view code bytes).inside get put
  | .parsed version run => .parsed version fun view event => (run view event).inside get put

/-- A program over the first part of a world. -/
abbrev Program.onFirst (program : Program κ α) : Program (κ × ρ) α :=
  program.inside Prod.fst fun own world => (own, world.2)

/-- A program over the second part of a world. -/
abbrev Program.onSecond (program : Program ρ α) : Program (κ × ρ) α :=
  program.inside Prod.snd fun others world => (world.1, others)

/-- A callback over the first part of a world. -/
abbrev Callback.onFirst (callback : Callback κ) : Callback (κ × ρ) :=
  callback.inside Prod.fst fun own world => (own, world.2)

/-- A callback over the second part of a world. -/
abbrev Callback.onSecond (callback : Callback ρ) : Callback (κ × ρ) :=
  callback.inside Prod.snd fun others world => (world.1, others)

/-- The hook with a number works on the first part of the world, and all others on the second, so
that they share no state. -/
def Hook.Apart (number : Nat) (hook : Hook (κ × ρ)) : Prop :=
  if hook.handle = number then ∃ callback : Callback κ, hook.callback = callback.onFirst
  else ∃ callback : Callback ρ, hook.callback = callback.onSecond

/-- The same requests with another first part of the world. -/
def Requests.owning (own : κ) (requests : Requests (κ × ρ)) : Requests (κ × ρ) :=
  { requests with world := (own, requests.world.2) }

/-- A program over the first part of the world leaves the second part alone. -/
theorem Program.run_onFirst (view : HookView) (limit : Nat) (program : Program κ α)
    (requests : Requests (κ × ρ)) :
    (program.onFirst.run view limit requests).2.world.2 = requests.world.2 := by
  induction program generalizing requests with
  | done => exact rfl
  | world change next ih =>
      obtain ⟨world, writes, unhooks, remarks⟩ := requests
      exact ih _ ⟨(change world.1, world.2), writes, unhooks, remarks⟩
  | write request next ih =>
      obtain ⟨world, writes, unhooks, remarks⟩ := requests
      rw [onFirst, inside, run]
      split
      next => exact ih false ⟨world, writes, unhooks, remarks.push _⟩
      next => exact ih true ⟨world, writes.push request, unhooks, remarks⟩
  | unhook number next ih =>
      obtain ⟨world, writes, unhooks, remarks⟩ := requests
      exact ih ⟨world, writes, unhooks.push number, remarks⟩
  | remark entry next ih =>
      obtain ⟨world, writes, unhooks, remarks⟩ := requests
      exact ih ⟨world, writes, unhooks, remarks.push entry⟩

/-- A program over the second part of the world does the same, whatever the first part is. -/
theorem Program.run_onSecond (view : HookView) (limit : Nat) (program : Program ρ α) (own : κ)
    (requests : Requests (κ × ρ)) :
    program.onSecond.run view limit (requests.owning own) =
      ((program.onSecond.run view limit requests).1,
        (program.onSecond.run view limit requests).2.owning own) := by
  induction program generalizing requests with
  | done => exact rfl
  | world change next ih =>
      obtain ⟨world, writes, unhooks, remarks⟩ := requests
      exact ih _ ⟨(world.1, change world.2), writes, unhooks, remarks⟩
  | write request next ih =>
      obtain ⟨world, writes, unhooks, remarks⟩ := requests
      rw [onSecond, inside, Requests.owning, run, run]
      split
      next => exact ih false ⟨world, writes, unhooks, remarks.push _⟩
      next => exact ih true ⟨world, writes.push request, unhooks, remarks⟩
  | unhook number next ih =>
      obtain ⟨world, writes, unhooks, remarks⟩ := requests
      exact ih ⟨world, writes, unhooks.push number, remarks⟩
  | remark entry next ih =>
      obtain ⟨world, writes, unhooks, remarks⟩ := requests
      exact ih ⟨world, writes, unhooks, remarks.push entry⟩

/-- What a program asks to be written comes behind what was asked before. -/
theorem Program.writes_run (view : HookView) (limit : Nat) (program : Program σ α)
    (requests : Requests σ) :
    requests.writes.toList <+: (program.run view limit requests).2.writes.toList := by
  induction program generalizing requests with
  | done => exact List.prefix_rfl
  | world change _ ih => exact ih _ { requests with world := change requests.world }
  | write request next ih =>
      obtain ⟨world, writes, unhooks, remarks⟩ := requests
      rw [run]
      split
      next => exact ih false ⟨world, writes, unhooks, remarks.push _⟩
      next =>
        refine List.IsPrefix.trans ?_ (ih true ⟨world, writes.push request, unhooks, remarks⟩)
        rw [Array.toList_push]
        exact List.prefix_append _ _
  | unhook number _ ih => exact ih { requests with unhooks := requests.unhooks.push number }
  | remark entry _ ih => exact ih { requests with remarks := requests.remarks.push entry }

namespace Pipeline

variable {number : Nat} {own : κ} {code : UInt16}

/-! ## Another hook -/

namespace Passage

variable {passage : Passage (κ × ρ)} {pipeline : Pipeline (κ × ρ)} {hook : Hook (κ × ρ)}

/-- The passage as it would be had a hook not been there: the hook has not run, and has left the
first part of the world as it was. -/
def without (number : Nat) (own : κ) (passage : Passage (κ × ρ)) : Passage (κ × ρ) :=
  { passage with
    finished := passage.finished.filter (· != number)
    requests := passage.requests.owning own }

theorem flags_without (passage : Passage (κ × ρ)) :
    (passage.without number own).flags = passage.flags :=
  rfl

theorem without_judge (verdict : Verdict) :
    (passage.without number own).judge verdict = (passage.judge verdict).without number own := by
  cases verdict <;> rfl

/-- Another hook has run alike, had the hook not been there. -/
theorem without_finish (other : hook.handle ≠ number) :
    (passage.without number own).finish hook = (passage.finish hook).without number own := by
  unfold finish
  dsimp only [without]
  split
  · simp [other]
  · rfl

/-- Another hook on the bytes ends alike, had the hook not been there. -/
theorem without_endRaw (other : hook.handle ≠ number) (ending : Ending Bytes) :
    (passage.without number own).endRaw code hook ending =
      (passage.endRaw code hook ending).without number own := by
  cases ending with
  | ok result =>
      obtain ⟨verdict, bytes⟩ := result
      rw [endRaw, endRaw, ← without_finish other, ← without_judge]
      congr 2
      change (if bytes == passage.bytes then _ else _) = without number own (if _ then _ else _)
      split <;> rfl
  | error failure =>
      rw [endRaw, endRaw, ← without_finish other]
      rfl

/-- Another hook on the object ends alike, had the hook not been there. -/
theorem without_endParsed (other : hook.handle ≠ number) (resolved : Resolved)
    (ending : Ending Object) :
    (passage.without number own).endParsed hook resolved ending =
      (passage.endParsed hook resolved ending).without number own := by
  rw [endParsed.eq_def, endParsed.eq_def]
  split
  next edited =>
    cases resolved.encode edited <;> dsimp only <;> rw [← without_finish other] <;> rfl
  next =>
    rw [← without_finish other, ← without_judge]
  next =>
    rw [← without_finish other]
    rfl

theorem without_keep (resolved : Resolved) (read : Except StoreError Object × Journal) :
    (passage.without number own).keep hook resolved read =
      (passage.keep hook resolved read).without number own := by
  rcases read with ⟨_ | _, _⟩ <;> rfl

/-- A message is read alike, had the hook not been there. -/
theorem without_reading (resolved : Resolved) :
    reading pipeline hook resolved (passage.without number own) =
      ((reading pipeline hook resolved passage).1,
        (reading pipeline hook resolved passage).2.without number own) := by
  have kept : (passage.without number own).readings = passage.readings := rfl
  unfold reading
  rw [kept]
  cases passage.readings.lookup resolved.version with
  | some found => rfl
  | none => exact congrArg (Prod.mk _) (without_keep resolved _)

/-- Another hook on the bytes does the same, had the hook not been there. -/
theorem without_passRaw (other : hook.handle ≠ number)
    (run : HookView → UInt16 → Bytes → Program ρ (Ending Bytes)) :
    passRaw pipeline code hook (fun view code bytes => (run view code bytes).onSecond)
        (passage.without number own) =
      (passRaw pipeline code hook (fun view code bytes => (run view code bytes).onSecond)
        passage).without number own := by
  have ran := Program.run_onSecond (hook.view passage.flags pipeline.protocol)
    pipeline.limits.deferredWrites
    (run (hook.view passage.flags pipeline.protocol) code passage.bytes) own passage.requests
  rw [passRaw, passRaw, ← without_endRaw other]
  exact congrArg (fun ran => endRaw code hook
    { passage.without number own with requests := ran.2 } ran.1) ran

/-- Another hook on the object does the same, had the hook not been there. -/
theorem without_passParsed (other : hook.handle ≠ number) (resolved : Resolved) (object : Object)
    (run : HookView → Event → Program ρ (Ending Object)) :
    passParsed pipeline hook resolved object (fun view event => (run view event).onSecond)
        (passage.without number own) =
      (passParsed pipeline hook resolved object (fun view event => (run view event).onSecond)
        passage).without number own := by
  have ran := Program.run_onSecond (hook.view passage.flags pipeline.protocol)
    pipeline.limits.deferredWrites (run (hook.view passage.flags pipeline.protocol)
      ⟨resolved.name, resolved.version, passage.flags, object⟩) own passage.requests
  rw [passParsed, passParsed, ← without_endParsed other]
  exact congrArg (fun ran => endParsed hook resolved
    { passage.without number own with requests := ran.2 } ran.1) ran

/-- A hook that works on the second part of the world does the same, whether or not another was
there before. -/
theorem without_pass (other : hook.handle ≠ number) (apart : hook.Apart number) :
    pass pipeline code (passage.without number own) hook =
      (pass pipeline code passage hook).without number own := by
  obtain ⟨callback, works⟩ : ∃ callback : Callback ρ, hook.callback = callback.onSecond := by
    rwa [Hook.Apart, if_neg other] at apart
  rw [pass, passWith, passWith, works, flags_without]
  by_cases admitted : hook.filter.admits passage.flags = true
  · rw [if_pos admitted, if_pos admitted]
    cases callback with
    | raw run => exact without_passRaw other run
    | parsed version run =>
        simp only [Callback.onSecond, Callback.inside]
        cases pipeline.store.resolve pipeline.protocol (.code code) version with
        | error => rfl
        | ok resolved =>
            dsimp only
            rw [without_reading]
            rcases reading pipeline hook resolved passage with ⟨_ | object, after⟩
            · rfl
            · exact without_passParsed other resolved object run
  · rw [if_neg admitted, if_neg admitted]

end Passage

/-! ## The hook itself -/

namespace Visit

/-- The messages that the callback asks to be written. -/
def written (visit : Visit σ) : List WriteRequest :=
  visit.left.requests.writes.toList.drop visit.passage.requests.writes.size

/-- The callback fails if it is called, and has asked neither for messages to be written nor for
hooks to be removed. -/
def Fails (visit : Visit σ) : Prop :=
  visit.verdict? = none ∧ visit.written = [] ∧ visit.asked = []

/-- What the callback asks to be written comes behind what was asked before. -/
theorem writes_left (visit : Visit σ) : visit.left.requests.writes.toList =
    visit.passage.requests.writes.toList ++ visit.written := by
  have behind : visit.passage.requests.writes.toList <+: visit.left.requests.writes.toList := by
    cases visit.comes with
    | idle _ _ _ left =>
        have writes : visit.left.requests.writes = visit.passage.requests.writes :=
          congrArg (·.requests.writes) left
        rw [writes]
    | raw run _ _ _ _ left =>
        rw [left, Passage.writes_endRaw]
        exact Program.writes_run _ _ _ _
    | parsed _ run _ _ after _ _ read _ _ _ left =>
        have writes : after.requests.writes = visit.passage.requests.writes :=
          congrArg (·.requests.writes) read
        rw [left, Passage.writes_endParsed, ← writes]
        exact Program.writes_run _ _ _ _
  have same := List.prefix_iff_eq_append.mp behind
  rw [Array.length_toList] at same
  exact same.symm

/-- A hook on the first part of the world leaves the second as it was. -/
theorem world_left {visit : Visit (κ × ρ)} {first : Callback κ}
    (works : visit.hook.callback = first.onFirst) :
    visit.left.requests.world.2 = visit.passage.requests.world.2 := by
  cases visit.comes with
  | idle _ _ _ left => exact congrArg (·.requests.world.2) left
  | raw run callback _ _ _ left =>
      cases first with
      | parsed => cases works.symm.trans callback
      | raw program =>
          cases works.symm.trans callback
          rw [left, Passage.world_endRaw]
          exact Program.run_onFirst _ _ _ _
  | parsed version run resolved object after callback _ read _ _ _ left =>
      have world := congrArg (·.requests.world.2) read
      cases first with
      | raw => cases works.symm.trans callback
      | parsed _ program =>
          cases works.symm.trans callback
          rw [left, Passage.world_endParsed]
          exact (Program.run_onFirst _ _ _ _).trans world

/-- A callback that fails leaves nothing behind but remarks, what it did to its own part of the
world, and that it has run. -/
theorem Fails.left {visit : Visit (κ × ρ)} (fails : visit.Fails) {callback : Callback κ}
    (works : visit.hook.callback = callback.onFirst) (own : κ) :
    (visit.left.without visit.hook.handle own).bare =
      (visit.passage.without visit.hook.handle own).bare := by
  obtain ⟨failed, unwritten, unasked⟩ := fails
  have makes := visit.makes_left
  have bytes := makes.bytes
  have flags := makes.still (makes?_of_failed failed) failed
  rw [makes?_of_failed failed] at bytes
  have world := world_left works
  have dues := visit.dues_left
  rw [unasked, List.append_nil] at dues
  obtain ⟨finished, unhooks⟩ := Prod.mk.inj dues
  have spent : visit.spends.filter (· != visit.hook.handle) = [] := by
    refine List.filter_eq_nil_iff.mpr fun gone member => ?_
    obtain ⟨_, _, rfl⟩ := of_mem_spends member
    simp
  have writes : visit.left.requests.writes = visit.passage.requests.writes := by
    have same := visit.writes_left
    rw [unwritten, List.append_nil] at same
    exact Array.toList_inj.mp same
  change Passage.mk visit.left.bytes visit.left.flags [] (visit.left.finished.filter _)
    ⟨(own, visit.left.requests.world.2), visit.left.requests.writes, visit.left.requests.unhooks,
      #[]⟩ = _
  rw [bytes, flags, finished, List.filter_append, spent, List.append_nil, world, writes,
    Array.toList_inj.mp unhooks]
  rfl

/-- Its own calls are left out. -/
theorem callsBut_self (pipeline : Pipeline σ) (hook : Hook σ) (passage : Passage σ) :
    callsBut hook.handle ⟨pipeline, code, hook, passage⟩ = [] := by
  unfold callsBut
  cases comes ⟨pipeline, code, hook, passage⟩ with
  | idle _ call =>
      rw [call]
      rfl
  | raw _ _ _ call =>
      rw [call]
      exact List.filterMap_cons_none (if_pos rfl)
  | parsed _ _ _ _ _ _ _ _ _ call =>
      rw [call]
      exact List.filterMap_cons_none (if_pos rfl)

end Visit

/-! ## One message, with the hook and without -/

namespace Passage

variable {pipeline : Pipeline (κ × ρ)} {one other : Passage (κ × ρ)} {hook : Hook (κ × ρ)}

/-- A message that has passed a hook with the number, and the message had the hook not been there:
but for remarks and for what was read and kept, nothing else differs, and what is kept is right. -/
structure Matches (number : Nat) (own : κ) (pipeline : Pipeline (κ × ρ)) (code : UInt16)
    (one other : Passage (κ × ρ)) : Prop where
  bare : other.bare = (one.without number own).bare
  fresh : Fresh pipeline code one
  freshOther : Fresh pipeline code other

namespace Matches

/-- A hook that fails is not noticed. -/
theorem skip (same : Matches hook.handle own pipeline code one other)
    (fails : Visit.Fails ⟨pipeline, code, hook, one⟩) (apart : hook.Apart hook.handle) :
    Matches hook.handle own pipeline code (Passage.pass pipeline code one hook) other where
  bare := by
    obtain ⟨callback, works⟩ : ∃ callback : Callback κ, hook.callback = callback.onFirst := by
      rwa [Hook.Apart, if_pos rfl] at apart
    exact same.bare.trans (fails.left works own).symm
  fresh := (pass_bare same.fresh rfl hook).2
  freshOther := same.freshOther

/-- Any other hook does the same. -/
theorem pass (same : Matches number own pipeline code one other) (differs : hook.handle ≠ number)
    (apart : hook.Apart number) :
    Matches number own pipeline code (Passage.pass pipeline code one hook)
      (Passage.pass pipeline code other hook) where
  bare := by
    have fresh : Fresh pipeline code (one.without number own) := same.fresh
    have alike := (pass_bare fresh same.bare.symm hook).1
    rw [without_pass differs apart] at alike
    exact (pass_bare same.freshOther rfl hook).1.trans alike.symm
  fresh := (pass_bare same.fresh rfl hook).2
  freshOther := (pass_bare same.freshOther rfl hook).2

/-- Any other hook is called on the same. -/
theorem call? (same : Matches number own pipeline code one other) (hook : Hook (κ × ρ)) :
    Visit.call? ⟨pipeline, code, hook, other⟩ = Visit.call? ⟨pipeline, code, hook, one⟩ := by
  have flags : other.flags = one.flags := congrArg (·.flags) same.bare
  have bytes : other.bytes = one.bytes := congrArg (·.bytes) same.bare
  unfold Visit.call? Visit.view
  dsimp only
  rw [flags, bytes]
  split
  next =>
    split
    next => rfl
    next version run _ =>
      cases known : pipeline.store.resolve pipeline.protocol (.code code) version with
      | error => rfl
      | ok resolved =>
          dsimp only
          rw [(reading_eq same.fresh known hook).1, (reading_eq same.freshOther known hook).1,
            bytes]
  next => rfl

end Matches

end Passage

end Pipeline

end Relay
