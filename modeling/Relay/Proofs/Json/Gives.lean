import Relay.Json.Record

/-! # What a reader of JSON gives

Whatever the text is, a reader that goes well gives a value of a certain kind
(`Relay.Json.Reader.Gives`). A record has a property when it has it before any member is read and no
member that is read takes it away (`Relay.Json.Reader.Gives.record`). -/

namespace Relay.Json.Reader

/-- A reader that goes well gives a value with a property. -/
def Gives {α : Type} (reader : Reader α) (has : α → Prop) : Prop :=
  ∀ cursor value later, reader cursor = .ok value later → has value

namespace Gives

variable {α β ρ : Type} {has : α → Prop} {also : β → Prop}

theorem pure {value : α} (holds : has value) : Gives (Pure.pure value) has := by
  intro cursor _ _ found
  cases found
  exact holds

theorem throw (fault : Fault) : Gives (MonadExcept.throw fault) has := by
  intro cursor _ _ found
  cases found

/-- **One reader after another** gives what the second one does of all that the first one gives. -/
theorem bind {reader : Reader α} {next : α → Reader β} (first : Gives reader has)
    (second : ∀ value, has value → Gives (next value) also) : Gives (reader >>= next) also := by
  intro cursor result later found
  change EStateM.bind reader next cursor = _ at found
  rw [EStateM.bind] at found
  split at found
  next value between begun => exact second value (first _ _ _ begun) between result later found
  next => cases found

/-- Nothing need be known of what is read first. -/
theorem after {reader : Reader α} {next : α → Reader β}
    (second : ∀ value, Gives (next value) also) :
    Gives (reader >>= next) also := by
  have any : Gives reader fun _ => True := fun _ _ _ _ => trivial
  exact any.bind fun value _ => second value

theorem map {reader : Reader α} {change : α → β} (first : Gives reader has)
    (implies : ∀ value, has value → also (change value)) : Gives (change <$> reader) also :=
  first.bind fun value holds => pure (implies value holds)

/-- A reader that goes on after a fault gives what both ways give. -/
theorem catches {reader : Reader α} {handler : Fault → Reader α} (first : Gives reader has)
    (second : ∀ fault, Gives (handler fault) has) : Gives (tryCatch reader handler) has := by
  intro cursor value later found
  change EStateM.tryCatch reader handler cursor = _ at found
  delta EStateM.tryCatch at found
  dsimp only at found
  split at found
  next failed => exact second _ _ _ _ found
  next => exact first _ _ _ found

theorem failHere (kind : FaultKind) : Gives (Reader.failHere kind) has :=
  after fun _ => throw _

theorem failNext (kind : FaultKind) : Gives (Reader.failNext kind) has :=
  after fun _ => throw _

theorem mismatch (wanted : String) : Gives (Reader.mismatch wanted) has := by
  refine after fun c => ?_
  split
  next => exact after fun _ => failHere _
  next => exact after fun _ => failHere _
  next => exact after fun _ => failHere _
  next => exact after fun _ => failHere _
  next => exact failHere _
  next => exact failHere _
  next =>
    split
    next => exact after fun _ => failHere _
    next => exact failNext _

theorem nested {inside : Reader α} (gives : Gives inside has) :
    Gives (Reader.nested inside) has := by
  refine after fun cursor => ?_
  split
  next => exact failNext _
  next =>
    exact after fun _ => after fun _ => gives.bind fun value holds => after fun _ => pure holds

theorem closedBy {ending : Reader Unit} {inside : Reader α} (gives : Gives inside has) :
    Gives (Reader.closedBy ending inside) has :=
  (gives.catches fun _ => after fun _ => after fun _ => throw _).bind fun _ holds =>
    after fun _ => pure holds

section Records

variable {members : List (Member ρ)} {keeps : ρ → Prop}

/-- **Members that keep a property of the record keep it in whatever order they are named.** -/
theorem named
    (taken : ∀ member ∈ members, ∀ record, keeps record → Gives (member.take record) keeps)
    {record : ρ} (holds : keeps record) (seen : List String) (first : Bool) (steps : Nat) :
    Gives (Reader.named members record seen first steps) keeps := by
  induction steps generalizing record seen first with
  | zero => exact pure holds
  | succ steps ih =>
      refine after fun more => ?_
      split
      next =>
        refine after fun name => ?_
        split
        next => exact after fun _ => after fun _ => ih holds _ _
        next member found =>
          split
          next => exact throw _
          next =>
            exact after fun _ =>
              (taken member (List.mem_of_find?_eq_some found) record holds).bind fun next kept =>
                ih kept _ _
      next =>
        split
        next => exact pure holds
        next => exact throw _

/-- Members that keep a property of the record keep it in the order of the list. -/
theorem ordered (taken : ∀ member ∈ members, ∀ record, keeps record →
    Gives (member.take record) keeps) (title : String) {record : ρ} (holds : keeps record) :
    Gives (Reader.ordered title members record) keeps := by
  have placed : ∀ entry ∈ members.zipIdx, entry.1 ∈ members :=
    fun _ member => List.fst_mem_of_mem_zipIdx member
  rw [Reader.ordered]
  generalize members.zipIdx = entries at placed
  induction entries generalizing record with
  | nil => exact pure holds
  | cons entry rest ih =>
      rw [List.forall_mem_cons] at placed
      rw [List.foldlM_cons]
      refine bind (?_ : Gives _ keeps) fun next kept => ih kept placed.2
      refine after fun more => ?_
      split
      next => exact taken entry.1 placed.1 record holds
      next =>
        split
        next => exact throw _
        next => exact pure holds

/-- **A record keeps a property** that it has before any member is read if every member keeps it. -/
theorem record (taken : ∀ member ∈ members, ∀ record, keeps record →
    Gives (member.take record) keeps) (title : String) {blank : ρ} (holds : keeps blank) :
    Gives (Reader.record title members blank) keeps := by
  refine after fun c => ?_
  split
  next => exact closedBy (nested (ordered taken title holds))
  next => exact closedBy (nested (after fun _ => named taken holds [] true _))
  next => exact mismatch title

end Records

/-- What a whole text gives. -/
theorem run {reader : Reader α} (gives : Gives reader has) {text : String} {value : α}
    (found : reader.run text = .ok value) : has value := by
  rw [Reader.run] at found
  split at found
  next result later whole =>
    cases found
    refine (gives.bind fun value holds => ?_ : Gives _ has) _ _ _ whole
    refine after fun next => ?_
    split
    next => exact failNext _
    next => exact pure holds
  next => cases found

end Gives

end Relay.Json.Reader
