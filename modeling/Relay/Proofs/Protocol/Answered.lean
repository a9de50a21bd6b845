import Relay.Proofs.Layout.Front
import Relay.Proofs.Protocol.Alike

/-! # What the store writes, it reads

A message that the store wrote names its code in its front. The code leads back to the definition
that the message was written by, and a version that may be written may be read. Hence nothing but
decoding decides what becomes of the message (`Relay.Store.read_written`). -/

namespace Relay

open Relay.Frame.Header

/-- What may be written may be read. -/
theorem Deprecation.isReadable_of_isWriteable {bounds : Deprecation} {protocol : UInt32}
    (writeable : bounds.isWriteable protocol = true) : bounds.isReadable protocol = true :=
  (Bool.and_eq_true_iff.mp writeable).1

namespace Resolved

variable {resolved : Resolved} {protocol : UInt32} {object : Object} {message : Bytes}

/-- Access is granted if and only if the bounds of the version allow it. -/
theorem ensure_eq_ok {access : Access} :
    resolved.ensure access protocol = .ok () ↔ resolved.bounds.allows access protocol = true := by
  rw [ensure]
  split
  next allowed => exact ⟨fun _ => allowed, fun _ => rfl⟩
  next refused => exact ⟨nofun, fun allowed => absurd allowed refused⟩

/-- A version that may be written may be read. -/
theorem ensure_read_of_write (writes : resolved.ensure .write protocol = .ok ()) :
    resolved.ensure .read protocol = .ok () :=
  ensure_eq_ok.mpr (Deprecation.isReadable_of_isWriteable (ensure_eq_ok.mp writes))

/-- What a resolved message is encoded to is encoded by its layout with its code. -/
theorem encode_eq_ok (encoded : resolved.encode object = .ok message) :
    resolved.layout.encode resolved.code object = .ok message := by
  rw [encode] at encoded
  cases wrote : resolved.layout.encode resolved.code object with
  | ok bytes =>
      rw [wrote] at encoded
      cases encoded
      rfl
  | error error =>
      rw [wrote] at encoded
      cases encoded

/-- Decoding fails with nothing but an error of the layout. -/
theorem decode_eq_error {error : StoreError} (failed : (resolved.decode message).1 = .error error) :
    ∃ cause, (resolved.layout.decode message).1 = .error cause ∧
      error = .decode resolved.name resolved.version cause := by
  change (resolved.layout.decode message).1.mapError _ = _ at failed
  cases outcome : (resolved.layout.decode message).1 with
  | ok object =>
      rw [outcome] at failed
      cases failed
  | error cause =>
      rw [outcome] at failed
      cases failed
      exact ⟨cause, rfl, rfl⟩

end Resolved

namespace Store

variable {store : Store} {protocol : UInt32} {key : MessageKey} {request : VersionRequest}
  {resolved : Resolved} {object : Object} {bytes : Bytes}

/-- What is written was resolved, allowed and encoded. -/
theorem write_eq_ok (wrote : store.write protocol key request object = .ok bytes) :
    ∃ resolved, store.resolve protocol key request = .ok resolved ∧
      resolved.ensure .write protocol = .ok () ∧
      resolved.layout.encode resolved.code object = .ok bytes := by
  obtain ⟨resolved, found, rest⟩ := Layout.except_bind_eq_ok.mp wrote
  obtain ⟨⟨⟩, allowed, encoded⟩ := Layout.except_bind_eq_ok.mp rest
  exact ⟨resolved, found, allowed, Resolved.encode_eq_ok encoded⟩

theorem read_eq_decode {message : Bytes} (found : store.resolve protocol key request = .ok resolved)
    (allowed : resolved.ensure .read protocol = .ok ()) :
    store.read protocol key request message = resolved.decode message := by
  simp only [read, found, allowed, bind, Except.bind, pure, Except.pure]

/-- In a sound store, the code that a message resolved to leads to the same definition. -/
theorem resolve_code (sound : Sound store)
    (found : store.resolve protocol key request = .ok resolved) :
    store.resolve protocol (.code resolved.code) request = .ok resolved := by
  cases key with
  | name name => exact ((coherent_of_sound sound protocol).byName found).2
  | code code =>
      rw [((coherent_of_sound sound protocol).byCode found).1]
      exact found

/-- How a message relates to the definition that it was written by. -/
structure Answers (store : Store) (protocol : UInt32) (request : VersionRequest)
    (resolved : Resolved) (bytes : Bytes) : Prop where
  length : (numberAt bytes 0).toNat = bytes.size
  frame : Frame.Header.readWhole bytes = .ok ⟨numberAt bytes 0, resolved.code⟩
  code : numberAt bytes 2 = resolved.code
  mapped : ∃ table, store.table? protocol = some table ∧
    table.name? (numberAt bytes 2) = some resolved.name
  read : store.read protocol (.code (numberAt bytes 2)) request bytes = resolved.decode bytes
  refused : ∀ error,
    (store.read protocol (.code (numberAt bytes 2)) request bytes).1 = .error error →
    ∃ cause, (resolved.layout.decode bytes).1 = .error cause ∧
      error = .decode resolved.name resolved.version cause

/-- **What the store writes, it reads**: it does so by the definition that it wrote by, whether the
message was asked for by its name or by its code, and refuses it only if this definition cannot
decode it. -/
theorem read_written (made : store.Made)
    (wrote : store.write protocol key request object = .ok bytes) :
    ∃ resolved, store.resolve protocol key request = .ok resolved ∧
      resolved.layout.encode resolved.code object = .ok bytes ∧
      Answers store protocol request resolved bytes := by
  obtain ⟨resolved, found, allowed, encoded⟩ := write_eq_ok wrote
  obtain ⟨size, length, code⟩ := Layout.front_encode encoded
  have again := resolve_code made.sound found
  obtain ⟨_, table, tabled, mapped⟩ := lookup_code_eq_ok.mp (resolve_eq_ok again).1
  have reads : store.read protocol (.code (numberAt bytes 2)) request bytes =
      resolved.decode bytes := by
    rw [code]
    exact read_eq_decode again (Resolved.ensure_read_of_write allowed)
  have front : Frame.Header.read bytes = .ok ⟨numberAt bytes 0, resolved.code⟩ := by
    rw [Frame.Header.read, if_neg (Nat.not_lt.mpr size : ¬ bytes.size < Frame.Header.size), code]
  refine ⟨resolved, found, encoded, length, ?_, code, ⟨table, tabled, code ▸ mapped⟩, reads, ?_⟩
  · rw [readWhole, front]
    simp only [bind, Except.bind, length, ne_eq, not_true_eq_false, if_false]
    rfl
  · rw [reads]
    exact fun error failed => Resolved.decode_eq_error failed

/-- A store with a message that may be written up to protocol 7. -/
def boundedStore : Store :=
  let tabled := (empty .pc).setTable 7 (OpcodeTable.empty.insert "S_TELL" 300)
  (tabled.addGeneral "S_TELL" 2 ⟨[.scalar "mark" .uint16]⟩).setManifest
    ⟨[("S_TELL", [(2, ⟨some 7, none⟩)])], []⟩

theorem read_written_bounded :
    boundedStore.write 7 (.name "S_TELL") .latest ⟨[("mark", .uint16 513)]⟩ =
        .ok #[6, 0, 44, 1, 1, 2] ∧
      ∃ resolved, boundedStore.resolve 7 (.name "S_TELL") .latest = .ok resolved ∧
        resolved.layout.encode resolved.code ⟨[("mark", .uint16 513)]⟩ =
          .ok #[6, 0, 44, 1, 1, 2] ∧
        Answers boundedStore 7 .latest resolved #[6, 0, 44, 1, 1, 2] := by
  have tabled : ((empty .pc).setTable 7 (OpcodeTable.empty.insert "S_TELL" 300)).Made :=
    .setTable (.empty .pc) 7 (.insert .empty _ _)
  have wrote : boundedStore.write 7 (.name "S_TELL") .latest ⟨[("mark", .uint16 513)]⟩ =
      .ok #[6, 0, 44, 1, 1, 2] := rfl
  exact ⟨wrote, read_written (.setManifest (.addGeneral tabled _ _ _) _) wrote⟩

end Store

end Relay
