import Mathlib.Data.List.Forall2
import Relay.Proofs.Layout.InOrder
import Relay.Proofs.Layout.Rounds

/-! # Chains by their links

Every element of a chain says where the next one is, and the last one that there is none. From a
place there is at most one way to go on (`Relay.Layout.Leads.unique`), so a place that came twice
would come again and again: the places of a chain that ends are distinct
(`Relay.Layout.Leads.nodup`). A chain is exact when it visits as many elements as its arrays have,
each array in its turn (`Relay.Layout.Exact`). -/

namespace Relay.Layout

open Relay.Stream Relay.Frame.Header

/-- Places that lead from one to the next: two bytes behind each of them stands the next one, zero
behind the last. -/
def Leads (message : Bytes) : List Nat → Prop
  | [] => True
  | place :: rest =>
    place ≠ 0 ∧ (numberAt message (place + 2)).toNat = rest.headD 0 ∧ Leads message rest

variable {message : Bytes}

/-- The last places lead from one to the next if all do. -/
theorem Leads.of_append {front back : List Nat} (leads : Leads message (front ++ back)) :
    Leads message back := by
  induction front with
  | nil => exact leads
  | cons place rest ih => exact ih leads.2.2

/-- **From a place there is one way to the end of a chain.** -/
theorem Leads.unique {places others : List Nat} (leads : Leads message places)
    (other : Leads message others) (same : places.headD 0 = others.headD 0) : places = others := by
  induction places generalizing others with
  | nil =>
      cases others with
      | nil => rfl
      | cons place rest => exact absurd same.symm other.1
  | cons place rest ih =>
      cases others with
      | nil => exact absurd same leads.1
      | cons next more =>
          obtain rfl : place = next := same
          rw [ih leads.2.2 other.2.2 (leads.2.1.symm.trans other.2.1)]

/-- **A chain that ends visits no place twice.** -/
theorem Leads.nodup {places : List Nat} (leads : Leads message places) : places.Nodup := by
  induction places with
  | nil => exact List.nodup_nil
  | cons place rest ih =>
      refine List.nodup_cons.mpr ⟨fun again => ?_, ih leads.2.2⟩
      -- the way on from the second visit is the same as from the first, and yet shorter
      obtain ⟨front, back, rfl⟩ := List.append_of_mem again
      have shorter := congrArg List.length (leads.unique leads.2.2.of_append rfl)
      simp only [List.length_cons, List.length_append] at shorter
      omega

/-- A visit to an element of a chain: the place of its links, what it is, and where it ends. -/
structure Visit where
  place : Nat
  value : Value
  stop : Nat

/-- The places of some visits. -/
def placesOf (visits : List Visit) : List Nat :=
  visits.map (·.place)

/-- The first visit leads to the next one, and the others lead on. -/
theorem leads_placesOf_cons {visit : Visit} {visits : List Visit} :
    Leads message (placesOf (visit :: visits)) ↔ visit.place ≠ 0 ∧
      (numberAt message (visit.place + 2)).toNat = (placesOf visits).headD 0 ∧
      Leads message (placesOf visits) :=
  Iff.rfl

/-- A link of a chain leads to the element that is visited. -/
def Visited (message : Bytes) (strands : List Strand) (link : Link) (visit : Visit) : Prop :=
  ∃ strand, strands[link.array]? = some strand ∧ strand.items[link.place]? = some visit.value ∧
    strand.element message visit.value (visit.place + 4) visit.stop

/-- The elements of some arrays are visited along one chain: from the offset of the first array that
has any, over links each of which names its own place and that of the next one, as often as there
are elements, and each array in its turn. -/
structure Exact (message : Bytes) (strands : List Strand) (visits : List Visit) : Prop where
  offset : ∀ strand, strands.find? (fun strand => decide (0 < strand.items.length)) = some strand →
    strand.offset.map UInt16.toNat = (placesOf visits).head?
  self : ∀ visit ∈ visits, visit.place + 4 ≤ message.size ∧
    (numberAt message visit.place).toNat = visit.place
  leads : Leads message (placesOf visits)
  distinct : (placesOf visits).Nodup
  only : ∀ places, Leads message places → places.headD 0 = (placesOf visits).headD 0 →
    places = placesOf visits
  total : visits.length = (strands.map (·.items.length)).sum
  turns : List.Forall₂ (Visited message strands)
    (roundRobin (strands.map (·.items.length))) visits

/-- What two lists are related by holds of every member of the first and one of the second. -/
theorem exists_of_forall₂ {α β : Type} {related : α → β → Prop} {first : List α} {second : List β}
    (each : List.Forall₂ related first second) {x : α} (member : x ∈ first) :
    ∃ y ∈ second, related x y := by
  induction each with
  | nil => cases member
  | cons here _ ih =>
      rcases List.mem_cons.mp member with rfl | later
      · exact ⟨_, List.mem_cons_self, here⟩
      · obtain ⟨y, further, there⟩ := ih later
        exact ⟨y, List.mem_cons_of_mem _ further, there⟩

/-- Links that lead on to the end make a chain exact. -/
theorem exact_of_leads {strands : List Strand} {visits : List Visit}
    (offset : ∀ strand,
      strands.find? (fun strand => decide (0 < strand.items.length)) = some strand →
      strand.offset.map UInt16.toNat = (placesOf visits).head?)
    (self : ∀ visit ∈ visits, visit.place + 4 ≤ message.size ∧
      (numberAt message visit.place).toNat = visit.place)
    (leads : Leads message (placesOf visits))
    (turns : List.Forall₂ (Visited message strands)
      (roundRobin (strands.map (·.items.length))) visits) : Exact message strands visits where
  offset := offset
  self := self
  leads := leads
  distinct := leads.nodup
  only _ other same := other.unique leads same
  total := by rw [← turns.length_eq, length_roundRobin]
  turns := turns

end Relay.Layout
