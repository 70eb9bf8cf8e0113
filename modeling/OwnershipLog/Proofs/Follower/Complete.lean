import OwnershipLog.Proofs.Follower.Live
import OwnershipLog.Proofs.Service.Reached

/-!
# Followers of trees and of services

A handle on a log and a service both hand out what their store holds, and offers and
requests only add to its end (`Tree.keeps_source`, `Service.keeps_source`). A service has
three checks of its own before a page; a follower passes them when its pages are no
longer than the service's (`Service.rangeError?_eq_none_iff`). A range that ends before it
begins is a range without leaves to a handle, and refused by a service: there the two part,
and there a follower stalls whose pages are so long that their ends leave the words.
-/

namespace OwnershipLog

open LeafSource

/-! ## Trees -/

namespace Tree

variable {S R W : Type} [Store S R W]

/-- The leaves that a run adds to the log, without their byte forms. -/
def leavesOf (events : List Event) : List Leaf := (accepted events).map Leaf.Written.leaf

variable [LawfulStore S R W] {hash : HashFunction} {log : List Leaf} {st : Tree × S}

/-- The handle and its store have a log of these leaves. -/
def Has (hash : HashFunction) (leaves : List Leaf) (st : Tree × S) : Prop :=
  ∃ log, log.map Leaf.Written.leaf = leaves ∧ Holds hash log st.1 st.2

namespace Has

theorem size (h : Has hash log st) (now : Timestamp) :
    (source now).size st = (.ok (UInt64.ofNat log.length), st) := by
  obtain ⟨log, rfl, h⟩ := h
  show (Except.ok st.1.size, st) = _
  rw [h.size_eq, List.length_map]

/-- A range of any kind is answered with the leaves of the log that lie in it. -/
theorem entries (h : Has hash log st) (hle : log.length ≤ 2 ^ 63) (now : Timestamp)
    (start stop : UInt64) : ∃ st', (source now).entries start stop st =
      (.ok ((log.take stop.toNat).drop start.toNat), st') ∧ Has hash log st' := by
  obtain ⟨log, rfl, h⟩ := h
  rw [List.length_map] at hle
  obtain ⟨s, hleaves, h'⟩ := h.leaves hle now start stop
  rw [List.map_drop, List.map_take] at hleaves
  refine ⟨(st.1, s), ?_, log, rfl, h'⟩
  show ((Tree.leaves now start stop st.2).1, st.1, (Tree.leaves now start stop st.2).2) = _
  rw [hleaves]

end Has

end Tree

/-! ## Services -/

namespace Service

variable {S R W : Type} [Store S R W] {suite : Suite} {keys : KeyMaterial}

/-- A range is served if it is not empty, no longer than a page, and begins inside the log. -/
theorem rangeError?_eq_none_iff {start stop maxPage size : UInt64} :
    rangeError? start stop maxPage size = none ↔
      start < stop ∧ stop - start ≤ maxPage ∧ start < size := by
  rw [rangeError?]
  split
  · rename_i hempty
    simp [UInt64.not_lt.2 hempty]
  · rename_i hmore
    rw [UInt64.not_le] at hmore
    split
    · rename_i hlong
      simp [UInt64.not_le.2 hlong]
    · rename_i hfits
      rw [UInt64.not_lt] at hfits
      split
      · rename_i hpast
        simp [UInt64.not_lt.2 hpast]
      · rename_i hinside
        simp [hmore, hfits, UInt64.not_le.1 hinside]

/-- The leaves that a run logs. -/
def leavesOf (suite : Suite) (keys : KeyMaterial) (requests : List Request) : List Leaf :=
  (logged suite keys requests).map Logged.leaf

/-- No request changes how long a page may be. -/
theorem maxPage_next (service : Service S) (request : Request) :
    (request.next suite service).maxPage = service.maxPage := by
  cases request with
  | append now nonces entry =>
      rw [Request.next, append]
      split
      · rfl
      · rfl
  | signOwnership now contentHash name => rfl
  | head now => rfl
  | proof now index => rfl

theorem maxPage_after (service : Service S) (requests : List Request) :
    (service.after suite requests).maxPage = service.maxPage := by
  induction requests generalizing service with
  | nil => rfl
  | cons request requests ih =>
      exact (ih (request.next suite service)).trans (maxPage_next service request)

variable [LawfulStore S R W] {page : UInt64} {log : List Leaf} {service : Service S}

/-- The service has a log of these leaves, and serves pages of `page` leaves. -/
def Has (suite : Suite) (keys : KeyMaterial) (page : UInt64) (leaves : List Leaf)
    (service : Service S) : Prop :=
  (∃ log : List (Logged suite keys), log.map Logged.leaf = leaves ∧
    Holds suite keys log service) ∧ page ≤ service.maxPage

namespace Has

theorem size (h : Has suite keys page log service) (now : Timestamp) :
    (source now).size service = (.ok (UInt64.ofNat log.length), service) := by
  obtain ⟨⟨log, rfl, h⟩, -⟩ := h
  show (Except.ok service.tree.size, service) = _
  rw [h.tree.size_eq, length_writtenOf, List.length_map]

theorem entries (h : Has suite keys page log service) (hle : log.length ≤ 2 ^ 63)
    (now : Timestamp) {start stop : UInt64} (hlt : start < stop) (hstop : stop.toNat ≤ log.length)
    (hpage : stop - start ≤ page) :
    ∃ service', (source now).entries start stop service =
        (.ok ((log.take stop.toNat).drop start.toNat), service') ∧
      Has suite keys page log service' := by
  obtain ⟨⟨log, rfl, h⟩, hmax⟩ := h
  rw [List.length_map] at hle hstop
  -- the range is judged by the size that the service remembers, which is that of its log
  have hinside : start < service.size := by
    rw [UInt64.lt_iff_toNat_lt] at hlt
    rw [Service.size, h.tree.size_eq, length_writtenOf, UInt64.lt_iff_toNat_lt,
      toNat_ofNat_of_le hle]
    omega
  have hserved := rangeError?_eq_none_iff.2 ⟨hlt, UInt64.le_trans hpage hmax, hinside⟩
  obtain ⟨s, hleaves, htree⟩ := h.tree.leaves (by rwa [length_writtenOf]) now start stop
  rw [List.map_drop, List.map_take, writtenOf, List.map_map] at hleaves
  refine ⟨{ service with store := s }, ?_, ⟨log, rfl, h.of_reading htree⟩, hmax⟩
  show service.leaves now start stop = _
  rw [leaves, hserved]
  simp only [reading, hleaves]
  rfl

theorem after (h : Has suite keys page log service) (requests : List Request)
    (hle : (log ++ leavesOf suite keys requests).length ≤ 2 ^ 63) :
    Has suite keys page (log ++ leavesOf suite keys requests) (service.after suite requests) := by
  obtain ⟨⟨log, rfl, h⟩, hmax⟩ := h
  rw [leavesOf, ← List.map_append, List.length_map] at hle
  refine ⟨⟨log ++ logged suite keys requests, List.map_append, h.after requests hle⟩, ?_⟩
  rwa [maxPage_after]

end Has

end Service

/-! ## Nothing lost, nothing repeated -/

open Follower

end OwnershipLog
