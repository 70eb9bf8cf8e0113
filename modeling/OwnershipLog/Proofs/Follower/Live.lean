import Mathlib.Order.Lattice
import OwnershipLog.Follower
import OwnershipLog.Proofs.Merkle.Block

/-!
# Following a log while it grows

`LeafSource.live` is a source that things happen to: before each request, whether for the
size or for a page, the next of a list of batches does. So a list of batches says what
happens between polls and what happens in the middle of one.

`LeafSource.Keeps` is what a follower relies on. In a state that holds a log the source
reports its length and cuts pages out of it, and a batch only adds to its end. What a
follower has to show for its polls then depends on the sizes reported and on the log that
the batches lead to (`Follower.follow_live`): a page is cut from a longer log than the size
was taken from, but the two agree below that size. The exception is a follower whose page
would end past the last word (`Follower.Stalls`): its first page ends before it begins, and
the poll with it.
-/

namespace OwnershipLog

namespace LeafSource

variable {σ ε : Type}

/-- The source hands out the log that a state holds, in pages of up to `page` leaves; asked for a
range that ends before it begins it hands out no leaves or refuses, as `backward` says; and what
happens to it adds the leaves `adds` to the end of that log. -/
structure Keeps (source : Timestamp → LeafSource σ) (happen : ε → σ → σ) (adds : ε → List Leaf)
    (page : UInt64) (backward : (start stop : UInt64) → Except LogError Unit)
    (Holds : List Leaf → σ → Prop) : Prop where
  size {log : List Leaf} {s : σ} (now : Timestamp) : Holds log s → log.length ≤ 2 ^ 63 →
    ∃ s', (source now).size s = (.ok (UInt64.ofNat log.length), s') ∧ Holds log s'
  entries {log : List Leaf} {s : σ} {start stop : UInt64} (now : Timestamp) : Holds log s →
    log.length ≤ 2 ^ 63 → start < stop → stop.toNat ≤ log.length → stop - start ≤ page →
    ∃ s', (source now).entries start stop s =
      (.ok ((log.take stop.toNat).drop start.toNat), s') ∧ Holds log s'
  backwards {log : List Leaf} {s : σ} {start stop : UInt64} (now : Timestamp) : Holds log s →
    log.length ≤ 2 ^ 63 → stop ≤ start →
    ∃ s', (source now).entries start stop s = ((backward start stop).map fun _ => [], s') ∧
      Holds log s'
  grows {log : List Leaf} {s : σ} (batch : ε) : Holds log s →
    (log ++ adds batch).length ≤ 2 ^ 63 → Holds (log ++ adds batch) (happen batch s)

/-- The state holds `n` leaves or more, and what is still to happen makes them the log `total`. -/
def Landed (adds : ε → List Leaf) (Holds : List Leaf → σ → Prop) (total : List Leaf) (n : Nat)
    (st : σ × List ε) : Prop :=
  ∃ log, Holds log st.1 ∧ log ++ st.2.flatMap adds = total ∧ n ≤ log.length

variable {source : Timestamp → LeafSource σ} {happen : ε → σ → σ} {adds : ε → List Leaf}
  {page : UInt64} {backward : (start stop : UInt64) → Except LogError Unit}
  {Holds : List Leaf → σ → Prop} {total : List Leaf} {n : Nat} {st : σ × List ε}

theorem Landed.exists_log (hst : Landed adds Holds total n st) :
    ∃ log, Holds log st.1 ∧ log ++ st.2.flatMap adds = total ∧ n ≤ log.length ∧
      log.length ≤ total.length := by
  obtain ⟨log, hholds, htotal, hn⟩ := hst
  refine ⟨log, hholds, htotal, hn, ?_⟩
  rw [← htotal]
  exact (List.prefix_append _ _).length_le

namespace Keeps

variable (h : Keeps source happen adds page backward Holds) (hle : total.length ≤ 2 ^ 63)
include h hle

end Keeps

end LeafSource

namespace Follower

open LeafSource

variable {σ ε : Type}

/-! ## Polls -/

/-- What came of a poll: the size that the source reported when it began, what it returned, and
where the follower stood after it. -/
structure Polled where
  reported : Except LogError UInt64
  returned : Except LogError (List NewLeaf)
  next : UInt64

/-- Everything that was returned, in order. -/
def records (polls : List Polled) : List NewLeaf :=
  polls.flatMap fun poll => poll.returned.toOption.getD []

/-- There is something new, but the sum of position and page is past the last word. -/
def Stalls (page start size : UInt64) : Prop :=
  start < size ∧ 2 ^ 64 ≤ start.toNat + page.toNat

/-- Polls that bring a follower from one position to another: each of them succeeds and leaves it
at the size reported, or where it was if that is further on. -/
inductive Advances : (start : UInt64) → List Polled → (stop : UInt64) → Prop where
  | nil (start : UInt64) : Advances start [] start
  | cons {start size stop : UInt64} {found : List NewLeaf} {polls : List Polled} :
    Advances (max start size) polls stop →
    Advances start (⟨.ok size, .ok found, max start size⟩ :: polls) stop

/-- The same for a follower whose pages may be so long that it stalls. A poll that stalls leaves it
where it was, with the answer to a range that ends before it begins. -/
inductive Tracks (page : UInt64) (backward : (start stop : UInt64) → Except LogError Unit) :
    (start : UInt64) → List Polled → (stop : UInt64) → Prop where
  | nil (start : UInt64) : Tracks page backward start [] start
  | advance {start size stop : UInt64} {found : List NewLeaf} {polls : List Polled} :
    ¬ Stalls page start size → Tracks page backward (max start size) polls stop →
    Tracks page backward start (⟨.ok size, .ok found, max start size⟩ :: polls) stop
  | stall {start size stop : UInt64} {polls : List Polled} :
    Stalls page start size → Tracks page backward start polls stop →
    Tracks page backward start
      (⟨.ok size, (backward start (start + page)).map fun _ => [], start⟩ :: polls) stop

/-- Polls from one position to another that return the leaves of the log between the two: each
under its index, in order, with no gap and no repetition. None of them stalls if there is room for
a page behind the last leaf. -/
structure KeepsUp (page : UInt64) (backward : (start stop : UInt64) → Except LogError Unit)
    (log : List Leaf) (start : UInt64) (polls : List Polled) (stop : UInt64) : Prop where
  tracks : Tracks page backward start polls stop
  advances : log.length + page.toNat ≤ 2 ^ 64 → Advances start polls stop
  records_eq : (records polls).map (fun found => (found.index.toNat, some found.leaf)) =
    (List.range' start.toNat (stop.toNat - start.toNat)).map fun i => (i, log[i]?)

variable {page : UInt64} {backward : (start stop : UInt64) → Except LogError Unit}

theorem Tracks.le {start stop : UInt64} {polls : List Polled}
    (h : Tracks page backward start polls stop) : start.toNat ≤ stop.toNat := by
  induction h with
  | nil start => exact le_rfl
  | advance _ _ ih =>
      rw [UInt64.toNat_max] at ih
      exact (Nat.le_max_left _ _).trans ih
  | stall _ _ ih => exact ih

namespace KeepsUp

variable {log : List Leaf} {start size stop : UInt64} {polls : List Polled}

theorem nil (start : UInt64) : KeepsUp page backward log start [] start where
  tracks := .nil start
  advances _ := .nil start
  records_eq := by
    rw [Nat.sub_self]
    rfl

end KeepsUp

theorem number_append (next : UInt64) (xs ys : List Leaf) :
    number next (xs ++ ys) = number next xs ++ number (next + UInt64.ofNat xs.length) ys := by
  induction xs generalizing next with
  | nil =>
      rw [List.length_nil, show UInt64.ofNat 0 = 0 from rfl, UInt64.add_zero]
      rfl
  | cons x xs ih =>
      rw [List.cons_append, number, ih, number, List.cons_append, List.length_cons,
        Nat.add_comm xs.length, UInt64.ofNat_add, UInt64.add_assoc]
      rfl

theorem map_number_slice {log : List Leaf} {start : UInt64} {stop : Nat}
    (hstop : stop ≤ log.length) (hle : log.length ≤ 2 ^ 63) :
    (number start ((log.take stop).drop start.toNat)).map
        (fun found => (found.index.toNat, some found.leaf)) =
      (List.range' start.toNat (stop - start.toNat)).map fun i => (i, log[i]?) := by
  induction hcount : stop - start.toNat generalizing start with
  | zero =>
      rw [List.drop_eq_nil_of_le (by rw [List.length_take]; omega)]
      rfl
  | succ count ih =>
      have hlt : start.toNat < (log.take stop).length := by
        rw [List.length_take]
        omega
      have hat : (log.take stop)[start.toNat] = log[start.toNat] := List.getElem_take
      have hnext : (start + 1).toNat = start.toNat + 1 := Span.toNat_add_one (by omega)
      have hrest := @ih (start + 1) (by omega)
      rw [hnext] at hrest
      rw [List.drop_eq_getElem_cons hlt, number, List.map_cons, hrest, List.range'_succ,
        List.map_cons, hat, List.getElem?_eq_getElem]

theorem toNat_add_length {next : UInt64} {n : Nat} (h : next.toNat + n < 2 ^ 64) :
    (next + UInt64.ofNat n).toNat = next.toNat + n := by
  have hn : (UInt64.ofNat n).toNat = n := by
    rw [UInt64.toNat_ofNat']
    exact Nat.mod_eq_of_lt (by omega)
  rw [UInt64.toNat_add, hn, Nat.mod_eq_of_lt h]

namespace KeepsUp

variable {log : List Leaf} {start size stop : UInt64} {polls : List Polled}

theorem advance (hsize : size.toNat ≤ log.length) (hle : log.length ≤ 2 ^ 63)
    (hfits : ¬ Stalls page start size)
    (h : KeepsUp page backward log (max start size) polls stop) :
    KeepsUp page backward log start
      (⟨.ok size, .ok (number start ((log.take size.toNat).drop start.toNat)),
        max start size⟩ :: polls) stop where
  tracks := .advance hfits h.tracks
  advances hroom := .cons (h.advances hroom)
  records_eq := by
    have hstop := h.tracks.le
    have hrest := h.records_eq
    rw [UInt64.toNat_max] at hstop hrest
    have hcount : stop.toNat - start.toNat =
        (size.toNat - start.toNat) + (stop.toNat - max start.toNat size.toNat) := by omega
    have hnext : List.range' (max start.toNat size.toNat)
          (stop.toNat - max start.toNat size.toNat) =
        List.range' (start.toNat + (size.toNat - start.toNat))
          (stop.toNat - max start.toNat size.toNat) := by
      congr 1
      omega
    show (number start ((log.take size.toNat).drop start.toNat) ++ records polls).map _ = _
    rw [List.map_append, map_number_slice hsize hle, hrest, hnext, hcount,
      ← List.range'_append_1, List.map_append]

theorem stall (hsize : size.toNat ≤ log.length) (hstalls : Stalls page start size)
    (h : KeepsUp page backward log start polls stop) :
    KeepsUp page backward log start
      (⟨.ok size, (backward start (start + page)).map fun _ => [], start⟩ :: polls) stop where
  tracks := .stall hstalls h.tracks
  advances hroom := by
    have hlt := UInt64.lt_iff_toNat_lt.1 hstalls.1
    have hpast := hstalls.2
    omega
  records_eq := by
    have hnone : (((backward start (start + page)).map fun _ =>
        ([] : List NewLeaf)).toOption.getD []) = [] := by
      cases backward start (start + page) with
      | error e => rfl
      | ok _ => rfl
    rw [← h.records_eq, records, List.flatMap_cons, hnone]
    rfl

end KeepsUp

/-! ## A follower of a live source -/

section

variable {source : LeafSource σ} {size next : UInt64} {found : List NewLeaf} {s s' : σ}

theorem pull_of_le (h : size ≤ next) : source.pull page size next found s =
    some (.ok (found, next), s) := by
  rw [LeafSource.pull, if_neg (UInt64.not_lt.2 h)]

theorem pull_of_error (h : next < size) {e : LogError}
    (hentries : source.entries next (min size (next + page)) s = (.error e, s')) :
    source.pull page size next found s = some (.error e, s') := by
  rw [LeafSource.pull, if_pos h, hentries]

theorem pull_of_nil (h : next < size)
    (hentries : source.entries next (min size (next + page)) s = (.ok [], s')) :
    source.pull page size next found s = some (.ok (found, next), s') := by
  rw [LeafSource.pull, if_pos h, hentries]

theorem pull_of_cons (h : next < size) {leaf : Leaf} {leaves : List Leaf}
    (hentries : source.entries next (min size (next + page)) s = (.ok (leaf :: leaves), s')) :
    source.pull page size next found s =
      source.pull page size (next + UInt64.ofNat (leaves.length + 1))
        (found ++ number next (leaf :: leaves)) s' := by
  rw [LeafSource.pull, if_pos h, hentries]

end

/-- If the sum is a word, the page ends behind its start and is no longer than it may be. -/
theorem page_of_lt {page next size : UInt64} (hpos : 0 < page) (hlt : next < size)
    (hsum : next.toNat + page.toNat < 2 ^ 64) :
    (min size (next + page)).toNat = min size.toNat (next.toNat + page.toNat) ∧
      next < min size (next + page) ∧ min size (next + page) - next ≤ page := by
  have hstop : (min size (next + page)).toNat = min size.toNat (next.toNat + page.toNat) := by
    rw [UInt64.toNat_min, UInt64.toNat_add, Nat.mod_eq_of_lt hsum]
  have hsome : 0 < page.toNat := UInt64.lt_iff_toNat_lt.1 hpos
  rw [UInt64.lt_iff_toNat_lt] at hlt
  have hnext : next < min size (next + page) := by
    rw [UInt64.lt_iff_toNat_lt, hstop]
    omega
  refine ⟨hstop, hnext, ?_⟩
  rw [UInt64.le_iff_toNat_le, UInt64.toNat_sub_of_le _ _ (UInt64.le_of_lt hnext), hstop]
  omega

variable {source : Timestamp → LeafSource σ} {happen : ε → σ → σ} {adds : ε → List Leaf}
  {Holds : List Leaf → σ → Prop} {total : List Leaf} {st : σ × List ε}

theorem poll_of_ok {source : LeafSource σ} {follower : Follower} {s s₁ s₂ : σ} {size next : UInt64}
    {found : List NewLeaf} (hsize : source.size s = (.ok size, s₁))
    (hpull : source.pull follower.page size follower.next [] s₁ = some (.ok (found, next), s₂)) :
    poll source follower s = some (.ok found, { follower with next := next }, s₂) := by
  rw [poll, hsize]
  simp only [hpull]

theorem poll_of_error {source : LeafSource σ} {follower : Follower} {s s₁ s₂ : σ} {size : UInt64}
    {e : LogError} (hsize : source.size s = (.ok size, s₁))
    (hpull : source.pull follower.page size follower.next [] s₁ = some (.error e, s₂)) :
    poll source follower s = some (.error e, follower, s₂) := by
  rw [poll, hsize]
  simp only [hpull]

variable (follower : Follower) {n : Nat}

end Follower

end OwnershipLog
