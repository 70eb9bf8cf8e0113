import OwnershipLog.Proofs.Store.View
import OwnershipLog.Tree

/-!
# How often a transaction reads the clock

A program that is carried out one step at a time may find a different time at every
reading of the clock; run in one go it finds one time throughout. The programs of
the log read it at most once in a query and never in an append, so the two agree:
what remains of a query on its way still answers, at some time, what the whole query
answers (`Continues`).
-/

namespace OwnershipLog

namespace Transaction

variable {Write ε ε' α β : Type}

/-- The clock is read `n` times at most. -/
def ClockAtMost : (n : Nat) → Transaction Write ε α → Prop
  | _, done _ => True
  | _, fail _ => True
  | n, get _ reply => ∀ value, ClockAtMost n (reply value)
  | 0, clock _ => False
  | n + 1, clock reply => ∀ now, ClockAtMost n (reply now)
  | n, put _ rest => ClockAtMost n rest

namespace ClockAtMost

variable {m n : Nat} {program : Transaction Write ε α}

theorem mono (h : program.ClockAtMost m) (hle : m ≤ n) : program.ClockAtMost n := by
  induction program generalizing m n with
  | done a => trivial
  | fail e => trivial
  | get key reply ih => exact fun value => ih value (h value) hle
  | clock reply ih =>
      cases m with
      | zero => exact h.elim
      | succ m =>
          obtain ⟨n, rfl⟩ := Nat.exists_eq_add_of_le' hle
          exact fun now => ih now (h now) (Nat.le_add_left m n)
  | put write rest ih => exact ih h hle

theorem bind_add (h : program.ClockAtMost m) {next : α → Transaction Write ε β}
    (hnext : ∀ a, (next a).ClockAtMost n) : (program >>= next).ClockAtMost (m + n) := by
  show (program.bind next).ClockAtMost (m + n)
  induction program generalizing m with
  | done a => exact (hnext a).mono (Nat.le_add_left n m)
  | fail e => trivial
  | get key reply ih => exact fun value => ih value (h value)
  | clock reply ih =>
      -- The reading comes off the count of the first program.
      cases m with
      | zero => exact h.elim
      | succ m =>
          rw [Nat.succ_add]
          exact fun now => ih now (h now)
  | put write rest ih => exact ih h

theorem bind (h : program.ClockAtMost 0) {next : α → Transaction Write ε β}
    (hnext : ∀ a, (next a).ClockAtMost n) : (program >>= next).ClockAtMost n := by
  have hbind := h.bind_add hnext
  rwa [Nat.zero_add] at hbind

theorem mapError (h : program.ClockAtMost n) (f : ε → ε') :
    (program.mapError f).ClockAtMost n := by
  induction program generalizing n with
  | done a => trivial
  | fail e => trivial
  | get key reply ih => exact fun value => ih value (h value)
  | clock reply ih =>
      cases n with
      | zero => exact h.elim
      | succ n => exact fun now => ih now (h now)
  | put write rest ih => exact ih h

theorem toUpdate {query : Query ε α} (h : query.ClockAtMost n) :
    (Query.toUpdate query).ClockAtMost n := by
  induction query generalizing n with
  | done a => trivial
  | fail e => trivial
  | get key reply ih => exact fun value => ih value (h value)
  | clock reply ih =>
      cases n with
      | zero => exact h.elim
      | succ n => exact fun now => ih now (h now)
  | put write rest => exact write.elim

/-- Without the clock the time makes no difference. -/
theorem outcome_eq {update : Update ε α} (h : update.ClockAtMost 0) (now later : Timestamp)
    (v : View) : outcome now update v = outcome later update v := by
  induction update generalizing v with
  | done a => rfl
  | fail e => rfl
  | get key reply ih => exact ih _ (h _) v
  | clock reply => exact h.elim
  | put write rest ih => exact ih h _

end ClockAtMost

/-! ## Programs on their way -/

/-- What remains of a query leads to an answer of the whole query to the view: the clock is still
to be read, or has been. -/
def Continues (v : View) (query rest : Query ε α) : Prop :=
  rest.ClockAtMost 1 ∧ (∀ now, answer now rest v = answer now query v) ∨
    rest.ClockAtMost 0 ∧ ∃ now, answer now rest v = answer now query v

namespace Continues

variable {v : View} {query : Query ε α}

theorem self (h : query.ClockAtMost 1) : Continues v query query := .inl ⟨h, fun _ => rfl⟩

theorem get {key : StoreKey} {reply : Option Bytes → Query ε α}
    (h : Continues v query (.get key reply)) : Continues v query (reply (v key.bytes)) := by
  rcases h with ⟨honce, hanswer⟩ | ⟨hnever, now, hanswer⟩
  · exact .inl ⟨honce _, hanswer⟩
  · exact .inr ⟨hnever _, now, hanswer⟩

theorem clock {reply : Timestamp → Query ε α} (h : Continues v query (.clock reply))
    (now : Timestamp) : Continues v query (reply now) := by
  rcases h with ⟨honce, hanswer⟩ | ⟨hnever, -⟩
  · exact .inr ⟨honce now, now, hanswer now⟩
  · exact hnever.elim

theorem exists_answer {rest : Query ε α} (h : Continues v query rest) :
    ∃ now, answer now rest v = answer now query v := by
  rcases h with ⟨-, hanswer⟩ | ⟨-, hanswer⟩
  · exact ⟨Timestamp.epoch, hanswer _⟩
  · exact hanswer

end Continues

/-- What remains of an update that began at the view `base` leads from the view `v` to where the
whole update leads. -/
structure Pursues (base v : View) (update rest : Update ε α) : Prop where
  clockAtMost : rest.ClockAtMost 0
  outcome_eq : ∀ now, outcome now rest v = outcome now update base

namespace Pursues

variable {base v : View} {update : Update ε α}

theorem self (h : update.ClockAtMost 0) : Pursues v v update update := ⟨h, fun _ => rfl⟩

theorem get {key : StoreKey} {reply : Option Bytes → Update ε α}
    (h : Pursues base v update (.get key reply)) :
    Pursues base v update (reply (v key.bytes)) := ⟨h.clockAtMost _, h.outcome_eq⟩

theorem put {write : StoreKey × Bytes} {rest : Update ε α}
    (h : Pursues base v update (.put write rest)) :
    Pursues base (v.put write.1.bytes write.2) update rest := ⟨h.clockAtMost, h.outcome_eq⟩

end Pursues

end Transaction

open Transaction

/-! ## The programs of the log -/

namespace Layout

theorem clockAtMost_size : size.ClockAtMost 0 := by
  rintro (_ | bytes)
  · trivial
  · dsimp only
    split <;> trivial

theorem clockAtMost_leaf (index : UInt64) : (leaf index).ClockAtMost 0 := by
  rintro (_ | bytes)
  · trivial
  · show ClockAtMost 0 (leafOf index bytes >>= fun leaf => pure (some leaf))
    have hleaf : (leafOf index bytes).ClockAtMost 0 := by
      rw [leafOf]
      split <;> trivial
    exact hleaf.bind fun _ => trivial

theorem clockAtMost_node (span : Span) : (node span).ClockAtMost 0 := by
  rintro (_ | bytes)
  · trivial
  · dsimp only
    split <;> trivial

end Layout

namespace Tree

theorem clockAtMost_logSize : (reading Layout.size).ClockAtMost 0 :=
  Layout.clockAtMost_size.mapError _

theorem clockAtMost_presentLeaf (index : UInt64) : (presentLeaf index).ClockAtMost 0 := by
  refine ((Layout.clockAtMost_leaf index).mapError _).bind fun leaf? => ?_
  cases leaf? <;> trivial

theorem clockAtMost_leavesFrom (n : Nat) (start : UInt64) :
    (leavesFrom n start).ClockAtMost 0 := by
  induction n generalizing start with
  | zero => trivial
  | succ n ih => exact (clockAtMost_presentLeaf start).bind fun _ => (ih _).bind fun _ => trivial

theorem clockAtMost_leafQuery (index : UInt64) : (leafQuery index).ClockAtMost 0 := by
  refine clockAtMost_logSize.bind fun size => ?_
  split
  · trivial
  · exact (Layout.clockAtMost_leaf index).mapError _

theorem clockAtMost_leavesQuery (start stop : UInt64) : (leavesQuery start stop).ClockAtMost 0 :=
  clockAtMost_logSize.bind fun _ => clockAtMost_leavesFrom _ start

variable (hash : HashFunction)

theorem clockAtMost_nodeHash (span : Span) : (nodeHash hash span).ClockAtMost 0 := by
  rw [nodeHash]
  split
  · rintro (_ | bytes) <;> trivial
  · refine ((Layout.clockAtMost_node span).mapError _).bind fun digest? => ?_
    cases digest? <;> trivial

theorem clockAtMost_siblingHash (size : UInt64) (sibling : Span) :
    (siblingHash hash size sibling).ClockAtMost 0 := by
  rw [siblingHash]
  split
  · trivial
  · exact clockAtMost_nodeHash hash sibling

theorem clockAtMost_siblingHashes (size : UInt64) (path : List Span) :
    (siblingHashes hash size path).ClockAtMost 0 := by
  induction path with
  | nil => trivial
  | cons span path ih =>
      exact (clockAtMost_siblingHash hash size _).bind fun _ => ih.bind fun _ => trivial

theorem clockAtMost_headAt (size : UInt64) : (headAt hash size).ClockAtMost 1 :=
  fun _ => (clockAtMost_nodeHash hash _).bind fun _ => trivial

theorem clockAtMost_headQuery : (headQuery hash).ClockAtMost 1 :=
  clockAtMost_logSize.bind fun size => clockAtMost_headAt hash size

theorem clockAtMost_proofQuery (index : UInt64) : (proofQuery hash index).ClockAtMost 1 := by
  refine clockAtMost_logSize.bind fun size => ?_
  split
  · trivial
  · refine (clockAtMost_presentLeaf index).bind fun leaf => ?_
    refine (clockAtMost_headAt hash size).bind_add (n := 0) fun head => ?_
    exact (clockAtMost_siblingHashes hash size _).bind fun _ => trivial

theorem clockAtMost_raise (size : UInt64) (path : List Span) (own : Digest) :
    (raise hash size path own).ClockAtMost 0 := by
  induction path generalizing own with
  | nil => trivial
  | cons span path ih => exact (clockAtMost_siblingHash hash size _).toUpdate.bind fun _ => ih _

theorem clockAtMost_appendUpdate (bytes : Bytes) : (appendUpdate hash bytes).ClockAtMost 0 := by
  refine clockAtMost_logSize.toUpdate.bind fun index => ?_
  exact (clockAtMost_raise hash _ _ _).bind fun _ => trivial

end Tree

end OwnershipLog
