import OwnershipLog.Proofs.Tree.Interleaved

/-!
# The order of heads

A head carries the size of the snapshot that its call began with, and the time that the
call found when it read the clock, which comes later. No lock is held between the two, so
other calls may commit, and look, in between. The readings of a run (`System.readings`)
say which call read the clock when; along a run they stay in step with what the calls
have come to (`Stamped`).

So the heads of a clock that never stands still are in the order of their times, except
where a call was overtaken between its snapshot and its reading of the clock
(`Overtaken`); and there they are not (`System.heads_in_order_iff`).
-/

namespace OwnershipLog

open Transaction

theorem Timestamp.isBefore_asymm {s t : Timestamp} (h : s.isBefore t = true) :
    t.isBefore s = false := by
  simp only [isBefore, Bool.or_eq_true, Bool.and_eq_true, decide_eq_true_eq, beq_iff_eq,
    Bool.or_eq_false_iff, Bool.and_eq_false_iff, decide_eq_false_iff_not,
    Int64.lt_iff_toInt_lt, UInt32.lt_iff_toNat_lt, ← Int64.toInt_inj, beq_eq_false_iff_ne,
    ne_eq] at h ⊢
  omega

namespace Transaction

variable {ε α : Type}

/-- Without the clock the time makes no difference to a query either. -/
theorem ClockAtMost.answer_eq {query : Query ε α} (h : query.ClockAtMost 0)
    (now later : Timestamp) (v : View) : answer now query v = answer later query v := by
  have houtcome := h.toUpdate.outcome_eq now later v
  rw [outcome_toUpdate, outcome_toUpdate] at houtcome
  exact congrArg Prod.fst houtcome

/-- What remains of a query answers as the whole query does at the time that has been read, or at
any time as long as none has. -/
structure Resumes (read? : Option Timestamp) (v : View) (query rest : Query ε α) : Prop where
  clockAtMost : rest.ClockAtMost (if read?.isSome then 0 else 1)
  answer_eq : ∀ now, answer now rest v = answer (read?.getD now) query v

namespace Resumes

variable {read? : Option Timestamp} {v : View} {query : Query ε α}

theorem self (h : query.ClockAtMost 1) : Resumes none v query query := ⟨h, fun _ => rfl⟩

theorem get {key : StoreKey} {reply : Option Bytes → Query ε α}
    (h : Resumes read? v query (.get key reply)) : Resumes read? v query (reply (v key.bytes)) :=
  ⟨h.clockAtMost _, h.answer_eq⟩

/-- The clock is read once. -/
theorem clock {reply : Timestamp → Query ε α} (h : Resumes read? v query (.clock reply))
    (now : Timestamp) : read? = none ∧ Resumes (some now) v query (reply now) := by
  cases read? with
  | some t => exact h.clockAtMost.elim
  | none =>
      have hrest : (reply now).ClockAtMost 0 := h.clockAtMost now
      exact ⟨rfl, hrest, fun later => (hrest.answer_eq later now v).trans (h.answer_eq now)⟩

end Resumes

end Transaction

namespace Tree

/-! ## Readings of the clock -/

/-- The call that reads the clock when a move is made, with the time that it finds. -/
def Callers.reading? (c : Callers) : Move → Option (Nat × Timestamp)
  | .step id now => match c.calls[id]? with
    | some (.look _ (.reading _ (.clock _))) => some (id, now)
    | some (.append _ _ (.writing (.clock _))) => some (id, now)
    | _ => none
  | _ => none

/-- The readings of the clock in a run, each with the call that made it. -/
def System.readings {S R W : Type} [Store S R W] (hash : HashFunction) :
    List Move → System S R W → List (Nat × Timestamp)
  | [], _ => []
  | move :: moves, sys =>
    (sys.callers.reading? move).toList ++ readings hash moves (sys.step hash move)

theorem System.readings_append {S R W : Type} [Store S R W] (hash : HashFunction)
    (earlier later : List Move) (sys : System S R W) :
    readings hash (earlier ++ later) sys =
      readings hash earlier sys ++ readings hash later (sys.run hash earlier) := by
  induction earlier generalizing sys with
  | nil => rfl
  | cons move earlier ih => rw [List.cons_append, readings, readings, ih, List.append_assoc]; rfl

theorem System.readings_of_stands {S R W : Type} [Store S R W] [SnapshotStore S R W]
    (hash : HashFunction) {a : System S R W} {b : System Copying View View} (h : Stands a b)
    (moves : List Move) : readings hash moves a = readings hash moves b := by
  induction moves generalizing a b with
  | nil => rfl
  | cons move moves ih => rw [readings, readings, h.callers_eq, ih (step_of_stands hash h move)]

/-! ## When a call began -/

/-- How many commits there were when the reader of a look was opened. -/
def LookStage.since? : LookStage → Option Nat
  | called => none
  | reading since _ | found since _ => some since

/-- How many commits there were when the call took its snapshot, if it is a look that has one. -/
def Callers.since? (c : Callers) (id : Nat) : Option Nat :=
  match c.calls[id]? with
  | some (.look _ stage) => stage.since?
  | _ => none

section

variable {hash : HashFunction} {c c' : Callers} {b b' : Session Copying View View} {id j : Nat}
  {read? : Option Timestamp}

theorem Callers.since?_congr (h : c'.calls[id]? = c.calls[id]?) : c'.since? id = c.since? id := by
  rw [since?, since?, h]

theorem Callers.since?_of_look {look : Look} {stage : LookStage}
    (h : c.calls[id]? = some (.look look stage)) : c.since? id = stage.since? := by
  rw [since?, h]

theorem Callers.since?_of_append {handle : Nat} {leaf : Leaf} {stage : AppendStage}
    (h : c.calls[id]? = some (.append handle leaf stage)) : c.since? id = none := by
  rw [since?, h]

theorem Callers.getElem?_set_self {call call' : Call} (h : c.calls[id]? = some call) :
    (c.set id call').calls[id]? = some call' :=
  List.getElem?_set_self (List.getElem?_eq_some_iff.1 h).1

/-- When a call is made, the others are where they were, and it is at the end. -/
theorem Callers.getElem?_join (c : Callers) (call : Call) (id : Nat) :
    (c.calls ++ [call])[id]? = c.calls[id]? ∨
      c.calls[id]? = none ∧ (c.calls ++ [call])[id]? = some call := by
  rcases Nat.lt_trichotomy id c.calls.length with hold | rfl | hpast
  · exact Or.inl (List.getElem?_append_left hold)
  · exact Or.inr ⟨List.getElem?_eq_none (Nat.le_refl _), List.getElem?_concat_length⟩
  · left
    rw [List.getElem?_eq_none (Nat.le_of_lt hpast), List.getElem?_eq_none]
    rwa [List.length_append]

/-- A step leaves the stages of the other calls alone. -/
theorem Transition.getElem?_calls (h : Transition hash id c b c' b') (hne : j ≠ id) :
    c'.calls[j]? = c.calls[j]? := by
  cases h <;> exact List.getElem?_set_ne (Ne.symm hne)

/-- A step gives a call a snapshot, or does not change when it has begun. -/
theorem Transition.since?_cases (h : Transition hash id c b c' b') (j : Nat) :
    c'.since? j = c.since? j ∨
      c.since? j = none ∧ c'.since? j = some c.commits.length := by
  by_cases hj : j = id
  · subst hj
    cases h with
    | openReader hcall =>
        right
        rw [Callers.since?_of_look hcall, Callers.since?_of_look (Callers.getElem?_set_self hcall)]
        exact ⟨rfl, rfl⟩
    | read hcall | readClock hcall | closeReader hcall =>
        left
        rw [Callers.since?_of_look hcall]
        exact (Callers.since?_of_look (Callers.getElem?_set_self hcall)).trans rfl
    | refuse hcall | lock hcall | openWriter hcall | peek hcall | writeClock hcall | put hcall
    | commit hcall | discard hcall | remember hcall | unlock hcall =>
        left
        rw [Callers.since?_of_append hcall]
        exact Callers.since?_of_append (Callers.getElem?_set_self hcall)
  · exact Or.inl (Callers.since?_congr (h.getElem?_calls hj))

end

/-! ## What the readings say -/

/-- What the call has come to is what it would have with the clock always at the time that it has
read, or at any time if it has read none. -/
def Callers.StampedAt (hash : HashFunction) (c : Callers) (id : Nat) (read? : Option Timestamp) :
    Prop :=
  match c.calls[id]? with
  | some (.look look (.reading since rest)) =>
    Resumes read? (c.viewAt hash since) (look.query hash) rest
  | some (.look look (.found since result)) =>
    ∀ now, result = answer (read?.getD now) (look.query hash) (c.viewAt hash since)
  | _ => read? = none

/-- The readings so far agree with what every call has come to. -/
def Stamped (hash : HashFunction) (past : List (Nat × Timestamp)) (c : Callers) : Prop :=
  ∀ id, c.StampedAt hash id (past.lookup id)

section

variable {hash : HashFunction} {c c' : Callers} {b b' : Session Copying View View} {id j : Nat}
  {read? : Option Timestamp} {past : List (Nat × Timestamp)}

/-- A call without a snapshot has not read the clock. -/
theorem Callers.StampedAt.eq_none (h : c.StampedAt hash id read?) (hnew : c.since? id = none) :
    read? = none := by
  unfold StampedAt at h
  unfold since? at hnew
  split at h
  · rename_i hcall
    rw [hcall] at hnew
    cases hnew
  · rename_i hcall
    rw [hcall] at hnew
    cases hnew
  · exact h

theorem Callers.stampedAt_append {handle : Nat} {leaf : Leaf} {stage : AppendStage}
    (h : c.calls[id]? = some (.append handle leaf stage)) :
    c.StampedAt hash id read? ↔ read? = none := by
  rw [StampedAt, h]

theorem Callers.stampedAt_called {look : Look} (h : c.calls[id]? = some (.look look .called)) :
    c.StampedAt hash id read? ↔ read? = none := by
  rw [StampedAt, h]

theorem Callers.stampedAt_reading {look : Look} {since : Nat} {rest : Query LogError Finding}
    (h : c.calls[id]? = some (.look look (.reading since rest))) :
    c.StampedAt hash id read? ↔ Resumes read? (c.viewAt hash since) (look.query hash) rest := by
  rw [StampedAt, h]

theorem Callers.stampedAt_found {look : Look} {since : Nat} {result : Except LogError Finding}
    (h : c.calls[id]? = some (.look look (.found since result))) :
    c.StampedAt hash id read? ↔
      ∀ now, result = answer (read?.getD now) (look.query hash) (c.viewAt hash since) := by
  rw [StampedAt, h]

/-- What the others commit makes no difference. -/
theorem Orderly.stampedAt_congr (h : Orderly hash c b) (hstamped : c.StampedAt hash id read?)
    (hcall : c'.calls[id]? = c.calls[id]?) (hcommits : c.commits <+: c'.commits) :
    c'.StampedAt hash id read? := by
  unfold Callers.StampedAt at hstamped ⊢
  rw [hcall]
  split at hstamped
  · rename_i hat
    cases h.kept hat with
    | reading hle hreader hrest => rwa [Callers.viewAt_of_extends hcommits hle]
  · rename_i hat
    cases h.kept hat with
    | found hle hresult => rwa [Callers.viewAt_of_extends hcommits hle]
  · exact hstamped

/-- A step of a call that does not read the clock. -/
theorem Orderly.stampedAt_transition (h : Orderly hash c b)
    (hstamped : c.StampedAt hash id read?) (hmoves : Transition hash id c b c' b')
    (hclock : ∀ now, c.reading? (.step id now) = none) : c'.StampedAt hash id read? := by
  cases hmoves with
  | @openReader look hcall =>
      obtain rfl := (Callers.stampedAt_called hcall).1 hstamped
      exact (Callers.stampedAt_reading (Callers.getElem?_set_self hcall)).2
        (.self (look.clockAtMost_query hash))
  | read hcall hreader =>
      cases h.kept hcall with
      | reading hle hopen hrest =>
          cases hreader.symm.trans hopen
          exact (Callers.stampedAt_reading (Callers.getElem?_set_self hcall)).2
            ((Callers.stampedAt_reading hcall).1 hstamped).get
  | readClock hcall now | writeClock hcall now =>
      have hread := hclock now
      rw [Callers.reading?, hcall] at hread
      cases hread
  | closeReader hcall hend =>
      have hresumes := (Callers.stampedAt_reading hcall).1 hstamped
      refine (Callers.stampedAt_found (Callers.getElem?_set_self hcall)).2 fun now => ?_
      exact (hend now _).symm.trans (hresumes.answer_eq now)
  | @commit handle leaf index w hcall hwriter =>
      have hnext : ({ c.set id (.append handle leaf (.committed index)) with
          commits := c.commits ++ [(id, leaf)] } : Callers).calls[id]? =
            some (.append handle leaf (.committed index)) := Callers.getElem?_set_self hcall
      exact (Callers.stampedAt_append hnext).2 ((Callers.stampedAt_append hcall).1 hstamped)
  | refuse hcall | lock hcall | openWriter hcall | peek hcall | put hcall | discard hcall
  | remember hcall | unlock hcall =>
      exact (Callers.stampedAt_append (Callers.getElem?_set_self hcall)).2
        ((Callers.stampedAt_append hcall).1 hstamped)

/-- A step that reads the clock. -/
theorem Orderly.stamped_clock (h : Orderly hash c b) (hstamped : Stamped hash past c)
    {look : Look} {since : Nat} {reply : Timestamp → Query LogError Finding}
    (hcall : c.calls[id]? = some (.look look (.reading since (.clock reply)))) (now : Timestamp) :
    Stamped hash (past ++ [(id, now)]) (c.set id (.look look (.reading since (reply now)))) := by
  have hresumes := (Callers.stampedAt_reading hcall).1 (hstamped id)
  obtain ⟨hnone, hrest⟩ := hresumes.clock now
  intro j
  rw [List.lookup_append]
  by_cases hj : j = id
  · subst hj
    rw [hnone, List.lookup_cons_self]
    exact (Callers.stampedAt_reading (Callers.getElem?_set_self hcall)).2 hrest
  · have hother : List.lookup j [(id, now)] = none := by
      rw [List.lookup_cons, beq_false_of_ne hj]
      rfl
    rw [hother, Option.or_none]
    exact h.stampedAt_congr (hstamped j) (List.getElem?_set_ne (Ne.symm hj)) (List.prefix_refl _)

/-- A call that has just been made. -/
theorem Orderly.stamped_join (h : Orderly hash c b) (hstamped : Stamped hash past c) {call : Call}
    (hcall : ∀ (c' : Callers) (id : Nat) (read? : Option Timestamp), c'.calls[id]? = some call →
      (c'.StampedAt hash id read? ↔ read? = none)) :
    Stamped hash past { c with calls := c.calls ++ [call] } := by
  intro id
  rcases c.getElem?_join call id with hold | ⟨hnew, hlast⟩
  · exact h.stampedAt_congr (hstamped id) hold (List.prefix_refl _)
  · have hid := hstamped id
    rw [Callers.StampedAt, hnew] at hid
    exact (hcall _ _ _ hlast).2 hid

namespace System

variable {sys : System Copying View View}

/-- Every move keeps the readings in step with the calls. -/
theorem stamped_step (h : Orderly hash sys.callers sys.session)
    (hstamped : Stamped hash past sys.callers) (move : Move) :
    Stamped hash (past ++ (sys.callers.reading? move).toList) (sys.step hash move).callers := by
  cases move with
  | look look =>
      show Stamped hash (past ++ []) _
      rw [List.append_nil]
      exact h.stamped_join hstamped fun _ _ _ => Callers.stampedAt_called
  | append handle leaf =>
      show Stamped hash (past ++ []) _
      rw [List.append_nil]
      exact h.stamped_join hstamped fun _ _ _ => Callers.stampedAt_append
  | step id now =>
      by_cases hclock : ∃ look since reply,
          sys.callers.calls[id]? = some (.look look (.reading since (.clock reply)))
      · obtain ⟨look, since, reply, hcall⟩ := hclock
        have hnone : sys.callers.operation? id = none := by
          rw [Callers.operation?, hcall]
          rfl
        have hread : sys.callers.reading? (.step id now) = some (id, now) := by
          rw [Callers.reading?, hcall]
        have hproceed : sys.callers.proceed id now =
            sys.callers.set id (.look look (.reading since (reply now))) := by
          rw [Callers.proceed, hcall]
        rw [hread, step_of_none hnone, hproceed]
        exact h.stamped_clock hstamped hcall now
      · have hquiet : ∀ now, sys.callers.reading? (.step id now) = none := by
          intro now
          rw [Callers.reading?]
          split
          · rename_i hcall
            exact absurd ⟨_, _, _, hcall⟩ hclock
          · -- An append does not read the clock.
            rename_i hcall
            cases h.kept hcall with
            | writing hencode hholds hopen hrest => exact hrest.clockAtMost.elim
          · rfl
        rw [hquiet now, Option.toList_none, List.append_nil]
        rcases sys.step_cases hash id now with hsame | hmoves
        · rwa [hsame]
        · intro j
          by_cases hj : j = id
          · subst hj
            exact h.stampedAt_transition (hstamped j) hmoves hquiet
          · exact h.stampedAt_congr (hstamped j) (hmoves.getElem?_calls hj) hmoves.commits_extend

theorem stamped_run (h : Orderly hash sys.callers sys.session)
    (hstamped : Stamped hash past sys.callers) (moves : List Move) :
    Stamped hash (past ++ readings hash moves sys) (sys.run hash moves).callers := by
  induction moves generalizing past sys with
  | nil =>
      rw [readings, List.append_nil]
      exact hstamped
  | cons move moves ih =>
      rw [readings, ← List.append_assoc]
      exact ih (h.step move) (stamped_step h hstamped move)

/-! ## When calls began, in a run -/

theorem since?_step (hash : HashFunction) (sys : System Copying View View) (move : Move)
    (id : Nat) :
    (sys.step hash move).callers.since? id = sys.callers.since? id ∨
      sys.callers.since? id = none ∧
        (sys.step hash move).callers.since? id = some sys.callers.commits.length := by
  have hjoin : ∀ call : Call, (∀ (c : Callers) (id : Nat), c.calls[id]? = some call →
      c.since? id = none) →
      ({ sys.callers with calls := sys.callers.calls ++ [call] } : Callers).since? id =
        sys.callers.since? id := by
    intro call hcall
    rcases sys.callers.getElem?_join call id with hold | ⟨hnew, hlast⟩
    · exact Callers.since?_congr hold
    · have hnone : sys.callers.since? id = none := by rw [Callers.since?, hnew]
      exact (hcall _ _ hlast).trans hnone.symm
  cases move with
  | look look => exact Or.inl (hjoin _ fun _ _ hcall => Callers.since?_of_look hcall)
  | append handle leaf => exact Or.inl (hjoin _ fun _ _ hcall => Callers.since?_of_append hcall)
  | step id' now =>
      rcases sys.step_cases hash id' now with hsame | hmoves
      · left
        rw [hsame]
      · exact hmoves.since?_cases id

/-- A call keeps its snapshot. -/
theorem since?_run {k : Nat} (h : sys.callers.since? id = some k) (moves : List Move) :
    (sys.run hash moves).callers.since? id = some k := by
  induction moves generalizing sys with
  | nil => exact h
  | cons move moves ih =>
      apply ih
      rcases since?_step hash sys move id with hsame | ⟨hnone, -⟩
      · exact hsame.trans h
      · cases hnone.symm.trans h

/-- A call that has not begun will have what has been committed by now. -/
theorem le_of_since?_run {k : Nat} {moves : List Move} (h : sys.callers.since? id = none)
    (hk : (sys.run hash moves).callers.since? id = some k) : sys.callers.commits.length ≤ k := by
  induction moves generalizing sys with
  | nil => cases h.symm.trans hk
  | cons move moves ih =>
      rcases since?_step hash sys move id with hsame | ⟨-, hopened⟩
      · exact (commits_step hash sys move).length_le.trans (ih (hsame.trans h) hk)
      · cases (since?_run hopened moves).symm.trans hk
        exact Nat.le_refl _

/-- A snapshot was taken at some move of the run, of what was committed then. -/
theorem exists_opening {k : Nat} {moves : List Move} (h : sys.callers.since? id = none)
    (hk : (sys.run hash moves).callers.since? id = some k) :
    ∃ n, (sys.run hash (moves.take n)).callers.since? id = none ∧
      (sys.run hash (moves.take n)).callers.commits.length = k ∧
      (sys.run hash (moves.take (n + 1))).callers.since? id = some k := by
  induction moves generalizing sys with
  | nil => cases h.symm.trans hk
  | cons move moves ih =>
      rcases since?_step hash sys move id with hsame | ⟨-, hopened⟩
      · obtain ⟨n, hnone, hlength, hsome⟩ := ih (hsame.trans h) hk
        exact ⟨n + 1, hnone, hlength, hsome⟩
      · cases (since?_run hopened moves).symm.trans hk
        exact ⟨0, h, rfl, hopened⟩

end System

end

/-! ## Heads -/

/-- A head carries the number of leaves that the view counts and the time that was found. -/
theorem Look.fields_of_head {hash : HashFunction} {v : View} {n : Nat} (hnumbered : v.Numbered n)
    {t : Timestamp} {head : TreeHead}
    (h : .ok (.head head) = answer t (Look.head.query hash) v) :
    head.size = UInt64.ofNat n ∧ head.timestamp = t := by
  rw [Look.query, answer_bind_pure, hnumbered.answer_head hash] at h
  cases h
  exact ⟨rfl, rfl⟩

section

variable {hash : HashFunction} {c : Callers} {b : Session Copying View View} {id : Nat}
  {past : List (Nat × Timestamp)}

/-- The size of a head is that of its snapshot, and its time is the one that its call has read. -/
theorem Orderly.head_of_found (h : Orderly hash c b) (hstamped : Stamped hash past c) {since : Nat}
    {head : TreeHead}
    (hcall : c.calls[id]? = some (.look .head (.found since (.ok (.head head))))) :
    since ≤ c.commits.length ∧ head.size = UInt64.ofNat since ∧
      past.lookup id = some head.timestamp := by
  obtain ⟨hle, -⟩ := h.answer_of_found hcall
  have hanswer := (Callers.stampedAt_found hcall).1 (hstamped id)
  have hfields := fun now => Look.fields_of_head (h.numbered_viewAt hle) (hanswer now)
  refine ⟨hle, (hfields Timestamp.epoch).1, ?_⟩
  cases hread : past.lookup id with
  | some t =>
      rw [hread] at hfields
      rw [(hfields t).2, Option.getD_some]
  | none =>
      -- The head would have to carry every time at once.
      rw [hread] at hfields
      have hearly := (hfields Timestamp.epoch).2
      have hlate := (hfields ⟨1, 0, by decide⟩).2
      cases hearly.symm.trans hlate

/-- As long as the commits can be counted in a word, heads compare as their snapshots do. -/
theorem Orderly.size_lt_iff (h : Orderly hash c b) (hstamped : Stamped hash past c)
    (hroom : c.commits.length < 2 ^ 64) {i j since since' : Nat} {head head' : TreeHead}
    (hcall : c.calls[i]? = some (.look .head (.found since (.ok (.head head)))))
    (hcall' : c.calls[j]? = some (.look .head (.found since' (.ok (.head head'))))) :
    head.size < head'.size ↔ since < since' := by
  obtain ⟨hle, hsize, -⟩ := h.head_of_found hstamped hcall
  obtain ⟨hle', hsize', -⟩ := h.head_of_found hstamped hcall'
  rw [hsize, hsize', UInt64.lt_iff_toNat_lt, UInt64.toNat_ofNat', UInt64.toNat_ofNat',
    Nat.mod_eq_of_lt (by omega), Nat.mod_eq_of_lt (by omega)]

end

section

variable {S R W : Type} [Store S R W]

/-- At some moment of the run the call `slow` has its snapshot and has yet to read the clock, there
have been commits since, and the call `fast` has still to begin. -/
def System.Overtaken (hash : HashFunction) (moves : List Move) (sys : System S R W)
    (slow fast : Nat) : Prop :=
  ∃ n, let callers := (sys.run hash (moves.take n)).callers
    callers.since? fast = none ∧
      (∃ since, callers.since? slow = some since ∧ since < callers.commits.length) ∧
      ∀ time, (slow, time) ∉ readings hash (moves.take n) sys

end

section

variable {hash : HashFunction} {sys : System Copying View View} {moves : List Move}
  {slow fast since since' : Nat}

/-- A call that was overtaken has the smaller snapshot. -/
theorem System.Overtaken.lt (h : Overtaken hash moves sys slow fast)
    (hslow : (sys.run hash moves).callers.since? slow = some since)
    (hfast : (sys.run hash moves).callers.since? fast = some since') : since < since' := by
  obtain ⟨n, hnone, ⟨k, hk, hlt⟩, -⟩ := h
  rw [← List.take_append_drop n moves, run_append] at hslow hfast
  cases (since?_run hk (moves.drop n)).symm.trans hslow
  exact Nat.lt_of_lt_of_le hlt (le_of_since?_run hnone hfast)

/-- A call with the smaller snapshot that read the clock later was overtaken. -/
theorem System.overtaken_of_lt (h : Orderly hash sys.callers sys.session)
    (hstamped : Stamped hash [] sys.callers) (hnew : ∀ id, sys.callers.since? id = none)
    (hticks : (readings hash moves sys).Pairwise fun earlier later =>
      earlier.2.isBefore later.2 = true)
    (hslow : (sys.run hash moves).callers.since? slow = some since)
    (hfast : (sys.run hash moves).callers.since? fast = some since') (hlt : since < since')
    {s t : Timestamp} (hs : (readings hash moves sys).lookup slow = some s)
    (ht : (readings hash moves sys).lookup fast = some t) (hbefore : t.isBefore s = true) :
    Overtaken hash moves sys slow fast := by
  -- The moment before the faster call takes its snapshot.
  obtain ⟨n, hnone, hlength, -⟩ := exists_opening (hnew fast) hfast
  have hreadings := readings_append hash (moves.take n) (moves.drop n) sys
  rw [List.take_append_drop] at hreadings
  rw [← List.take_append_drop n moves, run_append] at hslow
  refine ⟨n, hnone, ⟨since, ?_, by omega⟩, ?_⟩
  · cases hopen : (sys.run hash (moves.take n)).callers.since? slow with
    | none =>
        have hge := le_of_since?_run hopen hslow
        omega
    | some k => exact (since?_run hopen (moves.drop n)).symm.trans hslow
  · intro time hread
    have hunread : (readings hash (moves.take n) sys).lookup fast = none :=
      (stamped_run h hstamped (moves.take n) fast).eq_none hnone
    rw [hreadings, List.lookup_append, hunread, Option.none_or] at ht
    rw [hreadings, List.pairwise_append] at hticks
    -- Had the slower call read the clock by then, it would have been the first to do so.
    cases hfirst : (readings hash (moves.take n) sys).lookup slow with
    | none => exact not_mem_names_of_lookup hfirst (List.mem_map.2 ⟨_, hread, rfl⟩)
    | some s' =>
        rw [hreadings, List.lookup_append, hfirst, Option.some_or, Option.some.injEq] at hs
        subst hs
        have hearlier := hticks.2.2 _ (mem_of_lookup hfirst) _ (mem_of_lookup ht)
        rw [Timestamp.isBefore_asymm hbefore] at hearlier
        cases hearlier

end

/-- Any number of appends that the log has room for, and of looks, in any order of their steps, with
a clock that is later at every reading, and two heads found in the run, the one with the earlier
time first: the second is of a smaller log exactly when its call was overtaken by that of the
first. -/
theorem System.heads_in_order_iff {S R W : Type} [Store S R W] [SnapshotStore S R W]
    (hash : HashFunction) {s₀ : S} (hidle : SnapshotStore.Idle s₀)
    (hempty : LawfulStore.view s₀ = View.empty) (moves : List Move)
    (hroom : ((System.fresh s₀).run hash moves).callers.commits.length ≤ 2 ^ 63)
    (hticks : (readings hash moves (System.fresh s₀)).Pairwise fun earlier later =>
      earlier.2.isBefore later.2 = true)
    {i j since since' : Nat} {a b : TreeHead}
    (ha : ((System.fresh s₀).run hash moves).callers.calls[i]? =
      some (.look .head (.found since (.ok (.head a)))))
    (hb : ((System.fresh s₀).run hash moves).callers.calls[j]? =
      some (.look .head (.found since' (.ok (.head b)))))
    (hbefore : a.timestamp.isBefore b.timestamp = true) :
    b.size < a.size ↔ Overtaken hash moves (System.fresh s₀) j i := by
  have hstands := stands_fresh hidle hempty
  have hcallers := fun moves => (run_of_stands hash hstands moves).callers_eq
  have hreadings := readings_of_stands hash hstands
  -- Over the copying store the run begins in order, with nothing read.
  generalize hcopying : (System.fresh ⟨View.empty⟩ : System Copying View View) = start
    at hcallers hreadings
  have hstart : Orderly hash start.callers start.session := by
    rw [← hcopying]
    exact Orderly.start hash
  have hstamped : Stamped hash [] start.callers := by
    rw [← hcopying]
    exact fun _ => rfl
  have hnew : ∀ id, start.callers.since? id = none := by
    rw [← hcopying]
    exact fun _ => rfl
  rw [hcallers] at hroom ha hb
  rw [hreadings] at hticks
  have horderly := hstart.run moves
  have hreached := stamped_run hstart hstamped moves
  rw [List.nil_append] at hreached
  obtain ⟨-, -, hreadᵢ⟩ := horderly.head_of_found hreached ha
  obtain ⟨-, -, hreadⱼ⟩ := horderly.head_of_found hreached hb
  have hbeganᵢ := Callers.since?_of_look ha
  have hbeganⱼ := Callers.since?_of_look hb
  have hovertaken : Overtaken hash moves (System.fresh s₀) j i ↔
      Overtaken hash moves start j i := by
    simp only [Overtaken, hcallers, hreadings]
  rw [horderly.size_lt_iff hreached (Nat.lt_of_le_of_lt hroom (by decide)) hb ha, hovertaken]
  constructor
  · intro hlt
    exact overtaken_of_lt hstart hstamped hnew hticks hbeganⱼ hbeganᵢ hlt hreadⱼ hreadᵢ hbefore
  · intro h
    exact h.lt hbeganⱼ hbeganᵢ

/-! ### A call that is overtaken -/

/-- An instant some seconds after the epoch. -/
def second (n : Int64) : Timestamp := { Timestamp.epoch with secs := n }

/-- A look at the head has its snapshot when an append commits and another look takes place; only
then it reads the clock. -/
def overtakenMoves : List Move :=
  [.look .attach] ++ steps 0 3 ++ [.look .head, .append 0 (keyed []), .look .head] ++
    steps 1 2 ++ steps 2 8 ++ steps 3 2 ++ [.step 3 (second 1)] ++ steps 3 2 ++
    [.step 1 (second 2)] ++ steps 1 2

theorem exists_look_of_head? {calls : List Call} {id since : Nat} {size : UInt64}
    {time : Timestamp}
    (h : ((calls[id]?.bind Call.head?).map fun found =>
      (found.1, found.2.size, found.2.timestamp)) = some (since, size, time)) :
    ∃ head, calls[id]? = some (.look .head (.found since (.ok (.head head)))) ∧
      head.size = size ∧ head.timestamp = time := by
  obtain ⟨⟨since, head⟩, hhead, hfields⟩ := Option.map_eq_some_iff.1 h
  cases hfields
  exact ⟨head, eq_look_of_head? hhead, rfl, rfl⟩

/-- The heads that the run finds over the store in memory. -/
theorem exists_heads_overtakenMoves :
    let calls := ((System.fresh Versioned.empty).run Suite.standard.hash
      overtakenMoves).callers.calls
    (∃ a, calls[3]? = some (.look .head (.found 1 (.ok (.head a)))) ∧
      a.size = 1 ∧ a.timestamp = second 1) ∧
    ∃ b, calls[1]? = some (.look .head (.found 0 (.ok (.head b)))) ∧
      b.size = 0 ∧ b.timestamp = second 2 := by
  have hstands := System.stands_fresh Versioned.idle_empty Versioned.current_empty
  rw [(System.run_of_stands Suite.standard.hash hstands overtakenMoves).callers_eq]
  exact ⟨exists_look_of_head? (by decide +kernel), exists_look_of_head? (by decide +kernel)⟩

/-- The clock is read twice in it, and shows a later time at the second reading. -/
theorem ticks_overtakenMoves :
    (System.readings Suite.standard.hash overtakenMoves (System.fresh Versioned.empty)).Pairwise
      fun earlier later => earlier.2.isBefore later.2 = true := by
  have hstands := System.stands_fresh Versioned.idle_empty Versioned.current_empty
  have hreadings : System.readings Suite.standard.hash overtakenMoves
      (System.fresh Versioned.empty) = [(3, second 1), (1, second 2)] := by
    rw [System.readings_of_stands Suite.standard.hash hstands]
    decide +kernel
  rw [hreadings]
  decide

/-- In that run the look with the smaller head was overtaken by the other. -/
theorem System.heads_in_order_iff_overtakenMoves :
    SnapshotStore.Idle Versioned.empty ∧ LawfulStore.view Versioned.empty = View.empty ∧
    let reached := (System.fresh Versioned.empty).run Suite.standard.hash overtakenMoves
    reached.callers.commits.length ≤ 2 ^ 63 ∧
    (System.readings Suite.standard.hash overtakenMoves (System.fresh Versioned.empty)).Pairwise
      (fun earlier later => earlier.2.isBefore later.2 = true) ∧
    ∃ a b, reached.callers.calls[3]? = some (.look .head (.found 1 (.ok (.head a)))) ∧
      reached.callers.calls[1]? = some (.look .head (.found 0 (.ok (.head b)))) ∧
      a.timestamp.isBefore b.timestamp = true ∧ b.size < a.size ∧
      System.Overtaken Suite.standard.hash overtakenMoves (System.fresh Versioned.empty) 1 3 := by
  have hidle := Versioned.idle_empty
  have hempty : LawfulStore.view Versioned.empty = View.empty := Versioned.current_empty
  have hroom : ((System.fresh Versioned.empty).run Suite.standard.hash
      overtakenMoves).callers.commits.length ≤ 2 ^ 63 := by
    rw [(System.run_of_stands Suite.standard.hash (System.stands_fresh hidle hempty)
      overtakenMoves).callers_eq]
    decide +kernel
  obtain ⟨⟨a, ha, hsize, htime⟩, b, hb, hsize', htime'⟩ := exists_heads_overtakenMoves
  have hbefore : a.timestamp.isBefore b.timestamp = true := by
    rw [htime, htime']
    decide
  have hsmaller : b.size < a.size := by
    rw [hsize, hsize']
    decide
  have hovertaken := (System.heads_in_order_iff Suite.standard.hash hidle hempty overtakenMoves
    hroom ticks_overtakenMoves ha hb hbefore).1 hsmaller
  exact ⟨hidle, hempty, hroom, ticks_overtakenMoves, a, b, ha, hb, hbefore, hsmaller, hovertaken⟩

/-- So it is not so that of two heads the one with the later time is of a log that is at least as
long, even if the clock is later at every reading. -/
theorem System.heads_out_of_order :
    ¬ ∀ (moves : List Move) (i j since since' : Nat) (a b : TreeHead),
      (System.readings Suite.standard.hash moves (System.fresh Versioned.empty)).Pairwise
        (fun earlier later => earlier.2.isBefore later.2 = true) →
      ((System.fresh Versioned.empty).run Suite.standard.hash moves).callers.calls[i]? =
        some (.look .head (.found since (.ok (.head a)))) →
      ((System.fresh Versioned.empty).run Suite.standard.hash moves).callers.calls[j]? =
        some (.look .head (.found since' (.ok (.head b)))) →
      a.timestamp.isBefore b.timestamp = true → a.size ≤ b.size := by
  intro hordered
  obtain ⟨⟨a, ha, hsize, htime⟩, b, hb, hsize', htime'⟩ := exists_heads_overtakenMoves
  have hbefore : a.timestamp.isBefore b.timestamp = true := by
    rw [htime, htime']
    decide
  have hle := hordered overtakenMoves 3 1 1 0 a b ticks_overtakenMoves ha hb hbefore
  rw [hsize, hsize'] at hle
  exact absurd hle (by decide)

end Tree

end OwnershipLog
