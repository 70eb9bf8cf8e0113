import OwnershipLog.Proofs.Store.Snapshot
import OwnershipLog.Proofs.Tree.Orderly

/-!
# Overlapping calls do as calls one after another

The commits put the appends of a run in an order. Had they been made one after another
in that order, they would have answered the same and left the same committed; and what
a look finds is what it would have found between two of them, after those that had been
committed when its reader was opened (`System.run_as_sequential`). What a handle remembers
lags behind what is committed, and only grows.
-/

namespace OwnershipLog

open Transaction

namespace Tree

/-! ## What a handle remembers only grows -/

section

variable {hash : HashFunction} {c c' : Callers} {b b' : Session Copying View View} {id : Nat}

theorem Transition.commits_extend (h : Transition hash id c b c' b') :
    c.commits <+: c'.commits := by
  cases h with
  | commit hcall hwriter => exact List.prefix_append _ _
  | openReader | read | readClock | closeReader | refuse | lock | openWriter | peek | writeClock
  | put | discard | remember | unlock => exact List.prefix_refl _

/-- Every handle is still there and remembers no smaller size. -/
def Callers.Grows (c c' : Callers) : Prop :=
  ∀ (handle : Nat) (shared : SharedTree), c.handles[handle]? = some shared →
    ∃ shared', c'.handles[handle]? = some shared' ∧ shared.tree.size ≤ shared'.tree.size

theorem Callers.Grows.refl (c : Callers) : c.Grows c :=
  fun _ shared hat => ⟨shared, hat, UInt64.le_refl _⟩

theorem Callers.Grows.trans {c₁ c₂ c₃ : Callers} (h : c₁.Grows c₂) (h' : c₂.Grows c₃) :
    c₁.Grows c₃ := by
  intro handle shared hat
  obtain ⟨shared₂, hat₂, hle⟩ := h handle shared hat
  obtain ⟨shared₃, hat₃, hle'⟩ := h' handle shared₂ hat₂
  exact ⟨shared₃, hat₃, UInt64.le_trans hle hle'⟩

theorem Callers.Grows.of_modify {handle : Nat} {f : SharedTree → SharedTree}
    (hcalls : c'.handles = c.handles.modify handle f)
    (hle : ∀ {shared}, c.handles[handle]? = some shared → shared.tree.size ≤ (f shared).tree.size) :
    c.Grows c' := by
  intro other shared hat
  rw [hcalls, List.getElem?_modify, hat]
  refine ⟨_, rfl, ?_⟩
  split
  · rename_i heq
    subst heq
    exact hle hat
  · exact UInt64.le_refl _

theorem Orderly.grows (h : Orderly hash c b) (hroom : c.commits.length < 2 ^ 64)
    (hmoves : Transition hash id c b c' b') : c.Grows c' := by
  cases hmoves with
  | closeReader hcall hend =>
      intro handle shared hat
      obtain ⟨hlt, -⟩ := List.getElem?_eq_some_iff.1 hat
      exact ⟨shared, (List.getElem?_append_left hlt).trans hat, UInt64.le_refl _⟩
  | lock hcall hencode hfree => exact Callers.Grows.of_modify rfl fun _ => UInt64.le_refl _
  | unlock hcall => exact Callers.Grows.of_modify rfl fun _ => UInt64.le_refl _
  | remember hcall =>
      cases h.kept hcall with
      | @committed _ _ k tree hat hholds hsize =>
          -- The handle has been locked since before the commit, so what it remembers is no more
          -- than the index; one more than that is a word because the commits are counted by one.
          refine Callers.Grows.of_modify rfl fun hshared => ?_
          cases hholds.symm.trans hshared
          obtain ⟨hlt, -⟩ := List.getElem?_eq_some_iff.1 hat
          rw [UInt64.le_iff_toNat_le]
          show tree.size.toNat ≤ (UInt64.ofNat k + 1).toNat
          rw [ofNat_add_one, UInt64.toNat_ofNat', Nat.mod_eq_of_lt (by omega)]
          exact hsize.trans (Nat.le_succ k)
  | openReader | read | readClock | refuse | openWriter | peek | writeClock | put | commit
  | discard => exact .refl c

theorem System.commits_step (hash : HashFunction) (sys : System Copying View View) (move : Move) :
    sys.callers.commits <+: (sys.step hash move).callers.commits := by
  cases move with
  | look look => exact List.prefix_refl _
  | append handle leaf => exact List.prefix_refl _
  | step id now =>
      rcases sys.step_cases hash id now with hsame | hmoves
      · simp only [hsame, List.prefix_rfl]
      · exact hmoves.commits_extend

theorem System.commits_run (hash : HashFunction) (sys : System Copying View View)
    (moves : List Move) :
    sys.callers.commits <+: (sys.run hash moves).callers.commits := by
  induction moves generalizing sys with
  | nil => exact List.prefix_refl _
  | cons move moves ih => exact (sys.commits_step hash move).trans (ih (sys.step hash move))

/-- As long as the commits can be counted in a word, no handle ever forgets a leaf. -/
theorem Orderly.grows_run {sys : System Copying View View}
    (h : Orderly hash sys.callers sys.session) (moves : List Move)
    (hroom : (sys.run hash moves).callers.commits.length < 2 ^ 64) :
    sys.callers.Grows (sys.run hash moves).callers := by
  induction moves generalizing sys with
  | nil => exact .refl _
  | cons move moves ih =>
      have hextends := ((sys.step hash move).commits_run hash moves).length_le
      have hstep : sys.callers.Grows (sys.step hash move).callers := by
        cases move with
        | look look => exact .refl _
        | append handle leaf => exact .refl _
        | step id now =>
            rcases sys.step_cases hash id now with hsame | hmoves
            · rw [hsame]
              exact .refl _
            · have hbefore := hmoves.commits_extend.length_le
              exact h.grows (Nat.lt_of_le_of_lt (hbefore.trans hextends) hroom) hmoves
      exact hstep.trans (ih (h.step move) hroom)

end

/-! ## What the calls answer -/

section

variable {hash : HashFunction} {c : Callers} {b : Session Copying View View} {id : Nat}

theorem toNat_ofNat_of_getElem? (hroom : c.commits.length < 2 ^ 64) {k : Nat}
    {entry : Nat × Leaf} (hat : c.commits[k]? = some entry) : (UInt64.ofNat k).toNat = k := by
  obtain ⟨hlt, -⟩ := List.getElem?_eq_some_iff.1 hat
  rw [UInt64.toNat_ofNat', Nat.mod_eq_of_lt (Nat.lt_trans hlt hroom)]

/-- An index is the place of the append among the commits. -/
theorem Orderly.commit_of_index (h : Orderly hash c b) (hroom : c.commits.length < 2 ^ 64)
    {handle : Nat} {leaf : Leaf} {stage : AppendStage} {index : UInt64}
    (hcall : c.calls[id]? = some (.append handle leaf stage))
    (hindex : stage.index? = some index) : c.commits[index.toNat]? = some (id, leaf) := by
  cases h.kept hcall with
  | newAppend | locked hencode hholds | writing hencode hholds hopen hrest | refused hencode =>
      cases hindex
  | committed hat hholds hsize =>
      cases hindex
      rwa [toNat_ofNat_of_getElem? hroom hat]
  | leaving hat hholds =>
      cases hindex
      rwa [toNat_ofNat_of_getElem? hroom hat]
  | answered hat =>
      cases hindex
      rwa [toNat_ofNat_of_getElem? hroom hat]

/-- Only a leaf without a byte form is refused. -/
theorem Orderly.cause_of_error (h : Orderly hash c b) {handle : Nat} {leaf : Leaf} {e : LogError}
    (hcall : c.calls[id]? = some (.append handle leaf (.answered (.error e)))) :
    ∃ cause, leaf.encode = .error cause ∧ e = .codec cause := by
  cases h.kept hcall with
  | refused hencode => exact ⟨_, hencode, rfl⟩

/-- Every commit is that of an append, whose index is its place. -/
theorem Orderly.append_of_commit (h : Orderly hash c b) {k : Nat} {leaf : Leaf}
    (hat : c.commits[k]? = some (id, leaf)) :
    ∃ handle stage, c.calls[id]? = some (.append handle leaf stage) ∧
      stage.index? = some (UInt64.ofNat k) := by
  obtain ⟨call, hcall, hentry⟩ := h.entries hat
  cases call with
  | look look stage => cases hentry
  | append handle other stage =>
      obtain ⟨index, hindex, heq⟩ := Option.map_eq_some_iff.1 hentry
      cases heq
      exact ⟨handle, stage, hcall, hindex⟩

/-- A look finds what the view after the commits before its reader answers. -/
theorem Orderly.answer_of_found (h : Orderly hash c b) {look : Look} {since : Nat}
    {result : Except LogError Finding}
    (hcall : c.calls[id]? = some (.look look (.found since result))) :
    since ≤ c.commits.length ∧
      ∃ now, result = answer now (look.query hash) (c.viewAt hash since) := by
  cases h.kept hcall with
  | found hle hresult => exact ⟨hle, _, hresult⟩

end

/-! ## One after another -/

section

variable {S R W : Type} [Store S R W]

/-- The leaves appended one after another through one handle: what the appends answer, and the
store after them. -/
def appendEach (hash : HashFunction) (leaves : List Leaf) (s : S) :
    List (Except LogError UInt64) × S :=
  let (answers, _, s) := Tree.run hash (leaves.map (Event.append Timestamp.epoch)) ⟨0⟩ s
  (answers, s)

/-- The look in a transaction of its own. -/
def Look.ask (hash : HashFunction) (now : Timestamp) (s : S) : Look → Except LogError Finding
  | attach => (Tree.attach now s).1.map .handle
  | head => (Tree.head hash now s).1.map .head
  | leaf index => (Tree.leaf? now index s).1.map .leaf
  | leaves start stop => (Tree.leaves now start stop s).1.map .leaves
  | proof index => (Tree.proof hash now index s).1.map .proof

variable [LawfulStore S R W]

theorem Look.ask_eq (hash : HashFunction) (now : Timestamp) {s : S} (hready : LawfulStore.Ready s)
    (look : Look) : look.ask hash now s = answer now (look.query hash) (LawfulStore.view s) := by
  have hquery : ∀ {α : Type} (query : Query LogError α),
      (Store.query LogError.store now query s).1 = answer now query (LawfulStore.view s) := by
    intro α query
    obtain ⟨s', heq, -⟩ := LawfulStore.query_eq now LogError.store query hready
    rw [heq]
  cases look with
  | attach =>
      rw [query, answer_bind_pure, ← hquery, ask, Tree.attach]
      rcases Store.query LogError.store now (reading Layout.size) s with ⟨_ | size, s'⟩ <;> rfl
  | head => rw [query, answer_bind_pure, ← hquery]; rfl
  | leaf index => rw [query, answer_bind_pure, ← hquery]; rfl
  | leaves start stop => rw [query, answer_bind_pure, ← hquery]; rfl
  | proof index => rw [query, answer_bind_pure, ← hquery]; rfl

theorem appendEach_eq (hash : HashFunction) {s : S} (hready : LawfulStore.Ready s)
    (hempty : LawfulStore.view s = View.empty) {leaves : List Leaf}
    (hencode : ∀ leaf ∈ leaves, ∃ bytes, leaf.encode = .ok bytes) :
    (appendEach hash leaves s).1 = (List.range leaves.length).map (fun k => .ok (UInt64.ofNat k)) ∧
      LawfulStore.Ready (appendEach hash leaves s).2 ∧
      LawfulStore.view (appendEach hash leaves s).2 = View.appendAll hash leaves := by
  have hnumbered : (LawfulStore.view s).Numbered 0 := by
    rw [hempty]
    exact View.numbered_empty
  obtain ⟨tree', s', hrun, hready', hview⟩ :=
    run_appends leaves hencode Timestamp.epoch ⟨0⟩ hready hnumbered
  have heach : appendEach hash leaves s =
      ((List.range' 0 leaves.length).map (fun k => .ok (UInt64.ofNat k)), s') := by
    rw [appendEach, hrun]
  rw [heach, ← List.range_eq_range']
  refine ⟨rfl, hready', ?_⟩
  rw [hview, hempty]
  rfl

end

section

variable {S R W : Type} [Store S R W] [SnapshotStore S R W] (hash : HashFunction) {s₀ : S}

/-- Over a store with snapshots the callers are in the same order as over the copying store. -/
theorem System.orderly_run (hidle : SnapshotStore.Idle s₀)
    (hempty : LawfulStore.view s₀ = View.empty) (moves : List Move) :
    Orderly hash ((System.fresh s₀).run hash moves).callers
      ((System.fresh (⟨View.empty⟩ : Copying)).run hash moves).session := by
  rw [(System.run_of_stands hash (System.stands_fresh hidle hempty) moves).callers_eq]
  exact (Orderly.start hash).run moves

theorem System.view_run (hidle : SnapshotStore.Idle s₀)
    (hempty : LawfulStore.view s₀ = View.empty) (moves : List Move) :
    LawfulStore.view ((System.fresh s₀).run hash moves).session.store =
      View.appendAll hash ((System.fresh s₀).run hash moves).callers.leaves :=
  (SnapshotStore.view_of_stands
    (System.run_of_stands hash (System.stands_fresh hidle hempty) moves).session).trans
    (System.orderly_run hash hidle hempty moves).committed_eq

/-- The first of the leaves that a run commits, appended one after another to the store that it
began with. -/
theorem System.appendEach_take (hidle : SnapshotStore.Idle s₀)
    (hempty : LawfulStore.view s₀ = View.empty) (moves : List Move) (k : Nat) :
    let callers := ((System.fresh s₀).run hash moves).callers
    let first := (appendEach hash (callers.leaves.take k) s₀).2
    LawfulStore.Ready first ∧ LawfulStore.view first = callers.viewAt hash k := by
  have h := System.orderly_run hash hidle hempty moves
  exact (appendEach_eq hash (SnapshotStore.ready_of_idle hidle) hempty fun leaf hleaf =>
    h.encodes leaf (List.take_subset k _ hleaf)).2

/-- The callers after the earlier moves have grown into those after all of them. -/
theorem System.grows_run (hidle : SnapshotStore.Idle s₀)
    (hempty : LawfulStore.view s₀ = View.empty) (earlier later : List Move)
    (hroom : ((System.fresh s₀).run hash (earlier ++ later)).callers.commits.length < 2 ^ 64) :
    ((System.fresh s₀).run hash earlier).callers.Grows
      ((System.fresh s₀).run hash (earlier ++ later)).callers := by
  have hstands := System.run_of_stands hash (System.stands_fresh hidle hempty)
  rw [(hstands (earlier ++ later)).callers_eq, System.run_append] at hroom ⊢
  have h := System.orderly_run hash hidle hempty earlier
  rw [(hstands earlier).callers_eq] at h ⊢
  exact h.grows_run later hroom

end

/-- Any number of calls through any number of handles, in any order of their steps, as long as the
log has room for what they commit: an append answers its place among the commits, unless its leaf
has no byte form, and every commit is that of an append; the commits made one after another answer
the same and leave the same committed; a look finds what it would have found after the commits that
came before its reader; and no handle is ahead of what is committed, or ever forgets. -/
theorem System.run_as_sequential {S R W : Type} [Store S R W] [SnapshotStore S R W]
    (hash : HashFunction) {s₀ : S} (hidle : SnapshotStore.Idle s₀)
    (hempty : LawfulStore.view s₀ = View.empty) (moves : List Move)
    (hroom : ((System.fresh s₀).run hash moves).callers.commits.length ≤ 2 ^ 63) :
    let reached := (System.fresh s₀).run hash moves
    let calls := reached.callers.calls
    let commits := reached.callers.commits
    let first (k : Nat) := appendEach hash (reached.callers.leaves.take k) s₀
    (∀ (id handle : Nat) (leaf : Leaf) (stage : AppendStage),
      calls[id]? = some (.append handle leaf stage) →
        (∀ index, stage.index? = some index → commits[index.toNat]? = some (id, leaf)) ∧
        ∀ e, stage = .answered (.error e) →
          ∃ cause, leaf.encode = .error cause ∧ e = .codec cause) ∧
    (∀ (k id : Nat) (leaf : Leaf), commits[k]? = some (id, leaf) →
      ∃ handle stage, calls[id]? = some (.append handle leaf stage) ∧
        stage.index? = some (UInt64.ofNat k)) ∧
    (first commits.length).1 =
      (List.range commits.length).map (fun k => .ok (UInt64.ofNat k)) ∧
    LawfulStore.view reached.session.store = LawfulStore.view (first commits.length).2 ∧
    (∀ (id since : Nat) (look : Look) (result : Except LogError Finding),
      calls[id]? = some (.look look (.found since result)) →
        since ≤ commits.length ∧ ∃ now, result = look.ask hash now (first since).2) ∧
    (∀ now, ∃ persisted,
      answer now (reading Layout.size) (LawfulStore.view reached.session.store) = .ok persisted ∧
      ∀ shared ∈ reached.callers.handles, shared.tree.size ≤ persisted) ∧
    ∀ n, ((System.fresh s₀).run hash (moves.take n)).callers.Grows reached.callers := by
  intro reached calls commits first
  have h := System.orderly_run hash hidle hempty moves
  have hview := System.view_run hash hidle hempty moves
  have hfirst := System.appendEach_take hash hidle hempty moves
  have hwords : commits.length < 2 ^ 64 := Nat.lt_of_le_of_lt hroom (by decide)
  have hall : reached.callers.leaves.take commits.length = reached.callers.leaves := by
    rw [← Callers.length_leaves, List.take_length]
  refine ⟨?_, fun k id leaf hat => h.append_of_commit hat, ?_, ?_, ?_, ?_, ?_⟩
  · intro id handle leaf stage hcall
    refine ⟨fun index hindex => h.commit_of_index hwords hcall hindex, ?_⟩
    rintro e rfl
    exact h.cause_of_error hcall
  · have hanswers :=
      (appendEach_eq hash (SnapshotStore.ready_of_idle hidle) hempty h.encodes).1
    rw [Callers.length_leaves] at hanswers
    simp only [first, hall]
    exact hanswers
  · rw [hview, (hfirst commits.length).2, Callers.viewAt_length]
  · intro id since look result hcall
    obtain ⟨hle, now, hresult⟩ := h.answer_of_found hcall
    refine ⟨hle, now, ?_⟩
    rw [look.ask_eq hash now (hfirst since).1, (hfirst since).2]
    exact hresult
  · intro now
    refine ⟨UInt64.ofNat commits.length, ?_, ?_⟩
    · rw [hview, ← h.committed_eq]
      exact h.numbered_committed.answer_size now
    · intro shared hshared
      rw [UInt64.le_iff_toNat_le, UInt64.toNat_ofNat', Nat.mod_eq_of_lt hwords]
      exact h.size_le shared hshared
  · intro n
    have hgrows := System.grows_run hash hidle hempty (moves.take n) (moves.drop n)
    rw [List.take_append_drop] at hgrows
    exact hgrows hwords

/-! ### Two appends and a look -/

/-- Steps of one call. -/
def steps (id n : Nat) : List Move := List.replicate n (.step id Timestamp.epoch)

/-- Two handles, an append through each, and a look at the head. The second append has to wait for
the first one's writer, and both commit while the look has its reader open. -/
def sampleMoves : List Move :=
  [.look .attach, .look .attach] ++ steps 0 3 ++ steps 1 3 ++
    [.append 0 (keyed []), .append 1 (keyed [1]), .look .head] ++
    steps 3 1 ++ steps 2 2 ++ steps 3 1 ++ steps 4 1 ++ steps 2 4 ++ steps 3 2 ++ steps 4 1 ++
    steps 3 5 ++ steps 2 2 ++ steps 3 2 ++ steps 4 3

/-- What an append has answered, with its handle and its leaf. -/
def Call.answered? : Call → Option (Nat × Leaf × Except LogError UInt64)
  | append handle leaf (.answered result) => some (handle, leaf, result)
  | _ => none

/-- The head that a look has found, with the number of commits before its reader. -/
def Call.head? : Call → Option (Nat × TreeHead)
  | look .head (.found since (.ok (.head head))) => some (since, head)
  | _ => none

theorem eq_append_of_answered? {calls : List Call} {id handle : Nat} {leaf : Leaf}
    {result : Except LogError UInt64}
    (h : calls[id]?.bind Call.answered? = some (handle, leaf, result)) :
    calls[id]? = some (.append handle leaf (.answered result)) := by
  obtain ⟨call, hcall, hanswered⟩ := Option.bind_eq_some_iff.1 h
  rw [hcall]
  unfold Call.answered? at hanswered
  split at hanswered
  · cases hanswered
    rfl
  · cases hanswered

theorem eq_look_of_head? {calls : List Call} {id since : Nat} {head : TreeHead}
    (h : calls[id]?.bind Call.head? = some (since, head)) :
    calls[id]? = some (.look .head (.found since (.ok (.head head)))) := by
  obtain ⟨call, hcall, hhead⟩ := Option.bind_eq_some_iff.1 h
  rw [hcall]
  unfold Call.head? at hhead
  split at hhead
  · cases hhead
    rfl
  · cases hhead

/-- The sample in memory, under the standard hash: the second append has the index 1, the look
finds the head of the empty log, and what is committed are two leaves. -/
theorem System.run_as_sequential_sample :
    SnapshotStore.Idle Versioned.empty ∧ LawfulStore.view Versioned.empty = View.empty ∧
    let reached := (System.fresh Versioned.empty).run Suite.standard.hash sampleMoves
    let first (leaves : List Leaf) := appendEach Suite.standard.hash leaves Versioned.empty
    reached.callers.commits.length ≤ 2 ^ 63 ∧
    reached.callers.calls[3]? = some (.append 1 (keyed [1]) (.answered (.ok 1))) ∧
    reached.callers.commits[1]? = some (3, keyed [1]) ∧
    (∃ now, .ok (.head ⟨0, Timestamp.epoch, Digest.zero, none⟩) =
      Look.head.ask Suite.standard.hash now (first []).2) ∧
    LawfulStore.view reached.session.store =
      LawfulStore.view (first [keyed [], keyed [1]]).2 := by
  have hidle := Versioned.idle_empty
  have hempty : LawfulStore.view Versioned.empty = View.empty := Versioned.current_empty
  have hcallers := (System.run_of_stands Suite.standard.hash (System.stands_fresh hidle hempty)
    sampleMoves).callers_eq
  have hcommits : ((System.fresh Versioned.empty).run Suite.standard.hash
      sampleMoves).callers.commits = [(2, keyed []), (3, keyed [1])] := by
    rw [hcallers]
    decide +kernel
  have hroom : ((System.fresh Versioned.empty).run Suite.standard.hash
      sampleMoves).callers.commits.length ≤ 2 ^ 63 := by
    rw [hcommits]
    decide
  have happend : ((System.fresh Versioned.empty).run Suite.standard.hash
      sampleMoves).callers.calls[3]? = some (.append 1 (keyed [1]) (.answered (.ok 1))) := by
    rw [hcallers]
    exact eq_append_of_answered? (by decide +kernel)
  have hlook : ((System.fresh Versioned.empty).run Suite.standard.hash
      sampleMoves).callers.calls[4]? =
        some (.look .head (.found 0 (.ok (.head ⟨0, Timestamp.epoch, Digest.zero, none⟩)))) := by
    rw [hcallers]
    exact eq_look_of_head? (by decide +kernel)
  obtain ⟨hindex, -, -, hview, hfound, -, -⟩ :=
    System.run_as_sequential Suite.standard.hash hidle hempty sampleMoves hroom
  simp only [Callers.leaves, hcommits] at hindex hview hfound ⊢
  obtain ⟨hplace, -⟩ := hindex 3 1 (keyed [1]) (.answered (.ok 1)) happend
  obtain ⟨-, hseen⟩ := hfound 4 0 .head _ hlook
  exact ⟨hidle, hempty, by decide, happend, hplace 1 rfl, hseen, hview⟩

end Tree

end OwnershipLog
