import OwnershipLog.Proofs.Tree.Numbered
import OwnershipLog.Proofs.Tree.System

/-!
# What overlapping calls can count on

However the others go on, a call that has come somewhere can count on a few things
(`Kept`): its reader sees the view after the commits that came before it, its writer
began at the view that is still committed, and nobody else touches the handle it has
locked. What the others do leaves it alone (`Undisturbed`). So every step keeps this of
every call, and what is committed stays what the appends would have made of an empty
log one after another, in the order of their commits (`Orderly.transition`).
-/

namespace OwnershipLog

open Transaction

namespace Tree

theorem Look.clockAtMost_query (hash : HashFunction) (look : Look) :
    (look.query hash).ClockAtMost 1 := by
  have hdone : ∀ (finding : Finding), ClockAtMost 0 (pure finding : Query LogError Finding) :=
    fun _ => trivial
  cases look with
  | attach => exact (clockAtMost_logSize.mono (Nat.zero_le 1)).bind_add (n := 0) fun _ => hdone _
  | head => exact (clockAtMost_headQuery hash).bind_add (n := 0) fun _ => hdone _
  | leaf index =>
      exact ((clockAtMost_leafQuery index).mono (Nat.zero_le 1)).bind_add (n := 0) fun _ => hdone _
  | leaves start stop =>
      exact ((clockAtMost_leavesQuery start stop).mono (Nat.zero_le 1)).bind_add (n := 0)
        fun _ => hdone _
  | proof index => exact (clockAtMost_proofQuery hash index).bind_add (n := 0) fun _ => hdone _

theorem answer_bind_pure {α : Type} {query : Query LogError α} {f : α → Finding}
    (now : Timestamp) (v : View) :
    answer now (query >>= fun a => pure (f a)) v = (answer now query v).map f := by
  rw [answer_bind]
  cases answer now query v <;> rfl

/-- Only a look for a handle finds one, and it remembers the size of the log. -/
theorem Look.size_of_handle {hash : HashFunction} {look : Look} {now : Timestamp} {v : View}
    {tree : Tree} (h : answer now (look.query hash) v = .ok (.handle tree)) :
    answer now (reading Layout.size) v = .ok tree.size := by
  cases look with
  | attach =>
      rw [query, answer_bind_pure] at h
      cases hsize : answer now (reading Layout.size) v with
      | ok size =>
          rw [hsize] at h
          cases h
          rfl
      | error e =>
          rw [hsize] at h
          cases h
  | head | leaf index | leaves start stop | proof index =>
      rw [query, answer_bind_pure] at h
      revert h
      generalize answer now _ v = result
      cases result <;> intro h <;> cases h

/-! ## What a call can count on -/

namespace Callers

/-- The leaves in the order of their commits. -/
def leaves (c : Callers) : List Leaf := c.commits.map Prod.snd

/-- The view after the first `k` of the commits, made one after another. -/
def viewAt (hash : HashFunction) (c : Callers) (k : Nat) : View :=
  View.appendAll hash (c.leaves.take k)

/-- The call has locked the handle. -/
def Holds (c : Callers) (id handle : Nat) (tree : Tree) : Prop :=
  c.handles[handle]? = some ⟨tree, some id⟩

theorem length_leaves (c : Callers) : c.leaves.length = c.commits.length := List.length_map ..

theorem viewAt_length (hash : HashFunction) (c : Callers) :
    c.viewAt hash c.commits.length = View.appendAll hash c.leaves := by
  rw [viewAt, ← length_leaves, List.take_length]

theorem viewAt_of_extends {hash : HashFunction} {c c' : Callers} (h : c.commits <+: c'.commits)
    {k : Nat} (hle : k ≤ c.commits.length) : c'.viewAt hash k = c.viewAt hash k := by
  obtain ⟨more, hmore⟩ := h
  rw [viewAt, viewAt, leaves, leaves, ← hmore, List.map_append,
    List.take_append_of_le_length (by rwa [List.length_map])]

theorem getElem?_of_extends {c c' : Callers} (h : c.commits <+: c'.commits) {k : Nat}
    {entry : Nat × Leaf} (hat : c.commits[k]? = some entry) : c'.commits[k]? = some entry := by
  obtain ⟨more, hmore⟩ := h
  obtain ⟨hlt, -⟩ := List.getElem?_eq_some_iff.1 hat
  rw [← hmore, List.getElem?_append_left hlt, hat]

end Callers

/-- What the stage of a call says about the commits, the handles and the session. -/
inductive Kept (hash : HashFunction) (c : Callers) (b : Session Copying View View) (id : Nat) :
    Call → Prop where
  | newLook {look : Look} : Kept hash c b id (.look look .called)
  | reading {look : Look} {since : Nat} {rest : Query LogError Finding}
      (hle : since ≤ c.commits.length) (hreader : b.readers.lookup id = some (c.viewAt hash since))
      (hrest : Continues (c.viewAt hash since) (look.query hash) rest) :
      Kept hash c b id (.look look (.reading since rest))
  | found {look : Look} {since : Nat} {result : Except LogError Finding} {now : Timestamp}
      (hle : since ≤ c.commits.length)
      (hresult : result = answer now (look.query hash) (c.viewAt hash since)) :
      Kept hash c b id (.look look (.found since result))
  | newAppend {handle : Nat} {leaf : Leaf} : Kept hash c b id (.append handle leaf .called)
  | locked {handle : Nat} {leaf : Leaf} {bytes : Bytes} {tree : Tree}
      (hencode : leaf.encode = .ok bytes) (hholds : c.Holds id handle tree) :
      Kept hash c b id (.append handle leaf (.locked bytes))
  | writing {handle : Nat} {leaf : Leaf} {bytes : Bytes} {tree : Tree} {w : View}
      {rest : Update LogError UInt64}
      (hencode : leaf.encode = .ok bytes) (hholds : c.Holds id handle tree)
      (hwriter : b.writer = some w)
      (hrest : Pursues b.store.committed w (appendUpdate hash bytes) rest) :
      Kept hash c b id (.append handle leaf (.writing rest))
  | committed {handle : Nat} {leaf : Leaf} {k : Nat} {tree : Tree}
      (hat : c.commits[k]? = some (id, leaf)) (hholds : c.Holds id handle tree)
      (hsize : tree.size.toNat ≤ k) :
      Kept hash c b id (.append handle leaf (.committed (UInt64.ofNat k)))
  | leaving {handle : Nat} {leaf : Leaf} {k : Nat} {tree : Tree}
      (hat : c.commits[k]? = some (id, leaf)) (hholds : c.Holds id handle tree) :
      Kept hash c b id (.append handle leaf (.leaving (.ok (UInt64.ofNat k))))
  | answered {handle : Nat} {leaf : Leaf} {k : Nat} (hat : c.commits[k]? = some (id, leaf)) :
      Kept hash c b id (.append handle leaf (.answered (.ok (UInt64.ofNat k))))
  | refused {handle : Nat} {leaf : Leaf} {cause : WireError}
      (hencode : leaf.encode = .error cause) :
      Kept hash c b id (.append handle leaf (.answered (.error (.codec cause))))

/-- The call has the writer. -/
def Call.IsWriting : Call → Prop
  | .append _ _ (.writing _) => True
  | _ => False

/-- The leaf of an append and the index it has been given. -/
def Call.entry? : Call → Option (Leaf × UInt64)
  | .append _ leaf stage => stage.index?.map fun index => (leaf, index)
  | .look _ _ => none

/-- What leaves a call alone. -/
structure Undisturbed (id : Nat) (c : Callers) (b : Session Copying View View) (c' : Callers)
    (b' : Session Copying View View) : Prop where
  commits : c.commits <+: c'.commits
  reader : b'.readers.lookup id = b.readers.lookup id
  holds : ∀ {handle tree}, c.Holds id handle tree → c'.Holds id handle tree

section

variable {hash : HashFunction} {c c' : Callers} {b b' : Session Copying View View} {id : Nat}
  {call call' : Call}

theorem Kept.exists_writer (h : Kept hash c b id call) (hwriting : call.IsWriting) :
    ∃ w, b.writer = some w := by
  cases h with
  | writing hencode hholds hwriter hrest => exact ⟨_, hwriter⟩
  | newLook | reading | found | newAppend | locked | committed | leaving | answered | refused =>
      exact hwriting.elim

/-- What leaves a call alone keeps it, and its transaction, where it is. -/
theorem Kept.undisturbed (h : Kept hash c b id call) (hframe : Undisturbed id c b c' b')
    (hwriter : call.IsWriting → b'.writer = b.writer ∧ b'.store = b.store) :
    Kept hash c' b' id call := by
  have hcommits := hframe.commits
  cases h with
  | newLook => exact .newLook
  | reading hle hreader hrest =>
      rw [← Callers.viewAt_of_extends hcommits hle] at hreader hrest
      exact .reading (hle.trans hcommits.length_le) (hframe.reader.trans hreader) hrest
  | found hle hresult =>
      rw [← Callers.viewAt_of_extends hcommits hle] at hresult
      exact .found (hle.trans hcommits.length_le) hresult
  | newAppend => exact .newAppend
  | locked hencode hholds => exact .locked hencode (hframe.holds hholds)
  | writing hencode hholds hopen hrest =>
      obtain ⟨hsame, hstore⟩ := hwriter trivial
      rw [← hstore] at hrest
      exact .writing hencode (hframe.holds hholds) (hsame.trans hopen) hrest
  | committed hat hholds hsize =>
      exact .committed (Callers.getElem?_of_extends hcommits hat) (hframe.holds hholds) hsize
  | leaving hat hholds =>
      exact .leaving (Callers.getElem?_of_extends hcommits hat) (hframe.holds hholds)
  | answered hat => exact .answered (Callers.getElem?_of_extends hcommits hat)
  | refused hencode => exact .refused hencode

/-! ## What every step keeps -/

/-- What is committed is what the commits would have made of an empty log one after another, every
call is where it says, at most one of them writes, each commit has its place for an index, and no
handle is ahead. -/
structure Orderly (hash : HashFunction) (c : Callers) (b : Session Copying View View) : Prop where
  committed_eq : b.store.committed = View.appendAll hash c.leaves
  encodes : ∀ leaf ∈ c.leaves, ∃ bytes, leaf.encode = .ok bytes
  kept : ∀ {id : Nat} {call : Call}, c.calls[id]? = some call → Kept hash c b id call
  one_writer : ∀ {i j : Nat} {x y : Call}, c.calls[i]? = some x → c.calls[j]? = some y →
    x.IsWriting → y.IsWriting → i = j
  entries : ∀ {k id : Nat} {leaf : Leaf}, c.commits[k]? = some (id, leaf) →
    ∃ call, c.calls[id]? = some call ∧ call.entry? = some (leaf, UInt64.ofNat k)
  size_le : ∀ shared ∈ c.handles, shared.tree.size.toNat ≤ c.commits.length

namespace Orderly

theorem not_isWriting (h : Orderly hash c b) (hcall : c.calls[id]? = some call)
    (hfree : call.IsWriting ∨ b.writer = none) {j : Nat} {other : Call} (hne : j ≠ id)
    (hother : c.calls[j]? = some other) : ¬ other.IsWriting := by
  intro hwriting
  rcases hfree with hcallWriting | hnone
  · exact hne (h.one_writer hother hcall hwriting hcallWriting)
  · obtain ⟨w, hsome⟩ := (h.kept hother).exists_writer hwriting
    cases hnone.symm.trans hsome

/-- A step of one call, seen from all of them: the step is the writer's own or opens the writer, or
it has nothing to do with it. -/
theorem kept_step (h : Orderly hash c b) (hcall : c.calls[id]? = some call)
    (hcalls : c'.calls = c.calls.set id call') (hself : Kept hash c' b' id call')
    (hframe : ∀ j, j ≠ id → Undisturbed j c b c' b')
    (hfree : (call.IsWriting ∨ b.writer = none) ∨
      b'.writer = b.writer ∧ b'.store = b.store ∧ ¬ call'.IsWriting)
    {j : Nat} {other : Call} (hother : c'.calls[j]? = some other) : Kept hash c' b' j other := by
  rw [hcalls, List.getElem?_set] at hother
  split at hother
  · rename_i heq
    subst heq
    split at hother
    · cases hother
      exact hself
    · cases hother
  · rename_i hne
    refine (h.kept hother).undisturbed (hframe j (Ne.symm hne)) fun hwriting => ?_
    -- If the step does something with the writer, then this call cannot have it.
    rcases hfree with hfree | ⟨hwriter, hstore, -⟩
    · exact (h.not_isWriting hcall hfree (Ne.symm hne) hother hwriting).elim
    · exact ⟨hwriter, hstore⟩

theorem one_writer_step (h : Orderly hash c b) (hcall : c.calls[id]? = some call)
    (hcalls : c'.calls = c.calls.set id call')
    (hfree : (call.IsWriting ∨ b.writer = none) ∨ ¬ call'.IsWriting) {i j : Nat} {x y : Call}
    (hi : c'.calls[i]? = some x) (hj : c'.calls[j]? = some y) (hx : x.IsWriting)
    (hy : y.IsWriting) : i = j := by
  have hother : ∀ {k : Nat} {z : Call}, c'.calls[k]? = some z → z.IsWriting →
      k = id ∧ (call.IsWriting ∨ b.writer = none) ∨ k ≠ id ∧ c.calls[k]? = some z := by
    intro k z hk hz
    rw [hcalls, List.getElem?_set] at hk
    split at hk
    · rename_i heq
      split at hk
      · cases hk
        exact .inl ⟨heq.symm, hfree.resolve_right (not_not_intro hz)⟩
      · cases hk
    · rename_i hne
      exact .inr ⟨Ne.symm hne, hk⟩
  rcases hother hi hx, hother hj hy with ⟨⟨rfl, hfreeᵢ⟩ | ⟨hneᵢ, hoᵢ⟩, ⟨rfl, hfreeⱼ⟩ | ⟨hneⱼ, hoⱼ⟩⟩
  · rfl
  · exact (h.not_isWriting hcall hfreeᵢ hneⱼ hoⱼ hy).elim
  · exact (h.not_isWriting hcall hfreeⱼ hneᵢ hoᵢ hx).elim
  · exact h.one_writer hoᵢ hoⱼ hx hy

/-- A step that commits nothing. -/
theorem quiet (h : Orderly hash c b) (hcall : c.calls[id]? = some call)
    (hcalls : c'.calls = c.calls.set id call') (hcommits : c'.commits = c.commits)
    (hstore : b'.store = b.store) (hself : Kept hash c' b' id call')
    (hentry : call'.entry? = call.entry?) (hframe : ∀ j, j ≠ id → Undisturbed j c b c' b')
    (hfree : (call.IsWriting ∨ b.writer = none) ∨ b'.writer = b.writer ∧ ¬ call'.IsWriting)
    (hsize : ∀ shared ∈ c'.handles, shared.tree.size.toNat ≤ c.commits.length) :
    Orderly hash c' b' where
  committed_eq := by
    rw [hstore, h.committed_eq, Callers.leaves, Callers.leaves, hcommits]
  encodes := by
    rw [Callers.leaves, hcommits]
    exact h.encodes
  kept := by
    refine h.kept_step hcall hcalls hself hframe ?_
    exact hfree.imp_right fun ⟨hwriter, hnot⟩ => ⟨hwriter, hstore, hnot⟩
  one_writer := h.one_writer_step hcall hcalls (hfree.imp_right And.right)
  entries := by
    intro k j leaf hat
    rw [hcommits] at hat
    obtain ⟨other, hother, hindex⟩ := h.entries hat
    by_cases hj : id = j
    · subst hj
      cases hcall.symm.trans hother
      refine ⟨call', ?_, hentry.trans hindex⟩
      rw [hcalls, List.getElem?_set_self (List.getElem?_eq_some_iff.1 hcall).1]
    · exact ⟨other, by rw [hcalls, List.getElem?_set_ne hj, hother], hindex⟩
  size_le := by
    rw [hcommits]
    exact hsize

/-- A step that touches neither the commits nor the handles nor the session. -/
theorem inward (h : Orderly hash c b) (hcall : c.calls[id]? = some call)
    (hself : Kept hash (c.set id call') b id call') (hentry : call'.entry? = call.entry?)
    (hwriting : call'.IsWriting → call.IsWriting) : Orderly hash (c.set id call') b := by
  refine h.quiet hcall rfl rfl rfl hself hentry
    (fun j _ => ⟨List.prefix_refl _, rfl, fun hholds => hholds⟩) ?_ h.size_le
  by_cases hcallWriting : call.IsWriting
  · exact .inl (.inl hcallWriting)
  · exact .inr ⟨rfl, fun hwriting' => hcallWriting (hwriting hwriting')⟩

theorem numbered_viewAt (h : Orderly hash c b) {k : Nat} (hle : k ≤ c.commits.length) :
    (c.viewAt hash k).Numbered k := by
  have hnumbered := View.numbered_appendAll hash fun leaf hleaf =>
    h.encodes leaf (List.take_subset k c.leaves hleaf)
  rwa [List.length_take, Callers.length_leaves, Nat.min_eq_left hle] at hnumbered

/-- What is committed counts the commits. -/
theorem numbered_committed (h : Orderly hash c b) :
    b.store.committed.Numbered c.commits.length := by
  have hnumbered := h.numbered_viewAt (Nat.le_refl _)
  rwa [Callers.viewAt_length, ← h.committed_eq] at hnumbered

/-- A handle that a look has found is not ahead. -/
theorem size_le_of_found (h : Orderly hash c b) {look : Look} {since : Nat} {now : Timestamp}
    (hle : since ≤ c.commits.length) {tree : Tree}
    (hfound : answer now (look.query hash) (c.viewAt hash since) = .ok (.handle tree)) :
    tree.size.toNat ≤ c.commits.length := by
  have hsize := Look.size_of_handle hfound
  rw [(h.numbered_viewAt hle).answer_size now, Except.ok.injEq] at hsize
  rw [← hsize, UInt64.toNat_ofNat']
  exact (Nat.mod_le _ _).trans hle

/-- A step that changes a handle which nobody else has locked. -/
theorem modify (h : Orderly hash c b) (hcall : c.calls[id]? = some call) {handle : Nat}
    {shared : SharedTree} (hat : c.handles[handle]? = some shared)
    (hholder : ∀ j, j ≠ id → shared.holder ≠ some j) (f : SharedTree → SharedTree)
    (hself : Kept hash { c.set id call' with handles := c.handles.modify handle f } b id call')
    (hentry : call'.entry? = call.entry?) (hwriting : ¬ call'.IsWriting)
    (hsize : (f shared).tree.size.toNat ≤ c.commits.length) :
    Orderly hash { c.set id call' with handles := c.handles.modify handle f } b := by
  refine h.quiet hcall rfl rfl rfl hself hentry ?_ (.inr ⟨rfl, hwriting⟩) ?_
  · intro j hj
    refine ⟨List.prefix_refl _, rfl, ?_⟩
    intro other tree hholds
    have hne : handle ≠ other := by
      rintro rfl
      cases hat.symm.trans hholds
      exact hholder j hj rfl
    show (c.handles.modify handle f)[other]? = _
    simp only [List.getElem?_modify, if_neg hne, Option.map_eq_map, Option.map_id']
    exact hholds
  · intro shared' hmem
    obtain ⟨k, hk⟩ := List.mem_iff_getElem?.1 hmem
    rw [List.getElem?_modify] at hk
    by_cases heq : handle = k
    · subst heq
      simp only [hat, Option.map_eq_map, Option.map_some, if_true] at hk
      cases hk
      exact hsize
    · simp only [if_neg heq, Option.map_eq_map, Option.map_id'] at hk
      exact h.size_le shared' (List.mem_of_getElem? hk)

/-- A commit makes the next entry, and what is committed follows. -/
theorem commit (h : Orderly hash c b) {handle : Nat} {leaf : Leaf} {index : UInt64}
    {bytes : Bytes} {tree : Tree} {w : View}
    (hcall : c.calls[id]? = some (.append handle leaf (.writing (.done index))))
    (hencode : leaf.encode = .ok bytes) (hholds : c.Holds id handle tree)
    (hopen : b.writer = some w)
    (hrest : Pursues b.store.committed w (appendUpdate hash bytes) (.done index)) :
    Orderly hash
      { c.set id (.append handle leaf (.committed index)) with
        commits := c.commits ++ [(id, leaf)] }
      { b with store := ⟨w⟩, writer := none } := by
  have houtcome := hrest.outcome_eq Timestamp.epoch
  rw [h.numbered_committed.outcome_append hash hencode] at houtcome
  cases houtcome
  have hat : (c.commits ++ [(id, leaf)])[c.commits.length]? = some (id, leaf) :=
    List.getElem?_concat_length
  have hleaves : (c.commits ++ [(id, leaf)]).map Prod.snd = c.leaves ++ [leaf] := List.map_append
  have hself : Kept hash
      { c.set id (.append handle leaf (.committed (UInt64.ofNat c.commits.length))) with
        commits := c.commits ++ [(id, leaf)] }
      { b with store := ⟨b.store.committed.append hash leaf⟩, writer := none } id
      (.append handle leaf (.committed (UInt64.ofNat c.commits.length))) :=
    .committed hat hholds (h.size_le _ (List.mem_of_getElem? hholds))
  have hframe : ∀ j, j ≠ id → Undisturbed j c b
      { c.set id (.append handle leaf (.committed (UInt64.ofNat c.commits.length))) with
        commits := c.commits ++ [(id, leaf)] }
      { b with store := ⟨b.store.committed.append hash leaf⟩, writer := none } :=
    fun _ _ => ⟨List.prefix_append _ _, rfl, fun hholds => hholds⟩
  refine ⟨?_, ?_, h.kept_step hcall rfl hself hframe (.inl (.inl trivial)),
    h.one_writer_step hcall rfl (.inl (.inl trivial)), ?_, ?_⟩
  · rw [Callers.leaves, hleaves, View.appendAll_concat, ← h.committed_eq]
  · rw [Callers.leaves, hleaves]
    intro other hother
    rcases List.mem_append.1 hother with hold | hnew
    · exact h.encodes other hold
    · rw [List.mem_singleton.1 hnew]
      exact ⟨bytes, hencode⟩
  · intro k j other hk
    have hlt := (List.getElem?_eq_some_iff.1 hcall).1
    rcases Nat.lt_or_ge k c.commits.length with hold | hnew
    · rw [List.getElem?_append_left hold] at hk
      obtain ⟨call, hother, hentry⟩ := h.entries hk
      by_cases hj : id = j
      · -- A call that is still writing has no index yet, so the entry is not its own.
        subst hj
        cases hcall.symm.trans hother
        cases hentry
      · exact ⟨call, by rw [Callers.set, List.getElem?_set_ne hj, hother], hentry⟩
    · rw [List.getElem?_append_right hnew, List.getElem?_singleton] at hk
      split at hk
      · rename_i hzero
        cases hk
        obtain rfl : k = c.commits.length := Nat.le_antisymm (Nat.sub_eq_zero_iff_le.1 hzero) hnew
        exact ⟨_, List.getElem?_set_self hlt, rfl⟩
      · cases hk
  · intro shared hshared
    rw [List.length_append]
    exact (h.size_le shared hshared).trans (Nat.le_add_right _ _)

/-- Every step keeps order. -/
theorem transition (h : Orderly hash c b) (hmoves : Transition hash id c b c' b') :
    Orderly hash c' b' := by
  have hsame : ∀ {j : Nat} {call : Call} {w : Option View}, j ≠ id →
      Undisturbed j c b (c.set id call) { b with writer := w } :=
    fun _ => ⟨List.prefix_refl _, rfl, fun hholds => hholds⟩
  cases hmoves with
  | @openReader look hcall =>
      refine h.quiet hcall rfl rfl rfl ?_ rfl ?_ (.inr ⟨rfl, fun hwriting => hwriting⟩) h.size_le
      · refine .reading (Nat.le_refl _) ?_ (.self (look.clockAtMost_query hash))
        rw [List.lookup_cons_self, h.committed_eq]
        exact congrArg some (Callers.viewAt_length hash c).symm
      · intro j hj
        refine ⟨List.prefix_refl _, ?_, fun hholds => hholds⟩
        rw [List.lookup_cons, beq_false_of_ne hj]
  | read hcall hreader =>
      cases h.kept hcall with
      | reading hle hopen hrest =>
          cases hreader.symm.trans hopen
          exact h.inward hcall (.reading hle hopen hrest.get) rfl fun hwriting => hwriting
  | readClock hcall now =>
      cases h.kept hcall with
      | reading hle hopen hrest =>
          exact h.inward hcall (.reading hle hopen (hrest.clock now)) rfl fun hwriting => hwriting
  | @closeReader look since rest result hcall hend =>
      cases h.kept hcall with
      | reading hle hopen hrest =>
          obtain ⟨now, hanswer⟩ := hrest.exists_answer
          rw [hend] at hanswer
          refine h.quiet hcall rfl rfl rfl (.found hle hanswer) rfl ?_
            (.inr ⟨rfl, fun hwriting => hwriting⟩) ?_
          · intro j hj
            refine ⟨List.prefix_refl _, lookup_filter_ne hj, fun hholds => ?_⟩
            obtain ⟨hlt, -⟩ := List.getElem?_eq_some_iff.1 hholds
            exact (List.getElem?_append_left hlt).trans hholds
          · intro shared hmem
            rcases List.mem_append.1 hmem with hold | hnew
            · exact h.size_le shared hold
            · obtain ⟨tree, rfl, rfl⟩ := LookStage.of_mem_handles hnew
              exact h.size_le_of_found hle hanswer.symm
  | refuse hcall hencode =>
      exact h.inward hcall (.refused hencode) rfl fun hwriting => hwriting
  | @lock handle leaf bytes tree hcall hencode hfree =>
      have hholds : (c.handles.modify handle fun shared =>
          { shared with holder := some id })[handle]? = some ⟨tree, some id⟩ := by
        rw [List.getElem?_modify, hfree]
        simp
      refine h.modify hcall hfree (fun _ _ => by simp) _ (.locked hencode hholds) rfl
        (fun hwriting => hwriting) ?_
      exact h.size_le ⟨tree, none⟩ (List.mem_of_getElem? hfree)
  | @openWriter handle leaf bytes hcall hfree =>
      cases h.kept hcall with
      | locked hencode hholds =>
          refine h.quiet hcall rfl rfl rfl ?_ rfl (fun j hj => hsame hj) (.inl (.inr hfree))
            h.size_le
          exact .writing hencode hholds rfl (.self (clockAtMost_appendUpdate hash _))
  | peek hcall hwriter =>
      cases h.kept hcall with
      | writing hencode hholds hopen hrest =>
          cases hwriter.symm.trans hopen
          exact h.inward hcall (.writing hencode hholds hopen hrest.get) rfl
            fun hwriting => hwriting
  | writeClock hcall now =>
      cases h.kept hcall with
      | writing hencode hholds hopen hrest => exact hrest.clockAtMost.elim
  | put hcall hwriter =>
      cases h.kept hcall with
      | writing hencode hholds hopen hrest =>
          cases hwriter.symm.trans hopen
          refine h.quiet hcall rfl rfl rfl ?_ rfl (fun j hj => hsame hj) (.inl (.inl trivial))
            h.size_le
          exact .writing hencode hholds rfl hrest.put
  | commit hcall hwriter =>
      cases h.kept hcall with
      | writing hencode hholds hopen hrest =>
          cases hwriter.symm.trans hopen
          exact h.commit hcall hencode hholds hopen hrest
  | discard hcall =>
      cases h.kept hcall with
      | writing hencode hholds hopen hrest =>
          -- From a view that counts, an append does not fail, so no writer is ever given up.
          have houtcome := hrest.outcome_eq Timestamp.epoch
          rw [h.numbered_committed.outcome_append hash hencode] at houtcome
          cases houtcome
  | @remember handle leaf index hcall =>
      cases h.kept hcall with
      | @committed _ _ k tree hat hholds hsize =>
          have hnow : (c.handles.modify handle fun shared =>
              { shared with tree := ⟨UInt64.ofNat k + 1⟩ })[handle]? =
                some ⟨⟨UInt64.ofNat k + 1⟩, some id⟩ := by
            rw [List.getElem?_modify, hholds]
            simp
          refine h.modify hcall hholds ?_ _ (.leaving hat hnow) rfl (fun hwriting => hwriting) ?_
          · rintro j hj ⟨⟩
            exact hj rfl
          · obtain ⟨hlt, -⟩ := List.getElem?_eq_some_iff.1 hat
            rw [ofNat_add_one, UInt64.toNat_ofNat']
            exact (Nat.mod_le _ _).trans hlt
  | unlock hcall =>
      cases h.kept hcall with
      | leaving hat hholds =>
          refine h.modify hcall hholds ?_ _ (.answered hat) rfl (fun hwriting => hwriting) ?_
          · rintro j hj ⟨⟩
            exact hj rfl
          · exact h.size_le ⟨_, some id⟩ (List.mem_of_getElem? hholds)

/-- Another call, on which nothing has been done yet. -/
theorem join (h : Orderly hash c b) (hnew : ∀ c' id, Kept hash c' b id call)
    (hwriting : ¬ call.IsWriting) : Orderly hash { c with calls := c.calls ++ [call] } b := by
  have hcases : ∀ {j : Nat} {other : Call}, (c.calls ++ [call])[j]? = some other →
      c.calls[j]? = some other ∨ other = call := by
    intro j other hj
    rcases Nat.lt_or_ge j c.calls.length with hold | hlast
    · rw [List.getElem?_append_left hold] at hj
      exact .inl hj
    · rw [List.getElem?_append_right hlast] at hj
      exact .inr (List.mem_singleton.1 (List.mem_of_getElem? hj))
  refine ⟨h.committed_eq, h.encodes, ?_, ?_, ?_, h.size_le⟩
  · intro j other hj
    rcases hcases hj with hold | rfl
    · exact (h.kept hold).undisturbed ⟨List.prefix_refl _, rfl, fun hholds => hholds⟩
        fun _ => ⟨rfl, rfl⟩
    · exact hnew _ j
  · intro i j x y hi hj hx hy
    rcases hcases hi, hcases hj with ⟨hoᵢ | rfl, hoⱼ | rfl⟩
    · exact h.one_writer hoᵢ hoⱼ hx hy
    · exact (hwriting hy).elim
    · exact (hwriting hx).elim
    · exact (hwriting hx).elim
  · intro k j leaf hk
    obtain ⟨other, hother, hentry⟩ := h.entries hk
    have hlt := (List.getElem?_eq_some_iff.1 hother).1
    exact ⟨other, by rw [List.getElem?_append_left hlt, hother], hentry⟩

theorem step {sys : System Copying View View} (h : Orderly hash sys.callers sys.session)
    (move : Move) :
    Orderly hash (sys.step hash move).callers (sys.step hash move).session := by
  cases move with
  | look look => exact h.join (fun _ _ => .newLook) fun hwriting => hwriting
  | append handle leaf => exact h.join (fun _ _ => .newAppend) fun hwriting => hwriting
  | step id now =>
      rcases sys.step_cases hash id now with hsame | hmoves
      · rwa [hsame]
      · exact h.transition hmoves

theorem run {sys : System Copying View View} (h : Orderly hash sys.callers sys.session)
    (moves : List Move) :
    Orderly hash (sys.run hash moves).callers (sys.run hash moves).session := by
  induction moves generalizing sys with
  | nil => exact h
  | cons move moves ih => exact ih (h.step move)

/-- Nobody has called yet. -/
theorem start (hash : HashFunction) :
    Orderly hash ⟨[], [], []⟩ (Session.fresh (⟨View.empty⟩ : Copying)) := by
  refine ⟨rfl, ?_, ?_, ?_, ?_, ?_⟩ <;> simp [Callers.leaves]

end Orderly

end

end Tree

end OwnershipLog
