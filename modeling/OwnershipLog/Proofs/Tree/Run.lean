import OwnershipLog.Proofs.Store.Lawful
import OwnershipLog.Proofs.Tree.Append
import OwnershipLog.Suite.Standard

/-!
# What a tree keeps over a whole run

A run of a log is a list of events: a leaf is offered, or the handle is dropped and
taken anew from the store. The leaves that were accepted are those with a byte form,
in their order, and they are all that a run leaves behind: `Tree.Holds` says that
the store represents them, that the handle knows how many they are, and that
nothing is in the way of the next transaction. One event keeps it (`Holds.step`), so
every run does (`Holds.run`).
-/

namespace OwnershipLog

open Transaction

/-- The byte form of a leaf; no bytes if it has none. -/
def Leaf.bytes (leaf : Leaf) : Bytes := leaf.encode.toOption.getD []

theorem Leaf.Written.bytes_leaf (written : Leaf.Written) : written.leaf.bytes = written.bytes := by
  rw [Leaf.bytes, written.encode_eq]
  rfl

theorem bytesOf_eq_map_bytes (log : List Leaf.Written) :
    bytesOf log = (log.map Leaf.Written.leaf).map Leaf.bytes := by
  rw [bytesOf, List.map_map]
  apply List.map_congr_left
  intro written _
  exact written.bytes_leaf.symm

/-- The leaf with its byte form, if it has one. -/
def Leaf.written? (leaf : Leaf) : Option Leaf.Written :=
  match h : leaf.encode with
  | .ok bytes => some ⟨leaf, bytes, h⟩
  | .error _ => none

theorem Leaf.written?_of_ok {leaf : Leaf} {bytes : Bytes} (h : leaf.encode = .ok bytes) :
    leaf.written? = some ⟨leaf, bytes, h⟩ := by
  unfold written?
  split
  · rename_i bytes' h'
    cases h.symm.trans h'
    rfl
  · rename_i cause h'
    cases h.symm.trans h'

theorem Leaf.written?_of_error {leaf : Leaf} {cause : WireError} (h : leaf.encode = .error cause) :
    leaf.written? = none := by
  unfold written?
  split
  · rename_i bytes h'
    cases h.symm.trans h'
  · rfl

namespace Tree

/-- What is done to a log through its handle. -/
inductive Event where
  /-- A leaf is offered. -/
  | append (now : Timestamp) (leaf : Leaf)
  /-- The handle is dropped and taken anew from the store. -/
  | reopen (now : Timestamp)

namespace Event

/-- The leaf that the event adds to the log. -/
def accepted? : Event → Option Leaf.Written
  | append _ leaf => leaf.written?
  | reopen _ => none

/-- What the event answers on a log of `n` leaves. -/
def answer (n : Nat) : Event → Except LogError UInt64
  | append _ leaf => match leaf.encode with
    | .ok _ => .ok (UInt64.ofNat n)
    | .error cause => .error (.codec cause)
  | reopen _ => .ok (UInt64.ofNat n)

theorem answer_of_ok (n : Nat) (now : Timestamp) {leaf : Leaf} {bytes : Bytes}
    (h : leaf.encode = .ok bytes) : (append now leaf).answer n = .ok (UInt64.ofNat n) := by
  simp only [answer, h]

theorem answer_of_error (n : Nat) (now : Timestamp) {leaf : Leaf} {cause : WireError}
    (h : leaf.encode = .error cause) : (append now leaf).answer n = .error (.codec cause) := by
  simp only [answer, h]

end Event

/-- The leaves that a run adds to the log. -/
def accepted (events : List Event) : List Leaf.Written := events.filterMap Event.accepted?

/-- What the events of a run answer, on a log of `n` leaves. -/
def answers (n : Nat) (events : List Event) : List (Except LogError UInt64) :=
  events.mapIdx fun k event => event.answer (n + (accepted (events.take k)).length)

@[simp] theorem accepted_nil : accepted [] = [] := rfl

theorem accepted_cons (event : Event) (events : List Event) :
    accepted (event :: events) = accepted [event] ++ accepted events := by
  rw [accepted, accepted, accepted, ← List.filterMap_append]
  rfl

theorem accepted_of_ok (now : Timestamp) {leaf : Leaf} {bytes : Bytes}
    (h : leaf.encode = .ok bytes) : accepted [.append now leaf] = [⟨leaf, bytes, h⟩] := by
  simp [accepted, Event.accepted?, Leaf.written?_of_ok h]

theorem accepted_of_error (now : Timestamp) {leaf : Leaf} {cause : WireError}
    (h : leaf.encode = .error cause) : accepted [.append now leaf] = [] := by
  simp [accepted, Event.accepted?, Leaf.written?_of_error h]

theorem length_accepted_le (events : List Event) : (accepted events).length ≤ events.length :=
  List.length_filterMap_le _ _

@[simp] theorem answers_nil (n : Nat) : answers n [] = [] := rfl

theorem answers_cons (n : Nat) (event : Event) (events : List Event) :
    answers n (event :: events) =
      event.answer n :: answers (n + (accepted [event]).length) events := by
  rw [answers, List.mapIdx_cons, answers]
  congr 2
  funext k event'
  rw [List.take_succ_cons, accepted_cons, List.length_append, Nat.add_assoc]

section

variable {S R W : Type} [Store S R W]

/-- One event: its answer, which is the index of a new leaf or the size that a new handle finds. A
handle that cannot be taken anew stays as it is. -/
def step (hash : HashFunction) (event : Event) (tree : Tree) (s : S) :
    Except LogError UInt64 × (Tree × S) :=
  match event with
  | .append now leaf => append hash now leaf tree s
  | .reopen now =>
    match attach now s with
    | (.ok tree', s) => (.ok tree'.size, tree', s)
    | (.error e, s) => (.error e, tree, s)

/-- The events of a run one after another, with their answers. -/
def run (hash : HashFunction) : List Event → Tree → S → List (Except LogError UInt64) × (Tree × S)
  | [], tree, s => ([], tree, s)
  | event :: events, tree, s =>
    let (answer, tree, s) := step hash event tree s
    let (answers, tree, s) := run hash events tree s
    (answer :: answers, tree, s)

/-- The number of leaves that the store remembers. -/
def storedSize (now : Timestamp) (s : S) : Except LogError UInt64 × S :=
  Store.query .store now (reading Layout.size) s

/-- The store holds the tree of a log, the handle knows its size, and the next transaction will not
be refused. -/
structure Holds [LawfulStore S R W] (hash : HashFunction) (log : List Leaf.Written) (tree : Tree)
    (s : S) : Prop where
  ready : LawfulStore.Ready s
  represents : Represents hash (bytesOf log) (LawfulStore.view s)
  size_eq : tree.size = UInt64.ofNat log.length

end

section

variable {S R W : Type} [Store S R W] [LawfulStore S R W] {hash : HashFunction}
  {log : List Leaf.Written} {tree : Tree} {s : S}

/-- A new handle finds the size of the log. -/
theorem attach_of_represents (hready : LawfulStore.Ready s)
    (h : Represents hash (bytesOf log) (LawfulStore.view s)) (now : Timestamp) :
    ∃ s', attach now s = (.ok ⟨UInt64.ofNat log.length⟩, s') ∧
      Holds hash log ⟨UInt64.ofNat log.length⟩ s' := by
  obtain ⟨s', hquery, hready', hview⟩ :=
    LawfulStore.query_eq now LogError.store (reading Layout.size) hready
  rw [h.answer_logSize] at hquery
  refine ⟨s', ?_, hready', ?_, rfl⟩
  · simp only [attach, hquery]
  · rwa [hview]

namespace Holds

/-- A leaf with a byte form is put at the end of the log, and its index is answered. -/
theorem append (h : Holds hash log tree s) (hlt : log.length < 2 ^ 63) (now : Timestamp)
    (written : Leaf.Written) :
    ∃ tree' s', Tree.append hash now written.leaf tree s =
        (.ok (UInt64.ofNat log.length), tree', s') ∧
      Holds hash (log ++ [written]) tree' s' := by
  have hlt' : (bytesOf log).length < 2 ^ 63 := by rwa [length_bytesOf]
  have houtcome := h.represents.outcome_append now hlt' written.bytes
  obtain ⟨s', hupdate, hready, hview⟩ :=
    LawfulStore.update_eq now LogError.store (appendUpdate hash written.bytes) h.ready
  rw [houtcome, length_bytesOf] at hupdate
  rw [committed_of_ok houtcome] at hview
  refine ⟨⟨UInt64.ofNat log.length + 1⟩, s', ?_, hready, ?_, ?_⟩
  · simp only [Tree.append, written.encode_eq, hupdate]
  · have hbytes : bytesOf (log ++ [written]) = bytesOf log ++ [written.bytes] := List.map_append
    rw [hview, hbytes]
    exact h.represents.append hlt' written.bytes
  · rw [List.length_append, List.length_singleton, ofNat_add_one]

/-- One event answers what it should, and the log is held with what the event adds to it. -/
theorem step (h : Holds hash log tree s) (event : Event)
    (hle : (log ++ accepted [event]).length ≤ 2 ^ 63) :
    ∃ tree' s', Tree.step hash event tree s = (event.answer log.length, tree', s') ∧
      Holds hash (log ++ accepted [event]) tree' s' := by
  cases event with
  | append now leaf =>
      cases hencode : leaf.encode with
      | ok bytes =>
          rw [accepted_of_ok now hencode] at hle ⊢
          rw [List.length_append, List.length_singleton] at hle
          obtain ⟨tree', s', happend, h'⟩ := h.append (by omega) now ⟨leaf, bytes, hencode⟩
          refine ⟨tree', s', ?_, h'⟩
          rw [Event.answer_of_ok _ _ hencode]
          exact happend
      | error cause =>
          refine ⟨tree, s, ?_, ?_⟩
          · rw [Event.answer_of_error _ _ hencode]
            simp only [Tree.step, Tree.append, hencode]
          · rwa [accepted_of_error now hencode, List.append_nil]
  | reopen now =>
      obtain ⟨s', hattach, h'⟩ := attach_of_represents h.ready h.represents now
      refine ⟨⟨UInt64.ofNat log.length⟩, s', ?_, ?_⟩
      · simp only [Tree.step, Event.answer, hattach]
      · have haccepted : accepted [.reopen now] = [] := rfl
        rwa [haccepted, List.append_nil]

/-- A run answers what it should, and leaves the log that it was given with what it accepted. -/
theorem run (h : Holds hash log tree s) (events : List Event)
    (hle : (log ++ accepted events).length ≤ 2 ^ 63) :
    ∃ tree' s', Tree.run hash events tree s = (answers log.length events, tree', s') ∧
      Holds hash (log ++ accepted events) tree' s' := by
  induction events generalizing log tree s with
  | nil => exact ⟨tree, s, rfl, by simpa using h⟩
  | cons event events ih =>
      rw [accepted_cons, ← List.append_assoc] at hle ⊢
      have hstep : (log ++ accepted [event]).length ≤ 2 ^ 63 :=
        (List.prefix_append _ _).length_le.trans hle
      obtain ⟨tree₁, s₁, hfirst, h₁⟩ := h.step event hstep
      obtain ⟨tree₂, s₂, hrest, h₂⟩ := ih h₁ hle
      refine ⟨tree₂, s₂, ?_, h₂⟩
      simp only [Tree.run, hfirst, hrest, answers_cons, List.length_append]

/-- A query in a transaction of its own answers from the log and leaves it as it is. -/
theorem query {ε α : Type} (h : Holds hash log tree s) (ofStore : StoreError → ε) (now : Timestamp)
    (query : Query ε α) :
    ∃ s', Store.query ofStore now query s = (answer now query (LawfulStore.view s), s') ∧
      Holds hash log tree s' := by
  obtain ⟨s', hquery, hready, hview⟩ := LawfulStore.query_eq now ofStore query h.ready
  exact ⟨s', hquery, hready, by rw [hview]; exact h.represents, h.size_eq⟩

theorem storedSize (h : Holds hash log tree s) (now : Timestamp) :
    ∃ s', Tree.storedSize now s = (.ok (UInt64.ofNat log.length), s') ∧ Holds hash log tree s' := by
  obtain ⟨s', hquery, h'⟩ := h.query LogError.store now (reading Layout.size)
  rw [h.represents.answer_logSize] at hquery
  exact ⟨s', hquery, h'⟩

theorem head (h : Holds hash log tree s) (hle : log.length ≤ 2 ^ 63) (now : Timestamp) :
    ∃ s', Tree.head hash now s =
        (.ok ⟨UInt64.ofNat log.length, now, hash.rootHash (bytesOf log), none⟩, s') ∧
      Holds hash log tree s' := by
  obtain ⟨s', hquery, h'⟩ := h.query LogError.store now (headQuery hash)
  rw [h.represents.answer_head hle] at hquery
  exact ⟨s', hquery, h'⟩

theorem leaf? (h : Holds hash log tree s) (hle : log.length ≤ 2 ^ 63) (now : Timestamp)
    (index : UInt64) :
    ∃ s', Tree.leaf? now index s = (.ok (log[index.toNat]?.map Leaf.Written.leaf), s') ∧
      Holds hash log tree s' := by
  obtain ⟨s', hquery, h'⟩ := h.query LogError.store now (leafQuery index)
  rw [h.represents.answer_leaf hle] at hquery
  exact ⟨s', hquery, h'⟩

theorem leaves (h : Holds hash log tree s) (hle : log.length ≤ 2 ^ 63) (now : Timestamp)
    (start stop : UInt64) :
    ∃ s', Tree.leaves now start stop s =
        (.ok (((log.take stop.toNat).drop start.toNat).map Leaf.Written.leaf), s') ∧
      Holds hash log tree s' := by
  obtain ⟨s', hquery, h'⟩ := h.query LogError.store now (leavesQuery start stop)
  rw [h.represents.answer_leaves hle] at hquery
  exact ⟨s', hquery, h'⟩

theorem proof (h : Holds hash log tree s) (hle : log.length ≤ 2 ^ 63) (now : Timestamp)
    {index : UInt64} {written : Leaf.Written} (hat : log[index.toNat]? = some written) :
    ∃ s', Tree.proof hash now index s =
        (.ok ⟨⟨UInt64.ofNat log.length, now, hash.rootHash (bytesOf log), none⟩, index,
          written.leaf, hash.pathHashes (bytesOf log) index.toNat⟩, s') ∧
      Holds hash log tree s' := by
  obtain ⟨s', hquery, h'⟩ := h.query LogError.store now (proofQuery hash index)
  rw [h.represents.answer_proof hle hat] at hquery
  exact ⟨s', hquery, h'⟩

theorem proof_of_le (h : Holds hash log tree s) (hle : log.length ≤ 2 ^ 63) (now : Timestamp)
    {index : UInt64} (hpast : log.length ≤ index.toNat) :
    ∃ s', Tree.proof hash now index s =
        (.error (.indexOutOfRange index (UInt64.ofNat log.length)), s') ∧
      Holds hash log tree s' := by
  obtain ⟨s', hquery, h'⟩ := h.query LogError.store now (proofQuery hash index)
  rw [h.represents.answer_proof_of_le hle hpast] at hquery
  exact ⟨s', hquery, h'⟩

end Holds

/-- A log that begins in an empty store holds what its run accepted. -/
theorem exists_run_holds (hash : HashFunction) {s₀ : S} (hready : LawfulStore.Ready s₀)
    (hempty : LawfulStore.view s₀ = View.empty) (start : Timestamp) {events : List Event}
    (hle : (accepted events).length ≤ 2 ^ 63) :
    ∃ tree₀ s₁ tree s, attach start s₀ = (.ok tree₀, s₁) ∧
      run hash events tree₀ s₁ = (answers 0 events, tree, s) ∧
      Holds hash (accepted events) tree s := by
  have hrepresents : Represents hash (bytesOf []) (LawfulStore.view s₀) := by
    rw [hempty]
    exact represents_empty
  obtain ⟨s₁, hattach, h₁⟩ := attach_of_represents hready hrepresents start
  obtain ⟨tree, s, hrun, h⟩ := h₁.run events hle
  exact ⟨_, s₁, tree, s, hattach, hrun, h⟩

/-- Whatever is offered to a log that begins in an empty store, and however often its handle is
taken anew: every offer answers its place among the accepted leaves or why it was refused, and the
store ends up with the leaves, the hashes from scratch of the blocks around them and their number,
and with nothing else. What is read from it afterwards is what was accepted. -/
theorem run_keeps (hash : HashFunction) {s₀ : S} (hready : LawfulStore.Ready s₀)
    (hempty : LawfulStore.view s₀ = View.empty) (start : Timestamp) (events : List Event)
    (hle : (accepted events).length ≤ 2 ^ 63) :
    ∃ tree₀ s₁ tree s,
      attach start s₀ = (.ok tree₀, s₁) ∧
      run hash events tree₀ s₁ = (answers 0 events, tree, s) ∧
      tree.size.toNat = (accepted events).length ∧
      (∀ key value, LawfulStore.view s key = some value ↔
        ∃ k : StoreKey, k.bytes = key ∧ Filed hash (bytesOf (accepted events)) k value) ∧
      ∀ now,
        (Tree.storedSize now s).1 = .ok tree.size ∧
        (attach now s).1 = .ok tree ∧
        (Tree.head hash now s).1 =
          .ok ⟨tree.size, now, hash.rootHash (bytesOf (accepted events)), none⟩ ∧
        (∀ index, (Tree.leaf? now index s).1 =
          .ok ((accepted events)[index.toNat]?.map Leaf.Written.leaf)) ∧
        ∀ first stop, (Tree.leaves now first stop s).1 =
          .ok ((((accepted events).take stop.toNat).drop first.toNat).map Leaf.Written.leaf) := by
  obtain ⟨tree₀, s₁, tree, s, hattach, hrun, h⟩ := exists_run_holds hash hready hempty start hle
  refine ⟨tree₀, s₁, tree, s, hattach, hrun, ?_, h.represents, ?_⟩
  · rw [h.size_eq, toNat_ofNat_of_le hle]
  · intro now
    rw [h.size_eq]
    refine ⟨?_, ?_, ?_, ?_, ?_⟩
    · obtain ⟨s', heq, -⟩ := h.storedSize now
      rw [heq]
    · obtain ⟨s', heq, -⟩ := attach_of_represents h.ready h.represents now
      rw [heq, ← h.size_eq]
    · obtain ⟨s', heq, -⟩ := h.head hle now
      rw [heq]
    · intro index
      obtain ⟨s', heq, -⟩ := h.leaf? hle now index
      rw [heq]
    · intro first stop
      obtain ⟨s', heq, -⟩ := h.leaves hle now first stop
      rw [heq]

end

/-! ### A run in memory -/

/-- A leaf with nothing in it but a key. -/
def keyed (publicKey : Bytes) : Leaf :=
  ⟨Timestamp.epoch, ⟨Digest.zero, "ada"⟩, publicKey, [], []⟩

theorem encode_keyed_of_lt {key : Bytes} (h : maxField < key.length) :
    (keyed key).encode = .error (.tooLong key.length maxField) := by
  show ((keyed key).fields >>= _) = _
  simp only [Leaf.fields, keyed, prefixed_of_lt h]
  rfl

/-- Leaves are offered, one for each key. -/
def offers (keys : List UInt8) : List Event := keys.map fun k => .append Timestamp.epoch (keyed [k])

/-- Each of them is accepted. -/
theorem leaf_accepted_offers (keys : List UInt8) :
    (accepted (offers keys)).map Leaf.Written.leaf = keys.map fun k => keyed [k] := by
  induction keys with
  | nil => rfl
  | cons k keys ih =>
      obtain ⟨bytes, hencode⟩ : ∃ bytes, (keyed [k]).encode = .ok bytes := ⟨_, rfl⟩
      rw [List.map_cons, ← ih, offers, List.map_cons, accepted_cons, accepted_of_ok _ hencode]
      rfl

theorem length_accepted_offers (keys : List UInt8) :
    (accepted (offers keys)).length = keys.length := by
  rw [← List.length_map Leaf.Written.leaf, leaf_accepted_offers, List.length_map]

theorem bytesOf_accepted_offers (keys : List UInt8) :
    bytesOf (accepted (offers keys)) = keys.map fun k => (keyed [k]).bytes := by
  rw [bytesOf_eq_map_bytes, leaf_accepted_offers, List.map_map]
  rfl

/-- A leaf, the handle taken anew, a leaf whose key is too long, and another leaf. -/
def sampleEvents : List Event :=
  [.append Timestamp.epoch (keyed []), .reopen Timestamp.epoch,
    .append Timestamp.epoch (keyed (List.replicate (maxField + 1) 0)),
    .append Timestamp.epoch (keyed [1])]

theorem answers_sampleEvents :
    answers 0 sampleEvents = [.ok 0, .ok 1, .error (.codec (.tooLong 65536 65535)), .ok 1] := by
  have hlong : (keyed (List.replicate (maxField + 1) 0)).encode =
      .error (.tooLong 65536 65535) := by
    have hlt : maxField < (List.replicate (maxField + 1) (0 : UInt8)).length := by
      rw [List.length_replicate]
      exact Nat.lt_succ_self _
    rw [encode_keyed_of_lt hlt, List.length_replicate]
    rfl
  rw [sampleEvents, answers_cons, answers_cons, answers_cons, answers_cons, answers_nil,
    accepted_of_error _ hlong, Event.answer_of_error _ _ hlong]
  rfl

/-- The sample run on a log in memory, under the standard hash. -/
theorem run_keeps_inMemory :
    LawfulStore.Ready Versioned.empty ∧ LawfulStore.view Versioned.empty = View.empty ∧
    (accepted sampleEvents).length ≤ 2 ^ 63 ∧
    ∃ tree₀ s₁ tree s,
      attach Timestamp.epoch Versioned.empty = (.ok tree₀, s₁) ∧
      run Suite.standard.hash sampleEvents tree₀ s₁ =
        ([.ok 0, .ok 1, .error (.codec (.tooLong 65536 65535)), .ok 1], tree, s) ∧
      tree.size.toNat = (accepted sampleEvents).length ∧
      (Tree.head Suite.standard.hash Timestamp.epoch s).1 = .ok ⟨tree.size, Timestamp.epoch,
        Suite.standard.hash.rootHash (bytesOf (accepted sampleEvents)), none⟩ := by
  have hready : LawfulStore.Ready Versioned.empty := Versioned.bounded_empty
  have hempty : LawfulStore.view Versioned.empty = View.empty := Versioned.current_empty
  have hle : (accepted sampleEvents).length ≤ 2 ^ 63 :=
    (length_accepted_le _).trans (by decide)
  obtain ⟨tree₀, s₁, tree, s, hattach, hrun, hsize, -, hreads⟩ :=
    run_keeps Suite.standard.hash hready hempty Timestamp.epoch sampleEvents hle
  rw [answers_sampleEvents] at hrun
  exact ⟨hready, hempty, hle, tree₀, s₁, tree, s, hattach, hrun,
    hsize, (hreads Timestamp.epoch).2.2.1⟩

end Tree

/-! ### A suite in the open -/

/-- A suite in the open: a hash is the number that the bytes spell, reduced, a signature shows the
seed and what was signed, and a sealed payload stands behind what it is bound to. -/
def Suite.plain : Suite where
  hash bytes := ⟨bigEndian 32 (ofBigEndian (1 :: bytes) % (2 ^ 255 - 19)), length_bigEndian _ _⟩
  publicKey seed := seed
  sign seed digest := ⟨seed.toBytes ++ digest.toBytes, by simp [Octets.length_toBytes]⟩
  verify key digest signature := decide (signature.toBytes = key.toBytes ++ digest.toBytes)
  encrypt _ _ associated payload := some (associated ++ payload)
  decrypt _ _ associated body :=
    if body.take associated.length = associated then some (body.drop associated.length) else none

end OwnershipLog
