import OwnershipLog.Proofs.Store.Session
import OwnershipLog.Tree

/-!
# Callers that overlap

Any number of calls use one log at a time, through any number of handles. A call makes
its way in steps: an operation on the store, a reading of the clock, taking or giving
back the lock of a handle, or the update of what the handle remembers. Between two
steps of a call the others may make any number of theirs. A step that has to wait, for
the lock of a handle or for the writer of the store, changes nothing and can be tried
again. A run is what the moves of all calls make of the system, in one order of many.

The callers (`Callers`) know the store only by its answers. So a system over a store with
snapshots stays in step with the system over the copying store (`System.run_of_stands`).
-/

namespace OwnershipLog

namespace Transaction

variable {Write ε α : Type}

/-- What remains of a program when the store has answered its first step. -/
def resume (ofStore : StoreError → ε) (answer : Except StoreError (Option Bytes)) :
    Transaction Write ε α → Transaction Write ε α
  | get _ reply => match answer with
    | .ok value => reply value
    | .error e => fail (ofStore e)
  | put _ rest => match answer with
    | .ok _ => rest
    | .error e => fail (ofStore e)
  | program => program

end Transaction

namespace Tree

/-! ## Calls -/

/-- What can be asked of a log without changing it. A handle is taken by asking for its size. -/
inductive Look where
  | attach
  | head
  | leaf (index : UInt64)
  | leaves (start stop : UInt64)
  | proof (index : UInt64)

/-- What is found. -/
inductive Finding where
  | handle (tree : Tree)
  | head (head : TreeHead)
  | leaf (leaf? : Option Leaf)
  | leaves (leaves : List Leaf)
  | proof (proof : InclusionProof)

/-- The program that looks. -/
def Look.query (hash : HashFunction) : Look → Query LogError Finding
  | attach => do return .handle ⟨← reading Layout.size⟩
  | head => do return .head (← headQuery hash)
  | leaf index => do return .leaf (← leafQuery index)
  | leaves start stop => do return .leaves (← leavesQuery start stop)
  | proof index => do return .proof (← proofQuery hash index)

/-- How far a look has come. -/
inductive LookStage where
  | called
  /-- A reader is open since there were `since` commits, and `rest` remains of the program. -/
  | reading (since : Nat) (rest : Query LogError Finding)
  | found (since : Nat) (result : Except LogError Finding)

/-- How far an append has come. -/
inductive AppendStage where
  | called
  /-- The lock of the handle is held. -/
  | locked (bytes : Bytes)
  /-- The writer is open too, and `rest` remains of the program. -/
  | writing (rest : Update LogError UInt64)
  /-- The handle does not know of the new leaf yet. -/
  | committed (index : UInt64)
  /-- Only the lock is still to be given back. -/
  | leaving (result : Except LogError UInt64)
  | answered (result : Except LogError UInt64)

/-- A call and how far it has come. -/
inductive Call where
  | look (look : Look) (stage : LookStage)
  | append (handle : Nat) (leaf : Leaf) (stage : AppendStage)

/-- A handle with the call that holds its lock. -/
structure SharedTree where
  tree : Tree
  holder : Option Nat

/-- What the store is asked next; a reader bears the name of its call. -/
def LookStage.operation? (id : Nat) : LookStage → Option Session.Operation
  | called => some (.openReader id)
  | reading _ (.get key _) => some (.read id key.bytes)
  | reading _ (.clock _) => none
  | reading _ (.put write _) => write.elim
  | reading _ (.done _) => some (.closeReader id)
  | reading _ (.fail _) => some (.closeReader id)
  | found _ _ => none

/-- What the store is asked next. -/
def AppendStage.operation? : AppendStage → Option Session.Operation
  | writing (.get key _) => some (.peek key.bytes)
  | writing (.put write _) => some (.put write.1.bytes write.2)
  | writing (.clock _) => none
  | writing (.done _) => some .commit
  | writing (.fail _) => some .discard
  | locked _ => some .openWriter
  | called | committed _ | leaving _ | answered _ => none

/-- The stage after an answer of the store, where `commits` is the number of commits so far. -/
def LookStage.resume (query : Query LogError Finding) (commits : Nat)
    (answer : Except StoreError (Option Bytes)) : LookStage → LookStage
  | called => match answer with
    | .ok _ => reading commits query
    | .error e => found commits (.error (.store e))
  | reading since (.done finding) => found since (.ok finding)
  | reading since (.fail e) => found since (.error e)
  | reading since rest => reading since (rest.resume .store answer)
  | found since result => found since result

/-- The stage after an answer of the store. -/
def AppendStage.resume (hash : HashFunction) (answer : Except StoreError (Option Bytes)) :
    AppendStage → AppendStage
  | locked bytes => match answer with
    | .ok _ => writing (appendUpdate hash bytes)
    | .error e => leaving (.error (.store e))
  | writing (.done index) => match answer with
    | .ok _ => committed index
    | .error e => leaving (.error (.store e))
  | writing (.fail e) => leaving (.error e)
  | writing rest => writing (rest.resume .store answer)
  | stage => stage

/-- The handle that a look ends with, if it is one for a handle. -/
def LookStage.handles : LookStage → List SharedTree
  | found _ (.ok (.handle tree)) => [⟨tree, none⟩]
  | _ => []

theorem LookStage.of_mem_handles {since : Nat} {result : Except LogError Finding}
    {shared : SharedTree} (h : shared ∈ (found since result).handles) :
    ∃ tree, result = .ok (.handle tree) ∧ shared = ⟨tree, none⟩ := by
  unfold handles at h
  split at h
  · rename_i heq
    cases heq
    exact ⟨_, rfl, List.mem_singleton.1 h⟩
  · cases h

/-- The entry that an append makes in the list of commits, when its commit is its last step. -/
def AppendStage.commits (id : Nat) (leaf : Leaf) : AppendStage → List (Nat × Leaf)
  | committed _ => [(id, leaf)]
  | _ => []

/-- The index that an append has been given. -/
def AppendStage.index? : AppendStage → Option UInt64
  | committed index | leaving (.ok index) | answered (.ok index) => some index
  | _ => none

/-! ## Callers -/

/-- All that does not belong to the store. -/
structure Callers where
  /-- The calls in the order in which they were made. -/
  calls : List Call
  handles : List SharedTree
  /-- The calls that have committed with their leaves, in the order of the commits. -/
  commits : List (Nat × Leaf)

namespace Callers

/-- The call has come to the next stage. -/
def set (c : Callers) (id : Nat) (call : Call) : Callers := { c with calls := c.calls.set id call }

/-- What the call asks the store next, if its next step is an operation on it. -/
def operation? (c : Callers) (id : Nat) : Option Session.Operation :=
  match c.calls[id]? with
  | some (.look _ stage) => stage.operation? id
  | some (.append _ _ stage) => stage.operation?
  | none => none

/-- The callers after a call has had an answer of the store. -/
def resume (hash : HashFunction) (c : Callers) (id : Nat)
    (answer : Except StoreError (Option Bytes)) : Callers :=
  match c.calls[id]? with
  | some (.look look stage) =>
    let next := stage.resume (look.query hash) c.commits.length answer
    { c.set id (.look look next) with handles := c.handles ++ next.handles }
  | some (.append handle leaf stage) =>
    let next := stage.resume hash answer
    { c.set id (.append handle leaf next) with commits := c.commits ++ next.commits id leaf }
  | none => c

/-- The callers after a step of a call that is not an operation on the store. -/
def proceed (c : Callers) (id : Nat) (now : Timestamp) : Callers :=
  match c.calls[id]? with
  | some (.look look (.reading since (.clock reply))) =>
    c.set id (.look look (.reading since (reply now)))
  | some (.append handle leaf .called) =>
    match leaf.encode with
    | .error cause => c.set id (.append handle leaf (.answered (.error (.codec cause))))
    | .ok bytes => match c.handles[handle]? with
      | some ⟨_, none⟩ => { c.set id (.append handle leaf (.locked bytes)) with
          handles := c.handles.modify handle fun shared => { shared with holder := some id } }
      | _ => c
  | some (.append handle leaf (.writing (.clock reply))) =>
    c.set id (.append handle leaf (.writing (reply now)))
  | some (.append handle leaf (.committed index)) =>
    { c.set id (.append handle leaf (.leaving (.ok index))) with
      handles := c.handles.modify handle fun shared => { shared with tree := ⟨index + 1⟩ } }
  | some (.append handle leaf (.leaving result)) =>
    { c.set id (.append handle leaf (.answered result)) with
      handles := c.handles.modify handle fun shared => { shared with holder := none } }
  | _ => c

end Callers

/-! ## Systems -/

/-- What happens next. -/
inductive Move where
  /-- Someone makes a call. -/
  | look (look : Look)
  | append (handle : Nat) (leaf : Leaf)
  /-- A call makes a step, and the clock shows `now`. -/
  | step (id : Nat) (now : Timestamp)

/-- The callers and the store between them. -/
structure System (S R W : Type) where
  callers : Callers
  session : Session S R W

namespace System

variable {S R W : Type} [Store S R W]

/-- A store and nobody who has called yet. -/
def fresh (s : S) : System S R W := ⟨⟨[], [], []⟩, Session.fresh s⟩

/-- One move. -/
def step (hash : HashFunction) (sys : System S R W) : Move → System S R W
  | .look look =>
    { sys with callers := { sys.callers with
        calls := sys.callers.calls ++ [.look look .called] } }
  | .append handle leaf =>
    { sys with callers := { sys.callers with
        calls := sys.callers.calls ++ [.append handle leaf .called] } }
  | .step id now =>
    match sys.callers.operation? id with
    | none => { sys with callers := sys.callers.proceed id now }
    | some operation => match sys.session.perform operation with
      | (none, _) => sys
      | (some answer, session) => ⟨sys.callers.resume hash id answer, session⟩

/-- Moves one after another. -/
def run (hash : HashFunction) (moves : List Move) (sys : System S R W) : System S R W :=
  moves.foldl (step hash) sys

theorem run_append (hash : HashFunction) (earlier later : List Move) (sys : System S R W) :
    sys.run hash (earlier ++ later) = (sys.run hash earlier).run hash later :=
  List.foldl_append

variable {hash : HashFunction} {id : Nat} {now : Timestamp} {operation : Session.Operation}

theorem step_of_none {sys : System S R W} (h : sys.callers.operation? id = none) :
    sys.step hash (.step id now) = { sys with callers := sys.callers.proceed id now } := by
  simp only [step, h]

theorem step_of_wait {sys : System S R W} {session : Session S R W}
    (h : sys.callers.operation? id = some operation)
    (hperform : sys.session.perform operation = (none, session)) :
    sys.step hash (.step id now) = sys := by
  simp only [step, h, hperform]

theorem step_of_answer {sys : System S R W} {session : Session S R W}
    {answer : Except StoreError (Option Bytes)}
    (h : sys.callers.operation? id = some operation)
    (hperform : sys.session.perform operation = (some answer, session)) :
    sys.step hash (.step id now) = ⟨sys.callers.resume hash id answer, session⟩ := by
  simp only [step, h, hperform]

/-- The two systems have the same callers, and their stores stand for each other. -/
structure Stands [SnapshotStore S R W] (a : System S R W) (b : System Copying View View) :
    Prop where
  callers_eq : a.callers = b.callers
  session : SnapshotStore.Stands a.session b.session

variable [SnapshotStore S R W] {a : System S R W} {b : System Copying View View}

theorem stands_fresh {s : S} {v : View} (hidle : SnapshotStore.Idle s)
    (hview : LawfulStore.view s = v) :
    Stands (System.fresh s) (System.fresh (⟨v⟩ : Copying)) := by
  have hsession := SnapshotStore.stands_of_idle hidle
  rw [hview] at hsession
  exact ⟨rfl, hsession⟩

theorem step_of_stands (hash : HashFunction) (h : Stands a b) (move : Move) :
    Stands (a.step hash move) (b.step hash move) := by
  obtain ⟨ca, sa⟩ := a
  obtain ⟨cb, sb⟩ := b
  obtain ⟨hcallers, hsession⟩ := h
  obtain rfl : ca = cb := hcallers
  cases move with
  | look look => exact ⟨rfl, hsession⟩
  | append handle leaf => exact ⟨rfl, hsession⟩
  | step id now =>
      cases hoperation : ca.operation? id with
      | none =>
          rw [step_of_none hoperation, step_of_none hoperation]
          exact ⟨rfl, hsession⟩
      | some operation =>
          obtain ⟨hanswer, hnext⟩ := SnapshotStore.perform_of_stands hsession operation
          rcases hperform : sa.perform operation with ⟨answer, sa'⟩
          rcases hperform' : sb.perform operation with ⟨answer', sb'⟩
          rw [hperform, hperform'] at hanswer hnext
          obtain rfl : answer = answer' := hanswer
          cases answer with
          | none =>
              rw [step_of_wait hoperation hperform, step_of_wait hoperation hperform']
              exact ⟨rfl, hsession⟩
          | some answer =>
              rw [step_of_answer hoperation hperform, step_of_answer hoperation hperform']
              exact ⟨rfl, hnext⟩

theorem run_of_stands (hash : HashFunction) (h : Stands a b) (moves : List Move) :
    Stands (a.run hash moves) (b.run hash moves) := by
  induction moves generalizing a b with
  | nil => exact h
  | cons move moves ih => exact ih (step_of_stands hash h move)

end System

/-! ## What a step can do -/

/-- What a step of the call `id` can do to the callers and to the session over the copying store,
when it does anything. -/
inductive Transition (hash : HashFunction) (id : Nat) (c : Callers)
    (b : Session Copying View View) : Callers → Session Copying View View → Prop where
  | openReader {look : Look} (hcall : c.calls[id]? = some (.look look .called)) :
      Transition hash id c b
        (c.set id (.look look (.reading c.commits.length (look.query hash))))
        { b with readers := (id, b.store.committed) :: b.readers }
  | read {look : Look} {since : Nat} {key : StoreKey} {v : View}
      {reply : Option Bytes → Query LogError Finding}
      (hcall : c.calls[id]? = some (.look look (.reading since (.get key reply))))
      (hreader : b.readers.lookup id = some v) :
      Transition hash id c b (c.set id (.look look (.reading since (reply (v key.bytes))))) b
  | readClock {look : Look} {since : Nat} {reply : Timestamp → Query LogError Finding}
      (hcall : c.calls[id]? = some (.look look (.reading since (.clock reply))))
      (now : Timestamp) :
      Transition hash id c b (c.set id (.look look (.reading since (reply now)))) b
  | closeReader {look : Look} {since : Nat} {rest : Query LogError Finding}
      {result : Except LogError Finding}
      (hcall : c.calls[id]? = some (.look look (.reading since rest)))
      (hend : ∀ now v, Transaction.answer now rest v = result) :
      Transition hash id c b
        { c.set id (.look look (.found since result)) with
          handles := c.handles ++ (LookStage.found since result).handles }
        { b with readers := b.readers.filter fun entry => decide (entry.1 ≠ id) }
  | refuse {handle : Nat} {leaf : Leaf} {cause : WireError}
      (hcall : c.calls[id]? = some (.append handle leaf .called))
      (hencode : leaf.encode = .error cause) :
      Transition hash id c b
        (c.set id (.append handle leaf (.answered (.error (.codec cause))))) b
  | lock {handle : Nat} {leaf : Leaf} {bytes : Bytes} {tree : Tree}
      (hcall : c.calls[id]? = some (.append handle leaf .called))
      (hencode : leaf.encode = .ok bytes) (hfree : c.handles[handle]? = some ⟨tree, none⟩) :
      Transition hash id c b
        { c.set id (.append handle leaf (.locked bytes)) with
          handles := c.handles.modify handle fun shared => { shared with holder := some id } } b
  | openWriter {handle : Nat} {leaf : Leaf} {bytes : Bytes}
      (hcall : c.calls[id]? = some (.append handle leaf (.locked bytes)))
      (hfree : b.writer = none) :
      Transition hash id c b
        (c.set id (.append handle leaf (.writing (appendUpdate hash bytes))))
        { b with writer := some b.store.committed }
  | peek {handle : Nat} {leaf : Leaf} {key : StoreKey} {w : View}
      {reply : Option Bytes → Update LogError UInt64}
      (hcall : c.calls[id]? = some (.append handle leaf (.writing (.get key reply))))
      (hwriter : b.writer = some w) :
      Transition hash id c b
        (c.set id (.append handle leaf (.writing (reply (w key.bytes))))) b
  | writeClock {handle : Nat} {leaf : Leaf} {reply : Timestamp → Update LogError UInt64}
      (hcall : c.calls[id]? = some (.append handle leaf (.writing (.clock reply))))
      (now : Timestamp) :
      Transition hash id c b (c.set id (.append handle leaf (.writing (reply now)))) b
  | put {handle : Nat} {leaf : Leaf} {write : StoreKey × Bytes} {w : View}
      {rest : Update LogError UInt64}
      (hcall : c.calls[id]? = some (.append handle leaf (.writing (.put write rest))))
      (hwriter : b.writer = some w) :
      Transition hash id c b (c.set id (.append handle leaf (.writing rest)))
        { b with writer := some (w.put write.1.bytes write.2) }
  | commit {handle : Nat} {leaf : Leaf} {index : UInt64} {w : View}
      (hcall : c.calls[id]? = some (.append handle leaf (.writing (.done index))))
      (hwriter : b.writer = some w) :
      Transition hash id c b
        { c.set id (.append handle leaf (.committed index)) with
          commits := c.commits ++ [(id, leaf)] }
        { b with store := ⟨w⟩, writer := none }
  | discard {handle : Nat} {leaf : Leaf} {e : LogError}
      (hcall : c.calls[id]? = some (.append handle leaf (.writing (.fail e)))) :
      Transition hash id c b (c.set id (.append handle leaf (.leaving (.error e))))
        { b with writer := none }
  | remember {handle : Nat} {leaf : Leaf} {index : UInt64}
      (hcall : c.calls[id]? = some (.append handle leaf (.committed index))) :
      Transition hash id c b
        { c.set id (.append handle leaf (.leaving (.ok index))) with
          handles := c.handles.modify handle fun shared =>
            { shared with tree := ⟨index + 1⟩ } } b
  | unlock {handle : Nat} {leaf : Leaf} {result : Except LogError UInt64}
      (hcall : c.calls[id]? = some (.append handle leaf (.leaving result))) :
      Transition hash id c b
        { c.set id (.append handle leaf (.answered result)) with
          handles := c.handles.modify handle fun shared => { shared with holder := none } } b

section

variable {hash : HashFunction} {id : Nat} {now : Timestamp} {c : Callers}
  {b : Session Copying View View}

/-- What an answered operation of a look does. -/
theorem Transition.of_look {look : Look} {stage : LookStage}
    (hcall : c.calls[id]? = some (.look look stage)) {operation : Session.Operation}
    (hoperation : stage.operation? id = some operation) {b' : Session Copying View View}
    {answer : Except StoreError (Option Bytes)}
    (hperform : b.perform operation = (some answer, b')) :
    Transition hash id c b (c.resume hash id answer) b' := by
  cases stage with
  | called =>
      cases hoperation
      obtain ⟨-, rfl, rfl⟩ := Copying.of_openReader hperform
      simp only [Callers.resume, hcall, LookStage.resume, LookStage.handles, List.append_nil]
      exact .openReader hcall
  | reading since rest =>
      cases rest with
      | done finding =>
          cases hoperation
          obtain rfl := Copying.of_closeReader hperform
          simp only [Callers.resume, hcall, LookStage.resume]
          exact .closeReader hcall fun _ _ => rfl
      | fail e =>
          cases hoperation
          obtain rfl := Copying.of_closeReader hperform
          simp only [Callers.resume, hcall, LookStage.resume]
          exact .closeReader hcall fun _ _ => rfl
      | get key reply =>
          cases hoperation
          obtain ⟨v, hreader, rfl, rfl⟩ := Copying.of_read hperform
          simp only [Callers.resume, hcall, LookStage.resume, Transaction.resume,
            LookStage.handles, List.append_nil]
          exact .read hcall hreader
      | clock reply => cases hoperation
      | put write rest => exact write.elim
  | found since result => cases hoperation

/-- What an answered operation of an append does. -/
theorem Transition.of_append {handle : Nat} {leaf : Leaf} {stage : AppendStage}
    (hcall : c.calls[id]? = some (.append handle leaf stage)) {operation : Session.Operation}
    (hoperation : stage.operation? = some operation) {b' : Session Copying View View}
    {answer : Except StoreError (Option Bytes)}
    (hperform : b.perform operation = (some answer, b')) :
    Transition hash id c b (c.resume hash id answer) b' := by
  cases stage with
  | locked bytes =>
      cases hoperation
      obtain ⟨hwriter, rfl, rfl⟩ := Copying.of_openWriter hperform
      simp only [Callers.resume, hcall, AppendStage.resume, AppendStage.commits, List.append_nil]
      exact .openWriter hcall hwriter
  | writing rest =>
      cases rest with
      | done index =>
          cases hoperation
          obtain ⟨w, hwriter, rfl, rfl⟩ := Copying.of_commit hperform
          simp only [Callers.resume, hcall, AppendStage.resume, AppendStage.commits]
          exact .commit hcall hwriter
      | fail e =>
          cases hoperation
          obtain rfl := Copying.of_discard hperform
          simp only [Callers.resume, hcall, AppendStage.resume, AppendStage.commits,
            List.append_nil]
          exact .discard hcall
      | get key reply =>
          cases hoperation
          obtain ⟨w, hwriter, rfl, rfl⟩ := Copying.of_peek hperform
          simp only [Callers.resume, hcall, AppendStage.resume, Transaction.resume,
            AppendStage.commits, List.append_nil]
          exact .peek hcall hwriter
      | clock reply => cases hoperation
      | put write rest =>
          cases hoperation
          obtain ⟨w, hwriter, rfl, rfl⟩ := Copying.of_put hperform
          simp only [Callers.resume, hcall, AppendStage.resume, Transaction.resume,
            AppendStage.commits, List.append_nil]
          exact .put hcall hwriter
  | called | committed index | leaving result | answered result => cases hoperation

/-- What a step without the store does. -/
theorem Transition.of_proceed (c : Callers) (b : Session Copying View View) (id : Nat)
    (now : Timestamp) :
    c.proceed id now = c ∨ Transition hash id c b (c.proceed id now) b := by
  unfold Callers.proceed
  split
  · rename_i hcall
    exact .inr (.readClock hcall now)
  · rename_i hcall
    split
    · rename_i hencode
      exact .inr (.refuse hcall hencode)
    · rename_i hencode
      split
      · rename_i hfree
        exact .inr (.lock hcall hencode hfree)
      · exact .inl rfl
  · rename_i hcall
    exact .inr (.writeClock hcall now)
  · rename_i hcall
    exact .inr (.remember hcall)
  · rename_i hcall
    exact .inr (.unlock hcall)
  · exact .inl rfl

/-- A step does nothing, or one of these things. -/
theorem System.step_cases (hash : HashFunction) (sys : System Copying View View) (id : Nat)
    (now : Timestamp) :
    sys.step hash (.step id now) = sys ∨
      Transition hash id sys.callers sys.session (sys.step hash (.step id now)).callers
        (sys.step hash (.step id now)).session := by
  obtain ⟨c, b⟩ := sys
  cases hoperation : c.operation? id with
  | none =>
      rw [step_of_none hoperation]
      rcases Transition.of_proceed c b id now with hsame | hmoves
      · left
        rw [hsame]
      · exact .inr hmoves
  | some operation =>
      rcases hperform : b.perform operation with ⟨_ | answer, b'⟩
      · exact .inl (step_of_wait hoperation hperform)
      · right
        rw [step_of_answer hoperation hperform]
        unfold Callers.operation? at hoperation
        split at hoperation
        · rename_i hcall
          exact .of_look hcall hoperation hperform
        · rename_i hcall
          exact .of_append hcall hoperation hperform
        · cases hoperation

end

end Tree

end OwnershipLog
