import OwnershipLog.Store.Basic

/-!
# What a transaction does to a view

A `View` is what a store holds, as a function of the key. A query is answered from
a view, and an update leads from one view to another; neither needs a store. The
equations beside the two say what they do to sequencing, to renaming errors and to
a query inside an update.

`LawfulStore` is what a store owes the log: when nobody else has a transaction
open, a reader answers from the view that is committed, a writer sees its own
puts, and a commit makes what the writer sees the committed view. `query_eq` and
`update_eq` then reduce every operation of the log to views.
-/

namespace OwnershipLog

/-- The value under each key, if there is one. -/
abbrev View := Bytes → Option Bytes

namespace View

/-- The view in which nothing is filed. -/
def empty : View := fun _ => none

/-- The view with one more value. -/
def put (v : View) (key value : Bytes) : View := fun k => if k = key then some value else v k

@[simp] theorem put_self (v : View) (key value : Bytes) : v.put key value key = some value :=
  if_pos rfl

theorem put_of_ne (v : View) {key k : Bytes} (value : Bytes) (h : k ≠ key) :
    v.put key value k = v k := if_neg h

end View

namespace Transaction

/-- The answer of a query to a view, with the clock at `now`. -/
def answer {ε α : Type} (now : Timestamp) : Query ε α → View → Except ε α
  | done a, _ => .ok a
  | fail e, _ => .error e
  | clock reply, v => answer now (reply now) v
  | get key reply, v => answer now (reply (v key.bytes)) v
  | put write _, _ => write.elim

/-- The result of an update and the view it leads to, with the clock at `now`. -/
def outcome {ε α : Type} (now : Timestamp) : Update ε α → View → Except ε α × View
  | done a, v => (.ok a, v)
  | fail e, v => (.error e, v)
  | clock reply, v => outcome now (reply now) v
  | get key reply, v => outcome now (reply (v key.bytes)) v
  | put write rest, v => outcome now rest (v.put write.1.bytes write.2)

/-- What is committed after an update: the view it leads to, unless it fails. -/
def committed {ε α : Type} (now : Timestamp) (update : Update ε α) (v : View) : View :=
  match outcome now update v with
  | (.ok _, v') => v'
  | (.error _, _) => v

variable {ε ε' α β : Type} {now : Timestamp}

@[simp] theorem answer_done (a : α) (v : View) :
    answer (ε := ε) now (done a) v = .ok a := rfl

@[simp] theorem answer_pure (a : α) (v : View) :
    answer (ε := ε) now (pure a) v = .ok a := rfl

@[simp] theorem answer_fail (e : ε) (v : View) :
    answer (α := α) now (fail e) v = .error e := rfl

/-- A query after another: the second is asked only if the first has an answer. -/
theorem answer_bind (query : Query ε α) (next : α → Query ε β) (v : View) :
    answer now (query >>= next) v = answer now query v >>= fun a => answer now (next a) v := by
  show answer now (query.bind next) v = _
  induction query with
  | done a => rfl
  | fail e => rfl
  | get key reply ih => exact ih _
  | clock reply ih => exact ih _
  | put write rest => exact write.elim

theorem answer_bind_of_ok {query : Query ε α} {v : View} {a : α}
    (h : answer now query v = .ok a) (next : α → Query ε β) :
    answer now (query >>= next) v = answer now (next a) v := by
  rw [answer_bind, h]
  rfl

theorem answer_mapError (f : ε → ε') (query : Query ε α) (v : View) :
    answer now (query.mapError f) v = (answer now query v).mapError f := by
  induction query with
  | done a => rfl
  | fail e => rfl
  | get key reply ih => exact ih _
  | clock reply ih => exact ih _
  | put write rest => exact write.elim

@[simp] theorem outcome_done (a : α) (v : View) :
    outcome (ε := ε) now (done a) v = (.ok a, v) := rfl

@[simp] theorem outcome_pure (a : α) (v : View) :
    outcome (ε := ε) now (pure a) v = (.ok a, v) := rfl

/-- An update after another starts from the view that the first leads to. -/
theorem outcome_bind_of_ok {update : Update ε α} {v v' : View} {a : α}
    (h : outcome now update v = (.ok a, v')) (next : α → Update ε β) :
    outcome now (update >>= next) v = outcome now (next a) v' := by
  show outcome now (update.bind next) v = _
  induction update generalizing v with
  | done a' => cases h; rfl
  | fail e => cases h
  | get key reply ih => exact ih _ h
  | clock reply ih => exact ih _ h
  | put write rest ih => exact ih h

theorem committed_of_ok {update : Update ε α} {v v' : View} {a : α}
    (h : outcome now update v = (.ok a, v')) : committed now update v = v' := by
  rw [committed, h]

theorem committed_of_error {update : Update ε α} {v : View} {e : ε}
    (h : (outcome now update v).1 = .error e) : committed now update v = v := by
  rcases houtcome : outcome now update v with ⟨result, v'⟩
  rw [houtcome] at h
  obtain rfl : result = .error e := h
  rw [committed, houtcome]

/-- A query inside an update answers as it does by itself and files nothing. -/
theorem outcome_toUpdate (query : Query ε α) (v : View) :
    outcome now (Query.toUpdate query) v = (answer now query v, v) := by
  induction query with
  | done a => rfl
  | fail e => rfl
  | get key reply ih => exact ih _
  | clock reply ih => exact ih _
  | put write rest => exact write.elim

end Transaction

open Transaction

/-- A store that keeps its word as long as its transactions do not overlap. -/
class LawfulStore (S : Type) (R W : outParam Type) [Store S R W] where
  /-- No writer is open, and no statement is about to fail. -/
  Ready : S → Prop
  /-- What is committed. -/
  view : S → View
  /-- The reader is open and answers from the view, which is what is committed. -/
  Reads : R → View → S → Prop
  /-- The writer is open: it began at the view `base` and sees the view `v`. -/
  Writes : W → (base v : View) → S → Prop
  openReader_of_ready : ∀ {s : S}, Ready s →
    ∃ r s', Store.openReader s = (.ok r, s') ∧ Reads r (view s) s'
  read_of_reads : ∀ {r : R} {v : View} {s : S}, Reads r v s → ∀ key,
    ∃ s', Store.read r key s = (.ok (v key), s') ∧ Reads r v s'
  closeReader_of_reads : ∀ {r : R} {v : View} {s : S}, Reads r v s →
    Ready (Store.closeReader r s) ∧ view (Store.closeReader r s) = v
  openWriter_of_ready : ∀ {s : S}, Ready s →
    ∃ w s', Store.openWriter s = (.ok w, s') ∧ Writes w (view s) (view s) s'
  peek_of_writes : ∀ {w : W} {base v : View} {s : S}, Writes w base v s → ∀ key,
    ∃ w' s', Store.peek key (w, s) = (.ok (v key), w', s') ∧ Writes w' base v s'
  put_of_writes : ∀ {w : W} {base v : View} {s : S}, Writes w base v s → ∀ key value,
    ∃ w' s', Store.put key value (w, s) = (.ok (), w', s') ∧ Writes w' base (v.put key value) s'
  commit_of_writes : ∀ {w : W} {base v : View} {s : S}, Writes w base v s →
    ∃ s', Store.commit w s = (.ok (), s') ∧ Ready s' ∧ view s' = v
  discard_of_writes : ∀ {w : W} {base v : View} {s : S}, Writes w base v s →
    Ready (Store.discard w s) ∧ view (Store.discard w s) = base

namespace LawfulStore

variable {S R W ε α : Type} [Store S R W] [LawfulStore S R W]

theorem readQuery_eq (now : Timestamp) (ofStore : StoreError → ε) (query : Query ε α) {r : R}
    {v : View} {s : S} (h : Reads r v s) :
    ∃ s', Store.readQuery ofStore now r query s = (answer now query v, s') ∧ Reads r v s' := by
  induction query generalizing s with
  | done a => exact ⟨s, rfl, h⟩
  | fail e => exact ⟨s, rfl, h⟩
  | get key reply ih =>
      obtain ⟨s₁, hread, h₁⟩ := read_of_reads h key.bytes
      obtain ⟨s₂, hrest, h₂⟩ := ih (v key.bytes) h₁
      refine ⟨s₂, ?_, h₂⟩
      simp only [Store.readQuery, run, hread]
      exact hrest
  | clock reply ih => exact ih now h
  | put write rest => exact write.elim

theorem writeUpdate_eq (now : Timestamp) (ofStore : StoreError → ε) (update : Update ε α) {w : W}
    {base v : View} {s : S} (h : Writes w base v s) :
    ∃ w' s', Store.writeUpdate ofStore now update (w, s) = ((outcome now update v).1, w', s') ∧
      Writes w' base (outcome now update v).2 s' := by
  induction update generalizing w v s with
  | done a => exact ⟨w, s, rfl, h⟩
  | fail e => exact ⟨w, s, rfl, h⟩
  | get key reply ih =>
      obtain ⟨w₁, s₁, hpeek, h₁⟩ := peek_of_writes h key.bytes
      obtain ⟨w₂, s₂, hrest, h₂⟩ := ih (v key.bytes) h₁
      refine ⟨w₂, s₂, ?_, h₂⟩
      simp only [Store.writeUpdate, run, hpeek]
      exact hrest
  | clock reply ih => exact ih now h
  | put write rest ih =>
      obtain ⟨w₁, s₁, hput, h₁⟩ := put_of_writes h write.1.bytes write.2
      obtain ⟨w₂, s₂, hrest, h₂⟩ := ih h₁
      refine ⟨w₂, s₂, ?_, h₂⟩
      simp only [Store.writeUpdate, run, hput]
      exact hrest

/-- A query in a transaction of its own answers from what is committed and leaves it alone. -/
theorem query_eq (now : Timestamp) (ofStore : StoreError → ε) (query : Query ε α) {s : S}
    (h : Ready s) :
    ∃ s', Store.query ofStore now query s = (answer now query (view s), s') ∧
      Ready s' ∧ view s' = view s := by
  obtain ⟨r, s₁, hopen, h₁⟩ := openReader_of_ready h
  obtain ⟨s₂, hrun, h₂⟩ := readQuery_eq now ofStore query h₁
  obtain ⟨hready, hview⟩ := closeReader_of_reads h₂
  refine ⟨Store.closeReader r s₂, ?_, hready, hview⟩
  simp only [Store.query, hopen, hrun]

/-- An update in a transaction of its own commits the view it leads to, and nothing if it fails. -/
theorem update_eq (now : Timestamp) (ofStore : StoreError → ε) (update : Update ε α) {s : S}
    (h : Ready s) :
    ∃ s', Store.update ofStore now update s = ((outcome now update (view s)).1, s') ∧
      Ready s' ∧ view s' = committed now update (view s) := by
  obtain ⟨w, s₁, hopen, h₁⟩ := openWriter_of_ready h
  obtain ⟨w', s₂, hrun, h₂⟩ := writeUpdate_eq now ofStore update h₁
  unfold committed
  rcases houtcome : outcome now update (view s) with ⟨result, v⟩
  rw [houtcome] at hrun h₂
  cases result with
  | ok a =>
      obtain ⟨s₃, hcommit, hready, hview⟩ := commit_of_writes h₂
      refine ⟨s₃, ?_, hready, hview⟩
      simp only [Store.update, hopen, hrun, hcommit]
  | error e =>
      obtain ⟨hready, hview⟩ := discard_of_writes h₂
      refine ⟨Store.discard w' s₂, ?_, hready, hview⟩
      simp only [Store.update, hopen, hrun]

end LawfulStore

end OwnershipLog
