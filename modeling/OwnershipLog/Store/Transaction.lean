import OwnershipLog.Store.Error
import OwnershipLog.Timestamp

/-!
# Transactions as programs

What the log does inside one transaction is a small program: it looks keys up,
may read the clock, may write, and ends with a value or an error. A `Query` never
writes; an `Update` may. The same program can be run in one go, as `run` does, or
one step at a time between the steps of others.
-/

namespace OwnershipLog

/-- A program inside one transaction. `Write` is what it can write, `ε` its errors, `α` its result. -/
inductive Transaction (Write ε α : Type) where
  /-- End with a result. -/
  | done (a : α)
  /-- End with an error. -/
  | fail (e : ε)
  /-- Look a key up. -/
  | get (key : StoreKey) (next : Option Bytes → Transaction Write ε α)
  /-- Read the clock. -/
  | clock (next : Timestamp → Transaction Write ε α)
  /-- Write. -/
  | put (write : Write) (next : Transaction Write ε α)

/-- A program that only reads. -/
abbrev Query := Transaction Empty

/-- A program that reads and files values under keys. -/
abbrev Update := Transaction (StoreKey × Bytes)

namespace Transaction

variable {Write ε α β γ : Type}

/-- Run `next` on the result of a program. -/
def bind : Transaction Write ε α → (α → Transaction Write ε β) → Transaction Write ε β
  | done a, next => next a
  | fail e, _ => fail e
  | get key reply, next => get key fun value => (reply value).bind next
  | clock reply, next => clock fun now => (reply now).bind next
  | put write rest, next => put write (rest.bind next)

instance : Monad (Transaction Write ε) where
  pure := done
  bind := bind

instance : MonadExceptOf ε (Transaction Write ε) where
  throw := fail
  tryCatch program _ := program

@[simp] theorem done_bind (a : α) (next : α → Transaction Write ε β) :
    (done a).bind next = next a := rfl

@[simp] theorem fail_bind (e : ε) (next : α → Transaction Write ε β) :
    (fail e).bind next = fail e := rfl

@[simp] theorem get_bind (key : StoreKey) (reply : Option Bytes → Transaction Write ε α)
    (next : α → Transaction Write ε β) :
    (get key reply).bind next = get key fun value => (reply value).bind next := rfl

@[simp] theorem clock_bind (reply : Timestamp → Transaction Write ε α)
    (next : α → Transaction Write ε β) :
    (clock reply).bind next = clock fun now => (reply now).bind next := rfl

@[simp] theorem put_bind (write : Write) (rest : Transaction Write ε α)
    (next : α → Transaction Write ε β) :
    (put write rest).bind next = put write (rest.bind next) := rfl

theorem bind_done (program : Transaction Write ε α) : program.bind done = program := by
  induction program with
  | done a => rfl
  | fail e => rfl
  | get key reply ih => simp [ih]
  | clock reply ih => simp [ih]
  | put write rest ih => simp [ih]

theorem bind_assoc (program : Transaction Write ε α) (first : α → Transaction Write ε β)
    (second : β → Transaction Write ε γ) :
    (program.bind first).bind second = program.bind fun a => (first a).bind second := by
  induction program with
  | done a => rfl
  | fail e => rfl
  | get key reply ih => simp [ih]
  | clock reply ih => simp [ih]
  | put write rest ih => simp [ih]

/-- The same program with its errors renamed. -/
def mapError {ε' : Type} (f : ε → ε') : Transaction Write ε α → Transaction Write ε' α
  | done a => done a
  | fail e => fail (f e)
  | get key reply => get key fun value => (reply value).mapError f
  | clock reply => clock fun now => (reply now).mapError f
  | put write rest => put write (rest.mapError f)

/-- How a running program reaches the store: what a look-up and a write do to the state, and how
the store's own errors count among the program's. -/
structure Access (σ Write ε : Type) where
  get : Bytes → σ → Except StoreError (Option Bytes) × σ
  put : Write → σ → Except StoreError Unit × σ
  ofStore : StoreError → ε

/-- Run a program to its end. The clock shows `now` throughout; the first error ends the run. -/
def run {σ : Type} (access : Access σ Write ε) (now : Timestamp) :
    Transaction Write ε α → σ → Except ε α × σ
  | done a, s => (.ok a, s)
  | fail e, s => (.error e, s)
  | clock reply, s => (reply now).run access now s
  | get key reply, s =>
    match access.get key.bytes s with
    | (.ok value, s) => (reply value).run access now s
    | (.error e, s) => (.error (access.ofStore e), s)
  | put write rest, s =>
    match access.put write s with
    | (.ok _, s) => rest.run access now s
    | (.error e, s) => (.error (access.ofStore e), s)

end Transaction

/-- A query as part of an update. -/
def Query.toUpdate {ε α : Type} : Query ε α → Update ε α
  | .done a => .done a
  | .fail e => .fail e
  | .get key reply => .get key fun value => Query.toUpdate (reply value)
  | .clock reply => .clock fun now => Query.toUpdate (reply now)
  | .put write _ => write.elim

end OwnershipLog
