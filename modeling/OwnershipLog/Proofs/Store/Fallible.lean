import OwnershipLog.Proofs.Store.Pool

/-!
# Stores whose calls may fail

A `FallibleStore` may refuse any call, and has then done nothing, but that a transaction
that could not begin, or not be committed, is over. Both stores are such: the one with
versions never refuses, and the durable one may whenever a statement fails, whoever else
reads from it. So a query leaves what is committed as it was, and an update commits what
it leads to or nothing (`FallibleStore.query_cases`, `FallibleStore.update_cases`), whatever the
store holds.
-/

namespace OwnershipLog

open Transaction

/-- A store that keeps its word even if its calls fail. -/
class FallibleStore (S : Type) (R W : outParam Type) [Store S R W] where
  /-- A writer may be opened. Readers may be open. -/
  Free : S → Prop
  /-- Whether the lock of the writer is taken. -/
  locked : S → Bool
  /-- What is committed. -/
  view : S → View
  /-- The reader is open and answers from the view, which is what is committed. -/
  Reads : R → View → S → Prop
  /-- The writer is open: it began at the view `base` and sees the view `v`. -/
  Writes : W → (base v : View) → S → Prop
  locked_of_free : ∀ {s : S}, Free s → locked s = false
  openReader_of_free : ∀ {s : S}, Free s →
    (∃ r s', Store.openReader s = (.ok r, s') ∧ Reads r (view s) s') ∨
      ∃ e s', Store.openReader s = (.error e, s') ∧ Free s' ∧ view s' = view s
  read_of_reads : ∀ {r : R} {v : View} {s : S}, Reads r v s → ∀ key,
    ∃ result s', Store.read r key s = (result, s') ∧ Reads r v s' ∧
      (result = .ok (v key) ∨ ∃ e, result = .error e)
  closeReader_of_reads : ∀ {r : R} {v : View} {s : S}, Reads r v s →
    Free (Store.closeReader r s) ∧ view (Store.closeReader r s) = v
  openWriter_of_free : ∀ {s : S}, Free s →
    (∃ w s', Store.openWriter s = (.ok w, s') ∧ Writes w (view s) (view s) s') ∨
      ∃ e s', Store.openWriter s = (.error e, s') ∧ Free s' ∧ view s' = view s
  peek_of_writes : ∀ {w : W} {base v : View} {s : S}, Writes w base v s → ∀ key,
    ∃ result w' s', Store.peek key (w, s) = (result, w', s') ∧ Writes w' base v s' ∧
      (result = .ok (v key) ∨ ∃ e, result = .error e)
  put_of_writes : ∀ {w : W} {base v : View} {s : S}, Writes w base v s → ∀ key value,
    (∃ w' s', Store.put key value (w, s) = (.ok (), w', s') ∧
        Writes w' base (v.put key value) s') ∨
      ∃ e w' s', Store.put key value (w, s) = (.error e, w', s') ∧ Writes w' base v s'
  commit_of_writes : ∀ {w : W} {base v : View} {s : S}, Writes w base v s →
    (∃ s', Store.commit w s = (.ok (), s') ∧ Free s' ∧ view s' = v) ∨
      ∃ e s', Store.commit w s = (.error e, s') ∧ Free s' ∧ view s' = base
  discard_of_writes : ∀ {w : W} {base v : View} {s : S}, Writes w base v s →
    Free (Store.discard w s) ∧ view (Store.discard w s) = base

namespace FallibleStore

variable {S R W ε α : Type} [Store S R W] [FallibleStore S R W]

theorem readQuery_cases (now : Timestamp) (ofStore : StoreError → ε) (query : Query ε α) {r : R}
    {v : View} {s : S} (h : Reads r v s) :
    ∃ result s', Store.readQuery ofStore now r query s = (result, s') ∧ Reads r v s' ∧
      (result = answer now query v ∨ ∃ e, result = .error e) := by
  induction query generalizing s with
  | done a => exact ⟨_, s, rfl, h, Or.inl rfl⟩
  | fail e => exact ⟨_, s, rfl, h, Or.inl rfl⟩
  | clock reply ih => exact ih now h
  | put write rest => exact write.elim
  | get key reply ih =>
      obtain ⟨_, s₁, hread, h₁, rfl | ⟨e, rfl⟩⟩ := read_of_reads h key.bytes
      · obtain ⟨result, s₂, hrest, h₂, hresult⟩ := ih (v key.bytes) h₁
        refine ⟨result, s₂, ?_, h₂, hresult⟩
        simp only [Store.readQuery, run, hread]
        exact hrest
      · exact ⟨.error (ofStore e), s₁, by simp only [Store.readQuery, run, hread], h₁,
          Or.inr ⟨_, rfl⟩⟩

theorem writeUpdate_cases (now : Timestamp) (ofStore : StoreError → ε) (update : Update ε α)
    {w : W} {base v : View} {s : S} (h : Writes w base v s) :
    ∃ result w' s' v', Store.writeUpdate ofStore now update (w, s) = (result, w', s') ∧
      Writes w' base v' s' ∧ (outcome now update v = (result, v') ∨ ∃ e, result = .error e) := by
  induction update generalizing w v s with
  | done a => exact ⟨_, w, s, v, rfl, h, Or.inl rfl⟩
  | fail e => exact ⟨_, w, s, v, rfl, h, Or.inl rfl⟩
  | clock reply ih => exact ih now h
  | get key reply ih =>
      obtain ⟨_, w₁, s₁, hpeek, h₁, rfl | ⟨e, rfl⟩⟩ := peek_of_writes h key.bytes
      · obtain ⟨result, w₂, s₂, v₂, hrest, h₂, hresult⟩ := ih (v key.bytes) h₁
        refine ⟨result, w₂, s₂, v₂, ?_, h₂, hresult⟩
        simp only [Store.writeUpdate, run, hpeek]
        exact hrest
      · exact ⟨.error (ofStore e), w₁, s₁, v, by simp only [Store.writeUpdate, run, hpeek],
          h₁, Or.inr ⟨_, rfl⟩⟩
  | put write rest ih =>
      rcases put_of_writes h write.1.bytes write.2 with
        ⟨w₁, s₁, hput, h₁⟩ | ⟨e, w₁, s₁, hput, h₁⟩
      · obtain ⟨result, w₂, s₂, v₂, hrest, h₂, hresult⟩ := ih h₁
        refine ⟨result, w₂, s₂, v₂, ?_, h₂, hresult⟩
        simp only [Store.writeUpdate, run, hput]
        exact hrest
      · exact ⟨.error (ofStore e), w₁, s₁, v, by simp only [Store.writeUpdate, run, hput],
          h₁, Or.inr ⟨_, rfl⟩⟩

/-- A query in a transaction of its own answers from what is committed, or fails, and leaves it
alone. -/
theorem query_cases (now : Timestamp) (ofStore : StoreError → ε) (query : Query ε α) {s : S}
    (h : Free s) :
    ∃ result s', Store.query ofStore now query s = (result, s') ∧ Free s' ∧ view s' = view s ∧
      (result = answer now query (view s) ∨ ∃ e, result = .error e) := by
  rcases openReader_of_free h with ⟨r, s₁, hopen, h₁⟩ | ⟨e, s₁, hopen, hfree, hview⟩
  · obtain ⟨result, s₂, hrun, h₂, hresult⟩ := readQuery_cases now ofStore query h₁
    obtain ⟨hfree, hview⟩ := closeReader_of_reads h₂
    exact ⟨result, _, by simp only [Store.query, hopen, hrun], hfree, hview, hresult⟩
  · exact ⟨.error (ofStore e), s₁, by simp only [Store.query, hopen], hfree, hview,
      Or.inr ⟨_, rfl⟩⟩

/-- An update in a transaction of its own commits the view it leads to, or fails and commits
nothing. -/
theorem update_cases (now : Timestamp) (ofStore : StoreError → ε) (update : Update ε α) {s : S}
    (h : Free s) :
    ∃ result s', Store.update ofStore now update s = (result, s') ∧ Free s' ∧
      ((∃ a, result = .ok a ∧ outcome now update (view s) = (.ok a, view s')) ∨
        (∃ e, result = .error e) ∧ view s' = view s) := by
  rcases openWriter_of_free h with ⟨w, s₁, hopen, h₁⟩ | ⟨e, s₁, hopen, hfree, hview⟩
  · obtain ⟨result, w₂, s₂, v₂, hrun, h₂, hresult⟩ := writeUpdate_cases now ofStore update h₁
    cases result with
    | error e =>
        obtain ⟨hfree, hview⟩ := discard_of_writes h₂
        exact ⟨.error e, Store.discard w₂ s₂, by simp only [Store.update, hopen, hrun], hfree,
          Or.inr ⟨⟨e, rfl⟩, hview⟩⟩
    | ok a =>
        have houtcome : outcome now update (view s) = (.ok a, v₂) := by
          rcases hresult with houtcome | ⟨e, he⟩
          · exact houtcome
          · cases he
        rcases commit_of_writes h₂ with
          ⟨s₃, hcommit, hfree, rfl⟩ | ⟨e, s₃, hcommit, hfree, hview⟩
        · exact ⟨.ok a, s₃, by simp only [Store.update, hopen, hrun, hcommit], hfree,
            Or.inl ⟨a, rfl, houtcome⟩⟩
        · exact ⟨.error (ofStore e), s₃, by simp only [Store.update, hopen, hrun, hcommit], hfree,
            Or.inr ⟨⟨_, rfl⟩, hview⟩⟩
  · exact ⟨.error (ofStore e), s₁, by simp only [Store.update, hopen], hfree,
      Or.inr ⟨⟨_, rfl⟩, hview⟩⟩

end FallibleStore

namespace Versioned

instance : FallibleStore Versioned Reader Writer where
  Free s := s.Bounded ∧ s.locked = false
  locked := Versioned.locked
  view := current
  Reads r v s := LawfulStore.Reads r v s ∧ s.locked = false
  Writes := LawfulStore.Writes
  locked_of_free h := h.2
  openReader_of_free := by
    rintro s ⟨hbounded, hlocked⟩
    exact Or.inl ⟨_, _, rfl, ⟨hbounded, rfl, rfl⟩, hlocked⟩
  read_of_reads := by
    rintro r v s ⟨h, hlocked⟩ key
    obtain ⟨s', hread, h'⟩ := LawfulStore.read_of_reads h key
    obtain rfl : s = s' := congrArg Prod.snd hread
    exact ⟨_, s, hread, ⟨h', hlocked⟩, Or.inl rfl⟩
  closeReader_of_reads := by
    rintro r v s ⟨h, hlocked⟩
    obtain ⟨hbounded, hview⟩ := LawfulStore.closeReader_of_reads h
    exact ⟨⟨hbounded, hlocked⟩, hview⟩
  openWriter_of_free h := Or.inl (LawfulStore.openWriter_of_ready h.1)
  peek_of_writes h key := by
    obtain ⟨w', s', hpeek, h'⟩ := LawfulStore.peek_of_writes h key
    exact ⟨_, w', s', hpeek, h', Or.inl rfl⟩
  put_of_writes h key value := Or.inl (LawfulStore.put_of_writes h key value)
  commit_of_writes h := by
    obtain ⟨s', hcommit, hbounded, hview⟩ := LawfulStore.commit_of_writes h
    cases hcommit
    exact Or.inl ⟨_, rfl, ⟨hbounded, rfl⟩, hview⟩
  discard_of_writes h := by
    obtain ⟨hbounded, hview⟩ := LawfulStore.discard_of_writes h
    exact ⟨⟨hbounded, rfl⟩, hview⟩

end Versioned

namespace Durable

instance : FallibleStore Durable Lease Lease where
  Free s := ∃ leased contents faults, s.Sound leased contents false faults
  locked := Durable.locked
  view := current
  Reads lease v s := ∃ leased contents faults,
    s.Sound (lease.serial :: leased) contents false faults ∧ lease.Sees contents ∧
      v = fun key => contents[key]?
  Writes lease base v s := ∃ leased contents bindings faults,
    s.Sound (lease.serial :: leased) contents true faults ∧ lease.Sees bindings ∧
      (base = fun key => contents[key]?) ∧ v = fun key => bindings[key]?
  locked_of_free := by
    rintro s ⟨leased, contents, faults, h⟩
    exact h.locked_eq
  openReader_of_free := by
    rintro s ⟨leased, contents, faults, h⟩
    rcases h.openReader_cases with ⟨lease, s', hopen, hsees, h'⟩ | ⟨n, s', -, hopen, h'⟩
    · exact Or.inl ⟨lease, s', hopen, leased, contents, faults, h', hsees, h.current_eq⟩
    · exact Or.inr ⟨_, s', hopen, ⟨leased, contents, n, h'⟩,
        h'.current_eq.trans h.current_eq.symm⟩
  read_of_reads := by
    rintro lease v s ⟨leased, contents, faults, h, hsees, rfl⟩ key
    rcases h.get_cases hsees key with ⟨s', hget, h'⟩ | ⟨n, s', -, hget, h'⟩
    · exact ⟨_, s', hget, ⟨leased, contents, faults, h', hsees, rfl⟩, Or.inl rfl⟩
    · exact ⟨_, s', hget, ⟨leased, contents, n, h', hsees, rfl⟩, Or.inr ⟨_, rfl⟩⟩
  closeReader_of_reads := by
    rintro lease v s ⟨leased, contents, faults, h, -, rfl⟩
    exact ⟨⟨leased, contents, faults, h.abandon⟩, h.abandon.current_eq⟩
  openWriter_of_free := by
    rintro s ⟨leased, contents, faults, h⟩
    rcases h.openWriter_cases with ⟨lease, s', hopen, hsees, h'⟩ | ⟨n, s', -, hopen, h'⟩
    · exact Or.inl ⟨lease, s', hopen, leased, contents, contents, faults, h', hsees,
        h.current_eq, h.current_eq⟩
    · exact Or.inr ⟨_, s', hopen, ⟨leased, contents, n, h'⟩,
        h'.current_eq.trans h.current_eq.symm⟩
  peek_of_writes := by
    rintro lease base v s ⟨leased, contents, bindings, faults, h, hsees, rfl, rfl⟩ key
    rcases h.get_cases hsees key with ⟨s', hget, h'⟩ | ⟨n, s', -, hget, h'⟩
    · refine ⟨_, lease, s', ?_, ⟨leased, contents, bindings, faults, h', hsees, rfl, rfl⟩,
        Or.inl rfl⟩
      simp only [Store.peek, hget]
    · refine ⟨.error refused, lease, s', ?_, ⟨leased, contents, bindings, n, h', hsees, rfl, rfl⟩,
        Or.inr ⟨_, rfl⟩⟩
      simp only [Store.peek, hget]
  put_of_writes := by
    rintro lease base v s ⟨leased, contents, bindings, faults, h, hsees, rfl, rfl⟩ key value
    rcases h.put_cases hsees key value with ⟨s', hput, h'⟩ | ⟨n, s', -, hput, h'⟩
    · exact Or.inl ⟨_, s', hput, leased, contents, bindings.insert key value, faults, h', rfl, rfl,
        (view_insert bindings key value).symm⟩
    · exact Or.inr ⟨_, _, s', hput, leased, contents, bindings, n, h', hsees, rfl, rfl⟩
  commit_of_writes := by
    rintro lease base v s ⟨leased, contents, bindings, faults, h, hsees, rfl, rfl⟩
    rcases h.commit_cases hsees with ⟨s', hcommit, h'⟩ | ⟨n, s', -, hcommit, h'⟩
    · exact Or.inl ⟨s', hcommit, ⟨leased, bindings, faults, h'⟩, h'.current_eq⟩
    · exact Or.inr ⟨_, s', hcommit, ⟨leased, contents, n, h'⟩, h'.current_eq⟩
  discard_of_writes := by
    rintro lease base v s ⟨leased, contents, bindings, faults, h, -, rfl, -⟩
    exact ⟨⟨leased, contents, faults, h.discard⟩, h.discard.current_eq⟩

end Durable

end OwnershipLog
