import OwnershipLog.Proofs.Store.View
import OwnershipLog.Store.Durable
import OwnershipLog.Store.Versioned

/-!
# Both stores keep their word

The store with versions reads every chain at the current version: no chain runs
ahead of it (`Versioned.Bounded`), and a commit puts its values on top of the chains
it wrote. The durable store is as good as its map of bindings as long as it holds
nothing else and no statement is about to fail. So what is proved for every lawful
store holds of both.
-/

namespace OwnershipLog

/-- Dropping the entries under one key leaves those under the others. -/
theorem lookup_filter_ne {α β : Type} [BEq α] [LawfulBEq α] [DecidableEq α]
    {entries : List (α × β)} {key k : α} (h : k ≠ key) :
    (entries.filter fun entry => decide (entry.1 ≠ key)).lookup k = entries.lookup k := by
  induction entries with
  | nil => rfl
  | cons entry entries ih =>
      obtain ⟨k', value⟩ := entry
      by_cases hkey : k' = key
      · have hne : (k == k') = false := beq_false_of_ne (by rw [hkey]; exact h)
        rw [List.filter_cons_of_neg (by simp [hkey]), ih, List.lookup_cons, hne]
      · rw [List.filter_cons_of_pos (by simp [hkey]), List.lookup_cons, List.lookup_cons, ih]

namespace Chain

/-- The newest entry not above `version`. -/
def seenAt (version : Nat) (chain : Chain) : Option (Nat × Bytes) :=
  chain.find? fun (v, _) => decide (v ≤ version)

theorem at?_eq_seenAt (version : Nat) (chain : Chain) :
    chain.at? version = (chain.seenAt version).map Prod.snd := rfl

theorem seenAt_cons (version v : Nat) (value : Bytes) (older : Chain) :
    seenAt version ((v, value) :: older) =
      if v ≤ version then some (v, value) else older.seenAt version := by
  by_cases h : v ≤ version <;> simp [seenAt, h]

/-- No value of the chain is newer than `version`. -/
def Bounded (version : Nat) (chain : Chain) : Prop := ∀ entry ∈ chain, entry.1 ≤ version

theorem seenAt_eq_of_bounded {chain : Chain} {version later : Nat} (h : chain.Bounded version)
    (hle : version ≤ later) : chain.seenAt later = chain.seenAt version := by
  cases chain with
  | nil => rfl
  | cons entry older =>
      obtain ⟨v, value⟩ := entry
      have hv : v ≤ version := h (v, value) List.mem_cons_self
      rw [seenAt_cons, seenAt_cons, if_pos hv, if_pos (Nat.le_trans hv hle)]

theorem at?_eq_of_bounded {chain : Chain} {version later : Nat} (h : chain.Bounded version)
    (hle : version ≤ later) : chain.at? later = chain.at? version := by
  rw [at?_eq_seenAt, seenAt_eq_of_bounded h hle, at?_eq_seenAt]

theorem pruneBelow_sublist (pins : Pins) (newer : Nat) (chain : Chain) :
    (pruneBelow pins newer chain).Sublist chain := by
  induction chain generalizing newer with
  | nil => exact List.Sublist.slnil
  | cons head older ih =>
      rw [pruneBelow]
      split
      · exact (ih _).cons_cons _
      · exact (ih _).cons _

theorem prune_sublist (pins : Pins) (chain : Chain) : (chain.prune pins).Sublist chain := by
  cases chain with
  | nil => exact List.Sublist.slnil
  | cons head older => exact (pruneBelow_sublist pins head.1 older).cons_cons _

end Chain

namespace Versioned

/-- No chain runs ahead of the current version. -/
def Bounded (s : Versioned) : Prop := ∀ key, (s.chain key).Bounded s.version

/-- What is committed: every key at the current version. -/
def current (s : Versioned) : View := s.at? s.version

/-- The chains after the puts of a writer, one for each key: those written have the put on top. -/
theorem getD_foldl_publish (version : Nat) (pins : Pins) (chains : Std.HashMap Bytes Chain)
    {pending : List (Bytes × Bytes)} (hnodup : (pending.map Prod.fst).Nodup) (key : Bytes) :
    (pending.foldl (publish version pins) chains).getD key [] =
      match pending.lookup key with
      | some value => Chain.prune pins ((version, value) :: chains.getD key [])
      | none => chains.getD key [] := by
  induction pending generalizing chains with
  | nil => rfl
  | cons entry pending ih =>
      obtain ⟨k, value⟩ := entry
      rw [List.map_cons, List.nodup_cons] at hnodup
      rw [List.foldl_cons, ih _ hnodup.2]
      by_cases hk : key = k
      · subst hk
        have hnone : pending.lookup key = none := by
          rw [List.lookup_eq_none_iff]
          intro p hp
          rw [bne_iff_ne]
          rintro rfl
          exact hnodup.1 (List.mem_map.2 ⟨p, hp, rfl⟩)
        simp [hnone, publish]
      · have hne : (k == key) = false := beq_false_of_ne (Ne.symm hk)
        have hne' : (key == k) = false := beq_false_of_ne hk
        simp [List.lookup_cons, hne', publish, Std.HashMap.getD_insert, hne]

theorem chain_commit (s : Versioned) {w : Writer} (hnodup : (w.pending.map Prod.fst).Nodup)
    (key : Bytes) :
    (s.commit w).chain key =
      match w.pending.lookup key with
      | some value => Chain.prune s.pins ((s.version + 1, value) :: s.chain key)
      | none => s.chain key :=
  getD_foldl_publish (s.version + 1) s.pins s.chains hnodup key

theorem bounded_commit {s : Versioned} {w : Writer} (h : s.Bounded)
    (hnodup : (w.pending.map Prod.fst).Nodup) : (s.commit w).Bounded := by
  intro key entry hentry
  rw [chain_commit s hnodup] at hentry
  show entry.1 ≤ s.version + 1
  split at hentry
  · rcases List.mem_cons.1 ((Chain.prune_sublist _ _).subset hentry) with rfl | hmem
    · exact Nat.le_refl _
    · exact Nat.le_succ_of_le (h key entry hmem)
  · exact Nat.le_succ_of_le (h key entry hentry)

/-- A commit makes what the writer sees current. -/
theorem current_commit {s : Versioned} {w : Writer} (h : s.Bounded) (hbase : w.base = s.version)
    (hnodup : (w.pending.map Prod.fst).Nodup) : (s.commit w).current = w.get s := by
  funext key
  show ((s.commit w).chain key).at? (s.version + 1) = _
  rw [chain_commit s hnodup, Writer.get]
  cases w.pending.lookup key with
  | some value =>
      show Chain.at? _ ((s.version + 1, value) :: _) = _
      rw [Chain.at?_cons, if_pos (Nat.le_refl _)]
  | none =>
      show (s.chain key).at? (s.version + 1) = s.at? w.base key
      rw [Chain.at?_eq_of_bounded (h key) (Nat.le_succ _), hbase]
      rfl

theorem nodup_put {w : Writer} (hnodup : (w.pending.map Prod.fst).Nodup) (key value : Bytes) :
    ((w.put key value).pending.map Prod.fst).Nodup := by
  have hfresh : key ∉ (w.pending.filter fun entry => decide (entry.1 ≠ key)).map Prod.fst := by
    intro hmem
    obtain ⟨entry, hentry, rfl⟩ := List.mem_map.1 hmem
    exact absurd rfl (of_decide_eq_true (List.mem_filter.1 hentry).2)
  rw [Writer.put, List.map_cons, List.nodup_cons]
  exact ⟨hfresh, (List.filter_sublist.map _).nodup hnodup⟩

/-- A put changes what the writer sees under its key only. -/
theorem get_put (s : Versioned) (w : Writer) (key value : Bytes) :
    (w.put key value).get s = View.put (w.get s) key value := by
  funext k
  by_cases h : k = key
  · subst h
    simp [Writer.get, Writer.put]
  · have hne : (k == key) = false := beq_false_of_ne h
    rw [View.put_of_ne _ _ h, Writer.get, Writer.get, Writer.put]
    simp only [List.lookup_cons, hne, lookup_filter_ne h]

instance : LawfulStore Versioned Reader Writer where
  Ready s := s.Bounded
  view := current
  Reads r v s := s.Bounded ∧ r.version = s.version ∧ v = s.current
  Writes w base v s := s.Bounded ∧ w.base = s.version ∧ (w.pending.map Prod.fst).Nodup ∧
    base = s.current ∧ v = w.get s
  openReader_of_ready := by
    intro s hs
    exact ⟨⟨s.version⟩, _, rfl, hs, rfl, rfl⟩
  read_of_reads := by
    rintro r v s ⟨hs, hr, rfl⟩ key
    refine ⟨s, ?_, hs, hr, rfl⟩
    show (Except.ok (s.at? r.version key), s) = _
    rw [hr]
    rfl
  closeReader_of_reads := by
    rintro r v s ⟨hs, -, rfl⟩
    exact ⟨hs, rfl⟩
  openWriter_of_ready := by
    intro s hs
    exact ⟨⟨s.version, []⟩, _, rfl, hs, rfl, List.nodup_nil, rfl, rfl⟩
  peek_of_writes := by
    rintro w base v s ⟨hs, hbase, hnodup, rfl, rfl⟩ key
    exact ⟨w, s, rfl, hs, hbase, hnodup, rfl, rfl⟩
  put_of_writes := by
    rintro w base v s ⟨hs, hbase, hnodup, rfl, rfl⟩ key value
    exact ⟨w.put key value, s, rfl, hs, hbase, nodup_put hnodup key value, rfl,
      (get_put s w key value).symm⟩
  commit_of_writes := by
    rintro w base v s ⟨hs, hbase, hnodup, rfl, rfl⟩
    exact ⟨s.commit w, rfl, bounded_commit hs hnodup, current_commit hs hbase hnodup⟩
  discard_of_writes := by
    rintro w base v s ⟨hs, -, -, rfl, -⟩
    exact ⟨hs, rfl⟩

theorem bounded_empty : empty.Bounded := by
  intro key entry hentry
  simp [chain, empty] at hentry

theorem current_empty : empty.current = View.empty := by
  funext key
  simp [current, Versioned.at?, chain, empty, View.empty]

end Versioned

namespace Durable

/-- What is committed, as long as the database holds bindings and nothing else. -/
def current (s : Durable) : View :=
  match s.committed with
  | .plain contents => fun key => contents[key]?
  | .paged _ _ => View.empty

/-- The database holds these bindings and nothing else, and no statement is about to fail. -/
structure Holding (contents : Contents) (s : Durable) : Prop where
  committed_eq : s.committed = .plain contents
  outcomes_eq : s.outcomes = []
  mishaps_eq : s.mishaps = []

variable {contents : Contents} {s : Durable}

theorem Holding.current_eq (h : s.Holding contents) : s.current = fun key => contents[key]? := by
  rw [current, h.committed_eq]

theorem Holding.statement_eq (h : s.Holding contents) : s.statement = (true, s) := by
  rw [statement, h.outcomes_eq]

theorem Holding.mishap?_eq (h : s.Holding contents) (connection : Connection) :
    s.mishap? connection = none := by
  rw [mishap?, h.mishaps_eq]
  rfl

/-- Whatever happens to the connections, the database is the same. -/
theorem Holding.of_same {s' : Durable} (h : s.Holding contents)
    (hcommitted : s'.committed = s.committed) (houtcomes : s'.outcomes = s.outcomes)
    (hmishaps : s'.mishaps = s.mishaps) : s'.Holding contents :=
  ⟨hcommitted.trans h.committed_eq, houtcomes.trans h.outcomes_eq, hmishaps.trans h.mishaps_eq⟩

theorem Holding.begin_eq (h : s.Holding contents) :
    ∃ lease s', s.begin = (.ok lease, s') ∧ s'.Holding contents := by
  have hadmits : s.committed.admits = true := by rw [h.committed_eq]; rfl
  cases hidle : s.idle with
  | nil =>
      refine ⟨⟨⟨s.opened, .begun⟩⟩, { s with opened := s.opened + 1 }, ?_, h.of_same rfl rfl rfl⟩
      have hacquire : s.acquire = (.ok ⟨s.opened, .clean⟩, { s with opened := s.opened + 1 }) := by
        simp only [acquire, hidle, connect, h.statement_eq, hadmits, if_true]
      have hnext : ({ s with opened := s.opened + 1 } : Durable).Holding contents :=
        h.of_same rfl rfl rfl
      simp only [begin, hacquire, hnext.statement_eq]
  | cons connection idle =>
      refine ⟨⟨{ connection with session := .begun }⟩, { s with idle := idle }, ?_,
        h.of_same rfl rfl rfl⟩
      have hacquire : s.acquire = (.ok connection, { s with idle := idle }) := by
        rw [acquire, hidle]
      have hnext : ({ s with idle := idle } : Durable).Holding contents := h.of_same rfl rfl rfl
      simp only [begin, hacquire, hnext.statement_eq]

theorem Holding.openReader_eq (h : s.Holding contents) :
    ∃ (lease : Lease) (s' : Durable), s.openReader = (.ok (lease.seeing (.plain contents)), s') ∧
      s'.Holding contents := by
  obtain ⟨lease, s', hbegin, h'⟩ := h.begin_eq
  refine ⟨lease, s', ?_, h'⟩
  simp only [openReader, hbegin, h'.statement_eq, h'.committed_eq]
  rfl

theorem Holding.openWriter_eq (h : s.Holding contents) :
    ∃ (lease : Lease) (s' : Durable), s.openWriter = (.ok (lease.seeing (.plain contents)), s') ∧
      s'.Holding contents := by
  obtain ⟨lease, s', hbegin, h'⟩ :=
    Holding.begin_eq (s := { s with locked := true }) (h.of_same rfl rfl rfl)
  refine ⟨lease, s', ?_, h'⟩
  simp only [openWriter, hbegin, h'.committed_eq, Database.begun_plain]

theorem Holding.get_seeing (h : s.Holding contents) {lease : Lease} {bindings : Contents}
    (hlease : lease.connection.session = .sees (.plain bindings)) (key : Bytes) :
    get lease key s = (.ok bindings[key]?, s) := by
  simp [get, h.statement_eq, h.mishap?_eq, hlease, Session.view]

theorem Holding.forget_eq (h : s.Holding contents) (connection : Connection) :
    s.forget connection = s := by
  have hnil : s.mishaps.filter (·.1 ≠ connection.serial) = s.mishaps := by rw [h.mishaps_eq]; rfl
  rw [forget, hnil]

theorem Holding.release (h : s.Holding contents) (connection : Connection) :
    (Durable.release connection s).Holding contents := by
  unfold Durable.release
  split
  · exact h.of_same rfl rfl rfl
  · exact h

theorem Holding.abandon (h : s.Holding contents) (lease : Lease) :
    (Durable.abandon lease s).Holding contents := by
  simp only [Durable.abandon, h.statement_eq, h.mishap?_eq, h.forget_eq]
  exact h.release _

theorem Holding.put_seeing (h : s.Holding contents) {lease : Lease} {bindings : Contents}
    (hlease : lease.connection.session = .sees (.plain bindings)) (key value : Bytes) :
    put key value lease s = (.ok (), lease.seeing (.plain (bindings.insert key value)), s) := by
  simp [put, h.statement_eq, h.mishap?_eq, hlease, Session.view]

theorem Holding.commit_seeing (h : s.Holding contents) {lease : Lease} {bindings : Contents}
    (hlease : lease.connection.session = .sees (.plain bindings)) :
    ∃ s', commit lease s = (.ok (), s') ∧ s'.Holding bindings := by
  have hcommitted : ({ s with committed := .plain bindings, locked := false } : Durable).Holding
      bindings := ⟨rfl, h.outcomes_eq, h.mishaps_eq⟩
  refine ⟨_, ?_, hcommitted.release ⟨lease.connection.serial, .clean⟩⟩
  simp [commit, h.statement_eq, h.mishap?_eq, hlease, Session.view, Database.owes]

theorem view_insert (bindings : Contents) (key value : Bytes) :
    (fun k => (bindings.insert key value)[k]?) = View.put (fun k => bindings[k]?) key value := by
  funext k
  by_cases hk : k = key
  · subst hk
    simp
  · rw [View.put_of_ne _ _ hk, Std.HashMap.getElem?_insert, if_neg (by simpa using Ne.symm hk)]

instance : LawfulStore Durable Lease Lease where
  Ready s := ∃ contents, s.Holding contents
  view := current
  Reads lease v s := ∃ contents, s.Holding contents ∧
    lease.connection.session = .sees (.plain contents) ∧ v = fun key => contents[key]?
  Writes lease base v s := ∃ contents bindings : Contents, s.Holding contents ∧
    lease.connection.session = .sees (.plain bindings) ∧ (base = fun key => contents[key]?) ∧
    v = fun key => bindings[key]?
  openReader_of_ready := by
    rintro s ⟨contents, h⟩
    obtain ⟨lease, s', hopen, h'⟩ := h.openReader_eq
    exact ⟨_, s', hopen, contents, h', rfl, h.current_eq⟩
  read_of_reads := by
    rintro lease v s ⟨contents, h, hlease, rfl⟩ key
    exact ⟨s, h.get_seeing hlease key, contents, h, hlease, rfl⟩
  closeReader_of_reads := by
    rintro lease v s ⟨contents, h, -, rfl⟩
    exact ⟨⟨contents, h.abandon lease⟩, (h.abandon lease).current_eq⟩
  openWriter_of_ready := by
    rintro s ⟨contents, h⟩
    obtain ⟨lease, s', hopen, h'⟩ := h.openWriter_eq
    exact ⟨_, s', hopen, contents, contents, h', rfl, h.current_eq, h.current_eq⟩
  peek_of_writes := by
    rintro lease base v s ⟨contents, bindings, h, hlease, rfl, rfl⟩ key
    refine ⟨lease, s, ?_, contents, bindings, h, hlease, rfl, rfl⟩
    show ((get lease key s).1, lease, (get lease key s).2) = _
    rw [h.get_seeing hlease key]
  put_of_writes := by
    rintro lease base v s ⟨contents, bindings, h, hlease, rfl, rfl⟩ key value
    exact ⟨_, s, h.put_seeing hlease key value, contents, bindings.insert key value, h, rfl, rfl,
      (view_insert bindings key value).symm⟩
  commit_of_writes := by
    rintro lease base v s ⟨contents, bindings, h, hlease, rfl, rfl⟩
    obtain ⟨s', hcommit, h'⟩ := h.commit_seeing hlease
    exact ⟨s', hcommit, ⟨bindings, h'⟩, h'.current_eq⟩
  discard_of_writes := by
    rintro lease base v s ⟨contents, bindings, h, -, rfl, -⟩
    have h' : ({ s.abandon lease with locked := false } : Durable).Holding contents :=
      (h.abandon lease).of_same rfl rfl rfl
    exact ⟨⟨contents, h'⟩, h'.current_eq⟩

end Durable

end OwnershipLog
