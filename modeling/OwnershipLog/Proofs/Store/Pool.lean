import OwnershipLog.Proofs.Store.Snapshot

/-!
# Connections under failing statements

Any statement that is sent to the durable store may fail, and what its transaction does
then decides whether the connection can be used again. `Durable.Sound` is what no course
of failures breaks: an idle connection has nothing open, there are few idle ones, and no
connection is idle and leased, or leased twice. For each call of the store there is one
lemma that says what it answers and where it leads when its statements succeed, and
that it does nothing when one of them fails.
-/

namespace OwnershipLog

namespace Durable

/-- The name of the connection that is leased. -/
def Lease.serial (lease : Lease) : Nat := lease.connection.serial

/-- The transaction of the lease sees these bindings and nothing else. -/
def Lease.Sees (bindings : Contents) (lease : Lease) : Prop :=
  lease.connection.session = .sees (.plain bindings)

theorem Lease.sees_seeing (lease : Lease) (bindings : Contents) :
    (lease.seeing (.plain bindings)).Sees bindings := rfl

/-- The database holds these bindings and nothing else, a writer is open or none is, at most
`faults` of the statements to come fail, and the pool has kept account of its connections, of which
these are leased. -/
structure Sound (leased : List Nat) (contents : Contents) (locked : Bool) (faults : Nat)
    (s : Durable) : Prop where
  committed_eq : s.committed = .plain contents
  mishaps_eq : s.mishaps = []
  locked_eq : s.locked = locked
  faults_le : s.outcomes.count false ≤ faults
  clean : ∀ connection ∈ s.idle, connection.session = .clean
  length_le : s.idle.length ≤ maxIdle
  nodup : (leased ++ s.idle.map Connection.serial).Nodup
  lt_opened : ∀ serial ∈ leased ++ s.idle.map Connection.serial, serial < s.opened

namespace Sound

variable {leased others : List Nat} {contents bindings : Contents} {locked : Bool}
  {faults serial : Nat} {lease : Lease} {s : Durable}

theorem current_eq (h : s.Sound leased contents locked faults) :
    s.current = fun key => contents[key]? := by
  rw [current, h.committed_eq]

theorem mishap?_eq (h : s.Sound leased contents locked faults) (connection : Connection) :
    s.mishap? connection = none := by
  rw [mishap?, h.mishaps_eq]
  rfl

theorem forget_eq (h : s.Sound leased contents locked faults) (connection : Connection) :
    s.forget connection = s := by
  have hnil : s.mishaps.filter (·.1 ≠ connection.serial) = s.mishaps := by rw [h.mishaps_eq]; rfl
  rw [forget, hnil]

/-- No more statements fail than were expected to. -/
theorem mono (h : s.Sound leased contents locked faults) {more : Nat} (hle : faults ≤ more) :
    s.Sound leased contents locked more :=
  { h with faults_le := Nat.le_trans h.faults_le hle }

theorem perm (h : s.Sound leased contents locked faults) (hperm : leased.Perm others) :
    s.Sound others contents locked faults :=
  { h with
    nodup := (hperm.append_right _).nodup_iff.1 h.nodup
    lt_opened := fun n hn => h.lt_opened n ((hperm.append_right _).mem_iff.2 hn) }

/-- A leased connection may be closed. -/
theorem close (h : s.Sound (serial :: leased) contents locked faults) :
    s.Sound leased contents locked faults :=
  { h with
    nodup := (List.nodup_cons.1 h.nodup).2
    lt_opened := fun n hn => h.lt_opened n (List.mem_cons_of_mem _ hn) }

/-- The database and the lock are no business of the pool. -/
theorem settle (h : s.Sound leased contents locked faults) (bindings : Contents) (locked' : Bool) :
    ({ s with committed := .plain bindings, locked := locked' } : Durable).Sound
      leased bindings locked' faults :=
  { h with committed_eq := rfl, locked_eq := rfl }

theorem lock (h : s.Sound leased contents locked faults) (locked' : Bool) :
    ({ s with locked := locked' } : Durable).Sound leased contents locked' faults :=
  { h with locked_eq := rfl }

/-- One statement: it succeeds, or there is one failure fewer to come. -/
theorem statement_cases (h : s.Sound leased contents locked faults) :
    (∃ s', s.statement = (true, s') ∧ s'.Sound leased contents locked faults) ∨
      ∃ n s', n < faults ∧ s.statement = (false, s') ∧ s'.Sound leased contents locked n := by
  have hfaults := h.faults_le
  cases houtcomes : s.outcomes with
  | nil => exact Or.inl ⟨s, by rw [statement, houtcomes], h⟩
  | cons outcome rest =>
      rw [houtcomes] at hfaults
      have hstatement : s.statement = (outcome, { s with outcomes := rest }) := by
        rw [statement, houtcomes]
      cases outcome with
      | true =>
          refine Or.inl ⟨_, hstatement, { h with faults_le := ?_ }⟩
          simpa using hfaults
      | false =>
          rw [List.count_cons_self] at hfaults
          exact Or.inr ⟨rest.count false, _, hfaults, hstatement,
            { h with faults_le := Nat.le_refl _ }⟩

theorem connect_cases (h : s.Sound leased contents locked faults) :
    (∃ connection s', s.connect = (.ok connection, s') ∧
      s'.Sound (connection.serial :: leased) contents locked faults) ∨
    ∃ n s', n < faults ∧ s.connect = (.error refused, s') ∧
      s'.Sound leased contents locked n := by
  rcases h.statement_cases with ⟨s', hstatement, h'⟩ | ⟨n, s', hn, hstatement, h'⟩
  · have hadmits : s'.committed.admits = true := by rw [h'.committed_eq]; rfl
    refine Or.inl ⟨⟨s'.opened, .clean⟩, { s' with opened := s'.opened + 1 }, ?_, ?_⟩
    · simp only [connect, hstatement, hadmits, if_true]
    · -- No connection so far has the next number.
      have hfresh : s'.opened ∉ leased ++ s'.idle.map Connection.serial := fun hmem =>
        Nat.lt_irrefl _ (h'.lt_opened _ hmem)
      exact { h' with
        nodup := List.nodup_cons.2 ⟨hfresh, h'.nodup⟩
        lt_opened := List.forall_mem_cons.2 ⟨Nat.lt_succ_self _, fun m hm =>
          Nat.lt_succ_of_lt (h'.lt_opened m hm)⟩ }
  · exact Or.inr ⟨n, s', hn, by simp only [connect, hstatement], h'⟩

theorem acquire_cases (h : s.Sound leased contents locked faults) :
    (∃ connection s', s.acquire = (.ok connection, s') ∧
      s'.Sound (connection.serial :: leased) contents locked faults) ∨
    ∃ n s', n < faults ∧ s.acquire = (.error refused, s') ∧
      s'.Sound leased contents locked n := by
  cases hidle : s.idle with
  | nil => simpa only [acquire, hidle] using h.connect_cases
  | cons connection idle =>
      have hperm : (leased ++ s.idle.map Connection.serial).Perm
          (connection.serial :: leased ++ idle.map Connection.serial) := by
        rw [hidle]
        exact List.perm_middle
      have hclean := h.clean
      have hlength := h.length_le
      rw [hidle] at hclean hlength
      refine Or.inl ⟨connection, { s with idle := idle }, by rw [acquire, hidle], ?_⟩
      exact { h with
        clean := fun c hc => hclean c (List.mem_cons_of_mem _ hc)
        length_le := Nat.le_trans (Nat.le_succ _) hlength
        nodup := hperm.nodup_iff.1 h.nodup
        lt_opened := fun m hm => h.lt_opened m (hperm.mem_iff.2 hm) }

/-- A transaction begins on a connection that nobody else has, or the connection is closed. -/
theorem begin_cases (h : s.Sound leased contents locked faults) :
    (∃ lease s', s.begin = (.ok lease, s') ∧
      s'.Sound (lease.serial :: leased) contents locked faults) ∨
    ∃ n s', n < faults ∧ s.begin = (.error refused, s') ∧ s'.Sound leased contents locked n := by
  rcases h.acquire_cases with ⟨connection, s₁, hacquire, h₁⟩ | ⟨n, s₁, hn, hacquire, h₁⟩
  · rcases h₁.statement_cases with ⟨s₂, hstatement, h₂⟩ | ⟨n, s₂, hn, hstatement, h₂⟩
    · exact Or.inl ⟨⟨{ connection with session := .begun }⟩, s₂,
        by simp only [begin, hacquire, hstatement], h₂⟩
    · exact Or.inr ⟨n, s₂, hn, by simp only [begin, hacquire, hstatement], h₂.close⟩
  · exact Or.inr ⟨n, s₁, hn, by simp only [begin, hacquire], h₁⟩

/-- A connection whose transaction is over goes back among the idle ones, or is closed. -/
theorem release (h : s.Sound (serial :: leased) contents locked faults) :
    (Durable.release ⟨serial, .clean⟩ s).Sound leased contents locked faults := by
  unfold Durable.release
  split
  · rename_i hroom
    have hperm : (serial :: leased ++ s.idle.map Connection.serial).Perm
        (leased ++ serial :: s.idle.map Connection.serial) := List.perm_middle.symm
    exact { h with
      clean := List.forall_mem_cons.2 ⟨rfl, h.clean⟩
      length_le := hroom
      nodup := hperm.nodup_iff.1 h.nodup
      lt_opened := fun m hm => h.lt_opened m (hperm.mem_iff.2 hm) }
  · exact h.close

/-- A transaction that is given up leaves its connection clean or takes it along. -/
theorem abandon (h : s.Sound (lease.serial :: leased) contents locked faults) :
    (Durable.abandon lease s).Sound leased contents locked faults := by
  rcases h.statement_cases with ⟨s', hstatement, h'⟩ | ⟨n, s', hn, hstatement, h'⟩
  · simp only [Durable.abandon, hstatement, h'.mishap?_eq, h'.forget_eq]
    exact h'.release
  · simp only [Durable.abandon, hstatement, h'.forget_eq]
    exact (h'.mono (Nat.le_of_lt hn)).close

theorem openReader_cases (h : s.Sound leased contents locked faults) :
    (∃ lease s', s.openReader = (.ok lease, s') ∧ lease.Sees contents ∧
      s'.Sound (lease.serial :: leased) contents locked faults) ∨
    ∃ n s', n < faults ∧ s.openReader = (.error refused, s') ∧
      s'.Sound leased contents locked n := by
  rcases h.begin_cases with ⟨lease, s₁, hbegin, h₁⟩ | ⟨n, s₁, hn, hbegin, h₁⟩
  · rcases h₁.statement_cases with ⟨s₂, hstatement, h₂⟩ | ⟨n, s₂, hn, hstatement, h₂⟩
    · refine Or.inl ⟨lease.seeing (.plain contents), s₂, ?_, lease.sees_seeing contents, h₂⟩
      simp only [openReader, hbegin, hstatement, h₂.committed_eq]
      rfl
    · exact Or.inr ⟨n, _, hn, by simp only [openReader, hbegin, hstatement], h₂.abandon⟩
  · exact Or.inr ⟨n, s₁, hn, by simp only [openReader, hbegin], h₁⟩

theorem openWriter_cases (h : s.Sound leased contents false faults) :
    (∃ lease s', s.openWriter = (.ok lease, s') ∧ lease.Sees contents ∧
      s'.Sound (lease.serial :: leased) contents true faults) ∨
    ∃ n s', n < faults ∧ s.openWriter = (.error refused, s') ∧
      s'.Sound leased contents false n := by
  rcases (h.lock true).begin_cases with ⟨lease, s₁, hbegin, h₁⟩ | ⟨n, s₁, hn, hbegin, h₁⟩
  · refine Or.inl ⟨lease.seeing (.plain contents), s₁, ?_, lease.sees_seeing contents, h₁⟩
    simp only [openWriter, hbegin, h₁.committed_eq, Database.begun_plain]
  · exact Or.inr ⟨n, _, hn, by simp only [openWriter, hbegin], h₁.lock false⟩

theorem get_cases (h : s.Sound leased contents locked faults) (hlease : lease.Sees bindings)
    (key : Bytes) :
    (∃ s', get lease key s = (.ok bindings[key]?, s') ∧
      s'.Sound leased contents locked faults) ∨
    ∃ n s', n < faults ∧ get lease key s = (.error refused, s') ∧
      s'.Sound leased contents locked n := by
  rcases h.statement_cases with ⟨s', hstatement, h'⟩ | ⟨n, s', hn, hstatement, h'⟩
  · refine Or.inl ⟨s', ?_, h'⟩
    rw [Lease.Sees] at hlease
    simp [get, hstatement, h'.mishap?_eq, hlease, Session.view]
  · exact Or.inr ⟨n, s', hn, by simp only [get, hstatement], h'⟩

theorem put_cases (h : s.Sound leased contents locked faults) (hlease : lease.Sees bindings)
    (key value : Bytes) :
    (∃ s', put key value lease s =
        (.ok (), lease.seeing (.plain (bindings.insert key value)), s') ∧
      s'.Sound leased contents locked faults) ∨
    ∃ n s', n < faults ∧ put key value lease s = (.error refused, lease, s') ∧
      s'.Sound leased contents locked n := by
  rcases h.statement_cases with ⟨s', hstatement, h'⟩ | ⟨n, s', hn, hstatement, h'⟩
  · refine Or.inl ⟨s', ?_, h'⟩
    rw [Lease.Sees] at hlease
    simp [put, hstatement, h'.mishap?_eq, hlease, Session.view]
  · exact Or.inr ⟨n, s', hn, by simp only [put, hstatement], h'⟩

theorem discard (h : s.Sound (lease.serial :: leased) contents locked faults) :
    ({ s.abandon lease with locked := false } : Durable).Sound leased contents false faults :=
  h.abandon.lock false

/-- A commit publishes all that the writer sees, or nothing. -/
theorem commit_cases (h : s.Sound (lease.serial :: leased) contents locked faults)
    (hlease : lease.Sees bindings) :
    (∃ s', commit lease s = (.ok (), s') ∧ s'.Sound leased bindings false faults) ∨
    ∃ n s', n < faults ∧ commit lease s = (.error refused, s') ∧
      s'.Sound leased contents false n := by
  rcases h.statement_cases with ⟨s', hstatement, h'⟩ | ⟨n, s', hn, hstatement, h'⟩
  · refine Or.inl ⟨_, ?_, (h'.settle bindings false).release⟩
    rw [Lease.Sees] at hlease
    simp [commit, hstatement, h'.mishap?_eq, hlease, Session.view, Database.owes, Lease.serial]
  · exact Or.inr ⟨n, _, hn, by simp only [commit, hstatement], h'.discard⟩

end Sound

/-- A store over bindings is sound before its first transaction, whatever becomes of its
statements. -/
theorem sound_ofDatabase (contents : Contents) (outcomes : List Bool) :
    ({ ofDatabase (.plain contents) with outcomes } : Durable).Sound [] contents false
      (outcomes.count false) where
  committed_eq := rfl
  mishaps_eq := rfl
  locked_eq := rfl
  faults_le := Nat.le_refl _
  clean := by simp [ofDatabase]
  length_le := by simp [ofDatabase, maxIdle]
  nodup := by simp [ofDatabase]
  lt_opened := by simp [ofDatabase]

end Durable

end OwnershipLog
