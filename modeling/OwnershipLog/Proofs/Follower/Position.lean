import OwnershipLog.Proofs.Follower.Live

/-!
# The position of a follower

Nothing is assumed of a source here: it may report any size, answer a request with fewer or
more leaves than were asked for, with none, or with an error. `LeafSource.recorded` is a
source with a record of the pages asked for. One round of a pull either ends it or asks for
the next page where the leaves that just came end (`Follower.Pulls`), and every poll is such a
pull (`Follower.pull_recorded`) as long as the sums on its way are words
(`Follower.Overflows`): then the position only grows, and the poll ends. So what a poll asks for,
what it returns and where it leaves the follower is read off the record
(`Follower.PositionExact`), and a poll after one that failed returns what that one had found
(`Follower.poll_keeps_position`).
-/

namespace OwnershipLog

namespace LeafSource

/-- A request for a page and the answer to it. -/
structure Exchange where
  start : UInt64
  stop : UInt64
  answer : Except LogError (List Leaf)

/-- The leaves that an answer brings. -/
def Exchange.leaves (x : Exchange) : List Leaf := x.answer.toOption.getD []

/-- The leaves that came, in order. -/
def served (record : List Exchange) : List Leaf := record.flatMap Exchange.leaves

/-- The first page starts at `next`, and each later one where the leaves that just came end. -/
def Contiguous : (next : Nat) → List Exchange → Prop
  | _, [] => True
  | next, x :: rest => x.start.toNat = next ∧ Contiguous (next + x.leaves.length) rest

/-- Each answer is a piece of the log, from where it was asked for. -/
def CutFrom (log : List Leaf) (record : List Exchange) : Prop :=
  ∀ x ∈ record, x.leaves <+: log.drop x.start.toNat

instance (log : List Leaf) (record : List Exchange) : Decidable (CutFrom log record) :=
  inferInstanceAs (Decidable (∀ x ∈ record, x.leaves <+: log.drop x.start.toNat))

/-- A source with a record of the pages asked for and the answers to them. -/
def recorded {σ : Type} (source : LeafSource σ) : LeafSource (σ × List Exchange) where
  size st :=
    let (size, s) := source.size st.1
    (size, s, st.2)
  entries start stop st :=
    let (answer, s) := source.entries start stop st.1
    (answer, s, st.2 ++ [⟨start, stop, answer⟩])

@[simp] theorem served_nil : served [] = [] := rfl

@[simp] theorem served_cons (x : Exchange) (rest : List Exchange) :
    served (x :: rest) = x.leaves ++ served rest := rfl

/-- Pages that are cut from one log, each where the one before ended, make a piece of it. -/
theorem Contiguous.served_prefix {log : List Leaf} {next : Nat} {record : List Exchange}
    (h : Contiguous next record) (hcut : CutFrom log record) : served record <+: log.drop next := by
  induction record generalizing next with
  | nil => exact List.nil_prefix
  | cons x rest ih =>
      obtain ⟨rfl, hrest⟩ := h
      rw [CutFrom, List.forall_mem_cons] at hcut
      obtain ⟨behind, hbehind⟩ := hcut.1
      have hlater := ih hrest hcut.2
      rw [← List.drop_drop, ← hbehind, List.drop_left] at hlater
      rw [served_cons, ← hbehind]
      exact (List.prefix_append_right_inj _).2 hlater

end LeafSource

namespace Follower

open LeafSource

variable {σ : Type}

/-! ## Sums on the way -/

/-- On the way of a pull from `next` some sum is no word: that of a position and the page, or that
of a position and the leaves that came there. -/
inductive Overflows (source : LeafSource σ) (page size : UInt64) : (next : UInt64) → σ → Prop where
  | page {next : UInt64} {s : σ} (hlt : next < size)
      (hpast : 2 ^ 64 ≤ next.toNat + page.toNat) : Overflows source page size next s
  | position {next : UInt64} {s s' : σ} {leaves : List Leaf} (hlt : next < size)
      (hentries : source.entries next (min size (next + page)) s = (.ok leaves, s'))
      (hpast : 2 ^ 64 ≤ next.toNat + leaves.length) : Overflows source page size next s
  | later {next : UInt64} {s s' : σ} {leaf : Leaf} {leaves : List Leaf} (hlt : next < size)
      (hentries : source.entries next (min size (next + page)) s = (.ok (leaf :: leaves), s'))
      (h : Overflows source page size (next + UInt64.ofNat (leaves.length + 1)) s') :
      Overflows source page size next s

/-- No sum on the way of a poll leaves the words, whatever size is reported. -/
def SumsFit (source : LeafSource σ) (follower : Follower) (s : σ) : Prop :=
  ∀ size s', source.size s = (.ok size, s') →
    ¬ Overflows source follower.page size follower.next s'

/-- Nothing overflows if there is room for a page, and for as many leaves as the source ever hands
out at a time, behind every position below the size. -/
theorem not_overflows_of_le {source : LeafSource σ} {page size next : UInt64} {s : σ} {n : Nat}
    (hserves : ∀ start stop s leaves s', source.entries start stop s = (.ok leaves, s') →
      leaves.length ≤ n)
    (hroom : size.toNat + max page.toNat n ≤ 2 ^ 64) : ¬ Overflows source page size next s := by
  intro h
  induction h with
  | page hlt hpast =>
      rw [UInt64.lt_iff_toNat_lt] at hlt
      omega
  | position hlt hentries hpast =>
      have hlength := hserves _ _ _ _ _ hentries
      rw [UInt64.lt_iff_toNat_lt] at hlt
      omega
  | later hlt hentries h ih => exact ih

theorem map_index_number {next : UInt64} {leaves : List Leaf}
    (h : next.toNat + leaves.length < 2 ^ 64) :
    (number next leaves).map (fun found => found.index.toNat) =
      List.range' next.toNat leaves.length := by
  induction leaves generalizing next with
  | nil => rfl
  | cons leaf leaves ih =>
      rw [List.length_cons] at h
      have hnext : (next + 1).toNat = next.toNat + 1 := toNat_add_length (n := 1) (by omega)
      rw [number, List.map_cons, ih (by omega), hnext, List.length_cons, List.range'_succ]

theorem map_leaf_number (next : UInt64) (leaves : List Leaf) :
    (number next leaves).map NewLeaf.leaf = leaves := by
  induction leaves generalizing next with
  | nil => rfl
  | cons leaf leaves ih => simp [number, ih]

theorem length_number (next : UInt64) (leaves : List Leaf) :
    (number next leaves).length = leaves.length := by
  rw [← List.length_map NewLeaf.leaf, map_leaf_number]

/-! ## Rounds of a pull -/

/-- Pages of up to `page` leaves below `size`, asked for from `next` on, and where this ends: at the
size or past it, at a page without leaves, or with the error of one that was refused. -/
inductive Pulls (page size : UInt64) :
    (next : UInt64) → List Exchange → Except LogError UInt64 → Prop where
  | reached {next : UInt64} (h : size ≤ next) : Pulls page size next [] (.ok next)
  | refused {next stop : UInt64} (e : LogError) (hlt : next < stop) (hsize : stop ≤ size)
      (hpage : stop - next ≤ page) : Pulls page size next [⟨next, stop, .error e⟩] (.error e)
  | ended {next stop : UInt64} (hlt : next < stop) (hsize : stop ≤ size)
      (hpage : stop - next ≤ page) : Pulls page size next [⟨next, stop, .ok []⟩] (.ok next)
  | more {next stop : UInt64} {leaf : Leaf} {leaves : List Leaf} {rest : List Exchange}
      {outcome : Except LogError UInt64} (hlt : next < stop) (hsize : stop ≤ size)
      (hpage : stop - next ≤ page) (hword : next.toNat + (leaves.length + 1) < 2 ^ 64)
      (h : Pulls page size (next + UInt64.ofNat (leaves.length + 1)) rest outcome) :
      Pulls page size next (⟨next, stop, .ok (leaf :: leaves)⟩ :: rest) outcome

namespace Pulls

variable {page size next : UInt64} {record : List Exchange} {outcome : Except LogError UInt64}

theorem contiguous (h : Pulls page size next record outcome) : Contiguous next.toNat record := by
  induction h with
  | reached => trivial
  | refused => exact ⟨rfl, trivial⟩
  | ended => exact ⟨rfl, trivial⟩
  | more _ _ _ hword _ ih =>
      rw [toNat_add_length hword] at ih
      exact ⟨rfl, ih⟩

theorem within (h : Pulls page size next record outcome) :
    ∀ x ∈ record, x.start < x.stop ∧ x.stop ≤ size ∧ x.stop - x.start ≤ page := by
  induction h with
  | reached => exact List.forall_mem_nil _
  | refused e hlt hsize hpage => exact List.forall_mem_singleton.2 ⟨hlt, hsize, hpage⟩
  | ended hlt hsize hpage => exact List.forall_mem_singleton.2 ⟨hlt, hsize, hpage⟩
  | more hlt hsize hpage _ _ ih => exact List.forall_mem_cons.2 ⟨⟨hlt, hsize, hpage⟩, ih⟩

theorem lt_size {next stop : UInt64} (hlt : next < stop) (hsize : stop ≤ size) :
    next.toNat < size.toNat :=
  UInt64.lt_iff_toNat_lt.1 (UInt64.lt_of_lt_of_le hlt hsize)

/-- Every page but the last brings a leaf, so there are no more pages than leaves were missing. -/
theorem length_le (h : Pulls page size next record outcome) :
    record.length ≤ size.toNat - next.toNat := by
  induction h with
  | reached => exact Nat.zero_le _
  | refused e hlt hsize _ => exact Nat.sub_pos_of_lt (lt_size hlt hsize)
  | ended hlt hsize _ => exact Nat.sub_pos_of_lt (lt_size hlt hsize)
  | more hlt hsize _ hword _ ih =>
      have hbelow := lt_size hlt hsize
      rw [toNat_add_length hword] at ih
      rw [List.length_cons]
      omega

theorem error_iff (h : Pulls page size next record outcome) (e : LogError) :
    outcome = .error e ↔ ∃ x ∈ record, x.answer = .error e := by
  induction h with
  | reached => simp
  | refused => simp
  | ended => simp
  | more _ _ _ _ _ ih => simp [ih]

/-- It ends where the leaves that came end. -/
theorem stop_eq (h : Pulls page size next record outcome) {stop : UInt64}
    (hok : outcome = .ok stop) : stop.toNat = next.toNat + (served record).length := by
  induction h with
  | reached => cases hok; rfl
  | refused => cases hok
  | ended => cases hok; rfl
  | more _ _ _ hword _ ih =>
      rw [ih hok, toNat_add_length hword, served_cons, List.length_append, Nat.add_assoc]
      rfl

/-- It ends below the size only at a page without leaves. -/
theorem le_or_ended (h : Pulls page size next record outcome) {stop : UInt64}
    (hok : outcome = .ok stop) : size ≤ stop ∨ ∃ x ∈ record, x.answer = .ok [] := by
  induction h with
  | reached hle => cases hok; exact Or.inl hle
  | refused => cases hok
  | ended => exact Or.inr ⟨_, List.mem_singleton_self _, rfl⟩
  | more _ _ _ _ _ ih =>
      exact (ih hok).imp_right fun ⟨x, hmem, hanswer⟩ => ⟨x, List.mem_cons_of_mem _ hmem, hanswer⟩

end Pulls

theorem entries_recorded (source : LeafSource σ) {start stop : UInt64} {s s' : σ}
    {answer : Except LogError (List Leaf)} (h : source.entries start stop s = (answer, s'))
    (before : List Exchange) : source.recorded.entries start stop (s, before) =
      (answer, s', before ++ [⟨start, stop, answer⟩]) := by
  simp only [recorded, h]

/-- A pull asks for pages in this way, and returns what it had found before and the leaves that
came, numbered from `next` on; to keep a record changes nothing. -/
theorem pull_recorded (source : LeafSource σ) {page : UInt64} (hpos : 0 < page)
    (size next : UInt64) (found : List NewLeaf) (s : σ) (before : List Exchange)
    (hsums : ¬ Overflows source page size next s) :
    ∃ record outcome s', Pulls page size next record outcome ∧
      source.pull page size next found s =
        some (outcome.map fun stop => (found ++ number next (served record), stop), s') ∧
      source.recorded.pull page size next found (s, before) =
        some (outcome.map fun stop => (found ++ number next (served record), stop),
          s', before ++ record) := by
  -- by how much is left to pull: the position grows as long as no sum overflows
  induction hrest : size.toNat - next.toNat using Nat.strongRecOn
    generalizing next found s before with
  | _ rest ih =>
    by_cases hlt : next < size
    · have hsum : next.toNat + page.toNat < 2 ^ 64 :=
        Nat.not_le.1 fun hpast => hsums (.page hlt hpast)
      obtain ⟨hstop, hmore, hpage⟩ := page_of_lt hpos hlt hsum
      have hsize : min size (next + page) ≤ size := by
        rw [UInt64.le_iff_toNat_le, hstop]
        exact Nat.min_le_left _ _
      cases hanswer : source.entries next (min size (next + page)) s with
      | mk answer s₁ =>
        have hrecorded := entries_recorded source hanswer before
        cases answer with
        | error e =>
            exact ⟨_, _, s₁, .refused e hmore hsize hpage, pull_of_error hlt hanswer,
              pull_of_error hlt hrecorded⟩
        | ok leaves =>
          cases leaves with
          | nil =>
              refine ⟨_, _, s₁, .ended hmore hsize hpage, ?_, ?_⟩
              · rw [pull_of_nil hlt hanswer]
                simp [number, Except.map, served, Exchange.leaves, Except.toOption]
              · rw [pull_of_nil hlt hrecorded]
                simp [number, Except.map, served, Exchange.leaves, Except.toOption]
          | cons leaf leaves =>
              have hword : next.toNat + (leaves.length + 1) < 2 ^ 64 :=
                Nat.not_le.1 fun hpast => hsums (.position hlt hanswer hpast)
              have hnext := toNat_add_length hword
              rw [UInt64.lt_iff_toNat_lt] at hmore
              obtain ⟨record, outcome, s', hpulls, hpull, hpull'⟩ :=
                ih (size.toNat - (next + UInt64.ofNat (leaves.length + 1)).toNat) (by omega)
                  (next + UInt64.ofNat (leaves.length + 1))
                  (found ++ number next (leaf :: leaves)) s₁
                  (before ++ [⟨next, min size (next + page), .ok (leaf :: leaves)⟩])
                  (fun hlater => hsums (.later hlt hanswer hlater)) rfl
              have hnumber : number next (leaf :: leaves) ++
                  number (next + UInt64.ofNat (leaves.length + 1)) (served record) =
                    number next ((leaf :: leaves) ++ served record) :=
                (number_append next (leaf :: leaves) _).symm
              rw [List.append_assoc found, hnumber] at hpull hpull'
              rw [List.append_assoc before] at hpull'
              exact ⟨_, outcome, s',
                .more (UInt64.lt_iff_toNat_lt.2 hmore) hsize hpage hword hpulls,
                (pull_of_cons hlt hanswer).trans hpull, (pull_of_cons hlt hrecorded).trans hpull'⟩
    · have hle := UInt64.not_lt.1 hlt
      refine ⟨[], .ok next, s, .reached hle, ?_, ?_⟩
      · rw [pull_of_le hle]
        simp [number, Except.map]
      · rw [pull_of_le hle]
        simp [number, Except.map]

/-- What a poll of a follower at `next` asks for and returns, if this is the size that the source
reported, and where it leaves the follower. -/
structure PositionExact (page next : UInt64) (reported : Except LogError UInt64)
    (record : List Exchange) (result : Except LogError (List NewLeaf)) (after : Follower) :
    Prop where
  /-- Each page is asked for where the leaves before it ended. -/
  contiguous : Contiguous next.toNat record
  within : ∀ x ∈ record, ∃ size, reported = .ok size ∧
    x.start < x.stop ∧ x.stop ≤ size ∧ x.stop - x.start ≤ max page 1
  /-- The poll ends: there are no more pages than leaves were missing. -/
  length_le : record.length ≤ (reported.toOption.getD 0).toNat - next.toNat
  /-- It fails exactly if the size or a page is refused. -/
  error_iff : ∀ e, result = .error e ↔ reported = .error e ∨ ∃ x ∈ record, x.answer = .error e
  after_of_error : ∀ e, result = .error e → after = ofNext next page
  /-- What it returns are the leaves that came, in order and numbered without a gap. -/
  index_eq : ∀ found, result = .ok found →
    found.map (fun new => new.index.toNat) = List.range' next.toNat found.length
  leaf_eq : ∀ found, result = .ok found → found.map NewLeaf.leaf = served record
  after_of_ok : ∀ found, result = .ok found →
    after = ofNext after.next page ∧ after.next.toNat = next.toNat + found.length
  /-- It stops below the size only at a page without leaves. -/
  reached : ∀ found size, result = .ok found → reported = .ok size →
    size ≤ after.next ∨ ∃ x ∈ record, x.answer = .ok []

theorem positionExact_of_error (page next : UInt64) (e : LogError) :
    PositionExact page next (.error e) [] (.error e) (ofNext next page) where
  contiguous := trivial
  within := List.forall_mem_nil _
  length_le := Nat.zero_le _
  error_iff := by simp
  after_of_error _ _ := rfl
  index_eq := by simp
  leaf_eq := by simp
  after_of_ok := by simp
  reached := by simp

theorem Pulls.positionExact_of_refused {page next size : UInt64} {record : List Exchange}
    {e : LogError} (h : Pulls (max page 1) size next record (.error e)) :
    PositionExact page next (.ok size) record (.error e) (ofNext next page) where
  contiguous := h.contiguous
  within x hx := ⟨size, rfl, h.within x hx⟩
  length_le := h.length_le
  error_iff e' := by simpa using h.error_iff e'
  after_of_error _ _ := rfl
  index_eq := by simp
  leaf_eq := by simp
  after_of_ok := by simp
  reached := by simp

theorem Pulls.positionExact_of_ok {page next size stop : UInt64} {record : List Exchange}
    (h : Pulls (max page 1) size next record (.ok stop)) :
    PositionExact page next (.ok size) record (.ok (number next (served record)))
      { ofNext next page with next := stop } where
  contiguous := h.contiguous
  within x hx := ⟨size, rfl, h.within x hx⟩
  length_le := h.length_le
  error_iff e := by simpa using h.error_iff e
  after_of_error := by simp
  index_eq := by
    rintro _ ⟨⟩
    have hstop := h.stop_eq rfl
    have hword := stop.toNat_lt
    rw [map_index_number (by omega), length_number]
  leaf_eq := by
    rintro _ ⟨⟩
    exact map_leaf_number next _
  after_of_ok := by
    rintro _ ⟨⟩
    refine ⟨rfl, ?_⟩
    rw [length_number]
    exact h.stop_eq rfl
  reached := by
    rintro _ _ ⟨⟩ ⟨⟩
    exact h.le_or_ended rfl

theorem size_recorded (source : LeafSource σ) {s s' : σ} {reported : Except LogError UInt64}
    (h : source.size s = (reported, s')) (record : List Exchange) :
    source.recorded.size (s, record) = (reported, s', record) := by
  simp only [recorded, h]

theorem poll_recorded (source : LeafSource σ) (next page : UInt64) (s : σ)
    (hsums : SumsFit source (ofNext next page) s) :
    ∃ result after s' record,
      poll source (ofNext next page) s = some (result, after, s') ∧
      poll source.recorded (ofNext next page) (s, []) = some (result, after, s', record) ∧
      PositionExact page next (source.size s).1 record result after := by
  cases hsize : source.size s with
  | mk reported s₁ =>
    have hrecorded := size_recorded source hsize []
    cases reported with
    | error e =>
        refine ⟨.error e, _, s₁, [], ?_, ?_, positionExact_of_error page next e⟩
        · rw [poll, hsize]
        · rw [poll, hrecorded]
    | ok size =>
        obtain ⟨record, outcome, s', hpulls, hpull, hpull'⟩ :=
          pull_recorded source (ofNext next page).page_pos size next [] s₁ []
            (hsums size s₁ hsize)
        cases outcome with
        | error e =>
            exact ⟨.error e, _, s', record, poll_of_error hsize hpull,
              poll_of_error hrecorded hpull', hpulls.positionExact_of_refused⟩
        | ok stop =>
            exact ⟨_, _, s', record, poll_of_ok hsize hpull, poll_of_ok hrecorded hpull',
              hpulls.positionExact_of_ok⟩

/-- Whatever a source answers, as long as no sum on the way leaves the words, a poll ends; it asks
for pages below the size that was reported, each of them where the leaves before it ended; it
returns the leaves that came under the indices from its position on, and moves on by as many; and
if it fails it stays where it was. A later poll then returns again what the failed one had found,
if it gets as far and both were given pieces of one log. -/
theorem poll_keeps_position (source : LeafSource σ) (next page : UInt64) (s : σ)
    (hsums : SumsFit source (ofNext next page) s) :
    ∃ result after s' record,
      poll source (ofNext next page) s = some (result, after, s') ∧
      poll source.recorded (ofNext next page) (s, []) = some (result, after, s', record) ∧
      PositionExact page next (source.size s).1 record result after ∧
      ∀ e, result = .error e → ∀ (later : σ) found again s'' record',
        SumsFit source after later →
        poll source.recorded after (later, []) = some (.ok found, again, s'', record') →
        ∀ log, CutFrom log record → CutFrom log record' →
          next.toNat + (served record).length ≤ again.next.toNat →
          served record <+: found.map NewLeaf.leaf := by
  obtain ⟨result, after, s', record, hpoll, hrecorded, hexact⟩ :=
    poll_recorded source next page s hsums
  refine ⟨result, after, s', record, hpoll, hrecorded, hexact, ?_⟩
  intro e herror later found again s'' record' hsums' hagain log hcut hcut' hfar
  rw [hexact.after_of_error e herror] at hsums' hagain
  obtain ⟨_, _, _, _, -, hagain', hexact'⟩ := poll_recorded source next page later hsums'
  rw [hagain] at hagain'
  cases hagain'
  have hlength : (served record).length ≤ (served record').length := by
    rw [(hexact'.after_of_ok found rfl).2] at hfar
    rw [← hexact'.leaf_eq found rfl, List.length_map]
    exact Nat.le_of_add_le_add_left hfar
  rw [hexact'.leaf_eq found rfl]
  exact List.prefix_of_prefix_length_le (hexact.contiguous.served_prefix hcut)
    (hexact'.contiguous.served_prefix hcut') hlength

/-! ### A wilful source -/

def blankLeaf : Leaf := ⟨Timestamp.epoch, ⟨Digest.zero, ""⟩, [], [], []⟩

/-- A source of nine leaves that counts its calls. Whatever page is asked for, it hands out five
leaves at first, then one, then it fails, and from then on it hands out nine. -/
def wilful : LeafSource Nat where
  size calls := (.ok 9, calls)
  entries _ _ calls :=
    (match calls with
      | 0 => .ok (List.replicate 5 blankLeaf)
      | 1 => .ok [blankLeaf]
      | 2 => .error .encryption
      | _ => .ok (List.replicate 9 blankLeaf), calls + 1)

theorem length_le_of_wilful (start stop : UInt64) (calls : Nat) (leaves : List Leaf) (calls' : Nat)
    (h : wilful.entries start stop calls = (.ok leaves, calls')) : leaves.length ≤ 9 := by
  simp only [wilful] at h
  split at h
  · cases h
    decide
  · cases h
    decide
  · cases h
  · cases h
    decide

theorem sumsFit_wilful (follower : Follower) (hpage : follower.page = 3) (calls : Nat) :
    SumsFit wilful follower calls := by
  intro size calls' hsize
  cases hsize
  rw [hpage]
  exact not_overflows_of_le length_le_of_wilful (by decide)

/-- It fails after six leaves. -/
theorem poll_wilful : poll wilful.recorded (ofNext 0 3) (0, []) =
    some (.error .encryption, ofNext 0 3, 3, [⟨0, 3, .ok (List.replicate 5 blankLeaf)⟩,
      ⟨5, 8, .ok [blankLeaf]⟩, ⟨6, 9, .error .encryption⟩]) := by
  refine poll_of_error rfl ?_
  refine (pull_of_cons (by decide) rfl).trans ?_
  refine (pull_of_cons (by decide) rfl).trans ?_
  exact pull_of_error (by decide) rfl

/-- The next poll gets nine leaves at once. -/
theorem poll_wilful_later : poll wilful.recorded (ofNext 0 3) (3, []) =
    some (.ok (number 0 (List.replicate 9 blankLeaf)), ofNext 9 3, 4,
      [⟨0, 3, .ok (List.replicate 9 blankLeaf)⟩]) := by
  refine poll_of_ok rfl ?_
  refine (pull_of_cons (by decide) rfl).trans ?_
  exact pull_of_le (by decide)

/-- A page that is too long, one that is too short, and one that is refused: the follower stays, and
with the next poll it has the six leaves again. -/
theorem poll_keeps_position_wilful :
    SumsFit wilful (ofNext 0 3) 0 ∧ SumsFit wilful (ofNext 0 3) 3 ∧
    poll wilful (ofNext 0 3) 0 = some (.error .encryption, ofNext 0 3, 3) ∧
    PositionExact 3 0 (.ok 9) [⟨0, 3, .ok (List.replicate 5 blankLeaf)⟩,
      ⟨5, 8, .ok [blankLeaf]⟩, ⟨6, 9, .error .encryption⟩] (.error .encryption) (ofNext 0 3) ∧
    List.replicate 6 blankLeaf <+:
      (number 0 (List.replicate 9 blankLeaf)).map NewLeaf.leaf := by
  have hsums := sumsFit_wilful (ofNext 0 3) rfl 0
  have hlater := sumsFit_wilful (ofNext 0 3) rfl 3
  obtain ⟨result, after, s', record, hpoll, hrecorded, hexact, hagain⟩ :=
    poll_keeps_position wilful 0 3 0 hsums
  rw [poll_wilful] at hrecorded
  cases hrecorded
  have hcut : CutFrom (List.replicate 9 blankLeaf) [⟨0, 3, .ok (List.replicate 5 blankLeaf)⟩,
      ⟨5, 8, .ok [blankLeaf]⟩, ⟨6, 9, .error .encryption⟩] := by
    decide
  have hcut' : CutFrom (List.replicate 9 blankLeaf)
      [⟨0, 3, .ok (List.replicate 9 blankLeaf)⟩] := by
    decide
  exact ⟨hsums, hlater, hpoll, hexact,
    hagain _ rfl 3 _ _ _ _ hlater poll_wilful_later _ hcut hcut' (by decide)⟩

end Follower

end OwnershipLog
