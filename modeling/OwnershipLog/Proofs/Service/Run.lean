import OwnershipLog.Proofs.Service.Answers

/-!
# Runs of the service

A run is a list of requests, each with the instant and the nonces that it is met
with. What a run logs depends on the requests alone (`Service.logged`), and the tree
of the service holds it (`Holds.after`). What a run signs is collected as it goes
(`Service.signed`); it depends on nothing but the log either (`Holds.signed_eq`), and
every head in it states the size and the root of the log as it was at some point of
the run (`size_root_of_mem_signedOver`).
-/

namespace OwnershipLog

namespace Service

/-- A request to the service. -/
inductive Request where
  | append (now : Timestamp) (nonces : Nonce × Nonce) (entry : Entry)
  | signOwnership (now : Timestamp) (contentHash : Bytes) (name : String)
  | head (now : Timestamp)
  | proof (now : Timestamp) (index : UInt64)

variable {S R W : Type} [Store S R W]

namespace Request

/-- The service after a request. -/
def next (suite : Suite) (service : Service S) : Request → Service S
  | append now nonces entry => (service.append suite now nonces entry).2
  | signOwnership _ _ _ => service
  | head now => (service.signedHead suite now).2
  | proof now index => (service.signedProof suite now index).2

/-- What the service signs to meet a request: an ownership, or the head of what it answers. -/
def signs (suite : Suite) (service : Service S) : Request → List Signed
  | append _ _ _ => []
  | signOwnership now contentHash name => match ownershipOf contentHash name with
    | .ok o => [.ownership now o]
    | .error _ => []
  | head now => match (service.signedHead suite now).1 with
    | .ok h => [.head h]
    | .error _ => []
  | proof now index => match (service.signedProof suite now index).1 with
    | .ok p => [.head p.head]
    | .error _ => []

/-- What is signed to meet a request when the log is this one. -/
def signsOver {suite : Suite} {keys : KeyMaterial} (log : List (Logged suite keys)) :
    Request → List Signed
  | append _ _ _ => []
  | signOwnership now contentHash name => match ownershipOf contentHash name with
    | .ok o => [.ownership now o]
    | .error _ => []
  | head now => [.head (headOf log now)]
  | proof now index => if index.toNat < log.length then [.head (headOf log now)] else []

/-- The entry that a request logs. -/
def logged? (suite : Suite) (keys : KeyMaterial) : Request → Option (Logged suite keys)
  | append now nonces entry => Service.logged? suite keys now nonces entry
  | signOwnership _ _ _ => none
  | head _ => none
  | proof _ _ => none

end Request

/-- The service after the requests of a run. -/
def after (suite : Suite) (service : Service S) (requests : List Request) : Service S :=
  requests.foldl (Request.next suite) service

/-- What the service signs in a run. -/
def signed (suite : Suite) : Service S → List Request → List Signed
  | _, [] => []
  | service, request :: requests =>
    request.signs suite service ++ signed suite (request.next suite service) requests

/-- The entries that a run logs, in their order. -/
def logged (suite : Suite) (keys : KeyMaterial) (requests : List Request) :
    List (Logged suite keys) := requests.filterMap (Request.logged? suite keys)

section

variable (suite : Suite) (keys : KeyMaterial)

@[simp] theorem logged_nil : logged suite keys [] = [] := rfl

theorem logged_cons (request : Request) (requests : List Request) :
    logged suite keys (request :: requests) =
      logged suite keys [request] ++ logged suite keys requests := by
  rw [logged, logged, logged, ← List.filterMap_append]
  rfl

theorem logged_append_some {now : Timestamp} {nonces : Nonce × Nonce} {entry : Entry}
    {l : Logged suite keys} (h : logged? suite keys now nonces entry = some l) :
    logged suite keys [.append now nonces entry] = [l] := by
  simp [logged, Request.logged?, h]

theorem logged_append_none {now : Timestamp} {nonces : Nonce × Nonce} {entry : Entry}
    (h : logged? suite keys now nonces entry = none) :
    logged suite keys [.append now nonces entry] = [] := by
  simp [logged, Request.logged?, h]

end

variable [LawfulStore S R W] {suite : Suite} {keys : KeyMaterial} {log : List (Logged suite keys)}
  {service : Service S}

/-- One request leaves the log with what it logs. -/
theorem Holds.next (h : Holds suite keys log service) (request : Request)
    (hle : (log ++ logged suite keys [request]).length ≤ 2 ^ 63) :
    Holds suite keys (log ++ logged suite keys [request]) (request.next suite service) := by
  have hlog : log.length ≤ 2 ^ 63 := (List.prefix_append _ _).length_le.trans hle
  cases request with
  | append now nonces entry =>
      cases hlogged : logged? suite keys now nonces entry with
      | some l =>
          rw [logged_append_some suite keys hlogged] at hle ⊢
          rw [List.length_append, List.length_singleton] at hle
          obtain ⟨service', happend, h'⟩ := h.append (by omega) hlogged
          rw [Request.next, happend]
          exact h'
      | none =>
          rw [logged_append_none suite keys hlogged, List.append_nil]
          obtain ⟨e, happend⟩ := h.append_of_none hlogged
          rw [Request.next, happend]
          exact h
  | signOwnership now contentHash name =>
      have hnone : logged suite keys [.signOwnership now contentHash name] = [] := rfl
      rwa [hnone, List.append_nil]
  | head now =>
      have hnone : logged suite keys [.head now] = [] := rfl
      obtain ⟨service', hhead, h'⟩ := h.signedHead hlog now
      rw [hnone, List.append_nil, Request.next, hhead]
      exact h'
  | proof now index =>
      have hnone : logged suite keys [.proof now index] = [] := rfl
      rw [hnone, List.append_nil, Request.next]
      cases hat : log[index.toNat]? with
      | some l =>
          obtain ⟨service', hproof, h'⟩ := h.signedProof hlog now hat
          rw [hproof]
          exact h'
      | none =>
          obtain ⟨service', hproof, h'⟩ :=
            h.signedProof_of_le hlog now (List.getElem?_eq_none_iff.1 hat)
          rw [hproof]
          exact h'

/-- A run leaves the log with what it logs. -/
theorem Holds.after (h : Holds suite keys log service) (requests : List Request)
    (hle : (log ++ logged suite keys requests).length ≤ 2 ^ 63) :
    Holds suite keys (log ++ logged suite keys requests) (service.after suite requests) := by
  induction requests generalizing log service with
  | nil => simpa [Service.after] using h
  | cons request requests ih =>
      rw [logged_cons, ← List.append_assoc] at hle ⊢
      have hstep : (log ++ logged suite keys [request]).length ≤ 2 ^ 63 :=
        (List.prefix_append _ _).length_le.trans hle
      exact ih (h.next request hstep) hle

/-- What is signed in a run that begins with this log. -/
def signedOver : List (Logged suite keys) → List Request → List Signed
  | _, [] => []
  | log, request :: requests =>
    request.signsOver log ++ signedOver (log ++ logged suite keys [request]) requests

/-- What one request makes the service sign depends on its log alone. -/
theorem Holds.signs_eq (h : Holds suite keys log service) (hle : log.length ≤ 2 ^ 63)
    (request : Request) : request.signs suite service = request.signsOver log := by
  cases request with
  | append now nonces entry => rfl
  | signOwnership now contentHash name => rfl
  | head now =>
      obtain ⟨service', hhead, -⟩ := h.signedHead hle now
      rw [Request.signs, hhead]
      rfl
  | proof now index =>
      rw [Request.signs, Request.signsOver]
      cases hat : log[index.toNat]? with
      | some l =>
          obtain ⟨service', hproof, -⟩ := h.signedProof hle now hat
          rw [hproof, if_pos (List.getElem?_eq_some_iff.1 hat).1]
          rfl
      | none =>
          have hpast := List.getElem?_eq_none_iff.1 hat
          obtain ⟨service', hproof, -⟩ := h.signedProof_of_le hle now hpast
          rw [hproof, if_neg (Nat.not_lt.2 hpast)]

/-- What a run makes the service sign depends on its log alone. -/
theorem Holds.signed_eq (h : Holds suite keys log service) {requests : List Request}
    (hle : (log ++ logged suite keys requests).length ≤ 2 ^ 63) :
    signed suite service requests = signedOver log requests := by
  induction requests generalizing log service with
  | nil => rfl
  | cons request requests ih =>
      rw [logged_cons, ← List.append_assoc] at hle
      have hstep : (log ++ logged suite keys [request]).length ≤ 2 ^ 63 :=
        (List.prefix_append _ _).length_le.trans hle
      have hlog : log.length ≤ 2 ^ 63 := (List.prefix_append _ _).length_le.trans hstep
      rw [signed, signedOver, h.signs_eq hlog, ih (h.next request hstep) hle]

theorem size_root_of_mem_signsOver {request : Request} {head : TreeHead}
    (hmem : .head head ∈ request.signsOver log) :
    head.size = UInt64.ofNat log.length ∧ head.root = rootOf log := by
  cases request with
  | append now nonces entry => cases hmem
  | signOwnership now contentHash name =>
      rw [Request.signsOver] at hmem
      cases hownership : ownershipOf contentHash name with
      | error e => simp [hownership] at hmem
      | ok o => simp [hownership] at hmem
  | head now =>
      cases List.mem_singleton.1 hmem
      exact ⟨rfl, rfl⟩
  | proof now index =>
      rw [Request.signsOver] at hmem
      split at hmem
      · cases List.mem_singleton.1 hmem
        exact ⟨rfl, rfl⟩
      · cases hmem

/-- Every head that is signed in a run states the log as it was at some point of the run. -/
theorem size_root_of_mem_signedOver {requests : List Request} {head : TreeHead}
    (hmem : .head head ∈ signedOver log requests) :
    ∃ n ≤ (log ++ logged suite keys requests).length, head.size = UInt64.ofNat n ∧
      head.root = rootOf ((log ++ logged suite keys requests).take n) := by
  induction requests generalizing log with
  | nil => cases hmem
  | cons request requests ih =>
      rw [logged_cons, ← List.append_assoc]
      rcases List.mem_append.1 hmem with hfirst | hrest
      · obtain ⟨hsize, hroot⟩ := size_root_of_mem_signsOver hfirst
        refine ⟨log.length, ?_, hsize, ?_⟩
        · rw [List.append_assoc, List.length_append]
          exact Nat.le_add_right _ _
        · rw [List.append_assoc, List.take_left]
          exact hroot
      · exact ih hrest

end Service

end OwnershipLog
