import SaferRing.Batch.Results
import SaferRing.Ids

/-!
# Batches that share a ring

Batches are submitted on one ring and polled in any order, with other legacy operations
beside them. What they should be to each other is `SaferRing.Isolated`: a completion that
was handed over is in the results of the batch that submitted its operation, and a batch
is ready when polled once the backend completed its operations. A poll takes every
completion there is, though, and keeps its own; `SaferRing.isolated_iff` is that batches
are isolated exactly as long as there is nothing else to take.

What holds of batches in any case (`SaferRing.Batches`) is that the ids of the operations
are different and lead to one batch each, and that a result comes from a completion or
from giving up.
-/

namespace SaferRing

open Transition (Move)
open StandaloneBatchFuture (Follows Shaped)

/-! ### A ring batches are submitted on -/

namespace Ring

/-- **A ring of the legacy interface**, `n` submissions on: nothing is cached, the ids
accepted so far are different, and those in flight are tracked. -/
structure Batching (n : ℕ) (ring : Ring) : Prop where
  cache : ring.completionCache = ∅
  drawn : DrawnFrom n ring.operations.nextId (· ∈ ring.backend.acceptedIds)
  nodup : ring.backend.acceptedIds.Nodup
  tracked : ∀ id ∈ ring.backend.inFlightIds, id ∈ ring.operations.inFlight

namespace Batching

variable {n m : ℕ} {s t : Ring} {operation : Operation Building}
variable {answer : Except SaferRingError Unit}

theorem new : Batching 0 Ring.new :=
  ⟨rfl, DrawnFrom.start fun id h => absurd h (by simp [Ring.new, Backend.new, Backend.acceptedIds,
    Backend.inFlightIds, Backend.inFlight, Backend.deliveredIds]), List.nodup_nil,
    fun id h => absurd h (by simp [Ring.new, Backend.new, Backend.inFlightIds, Backend.inFlight])⟩

theorem mono (h : Batching n s) (hnm : n ≤ m) : Batching m s :=
  ⟨h.cache, h.drawn.mono hnm fun _ hid => hid, h.nodup, h.tracked⟩

/-- Nothing is cached. -/
theorem cachedCompletions (h : Batching n s) : s.cachedCompletions = [] := by
  rw [Ring.cachedCompletions, h.cache]
  rfl

/-- The next id is a new one. -/
theorem fresh (h : Batching n s) (hn : n + 1 < 2 ^ 64) :
    s.operations.nextId ∉ s.backend.acceptedIds :=
  h.drawn.fresh hn

/-- The ring once an operation is tracked, and not accepted. -/
theorem tracking (h : Batching n s) (hn : n + 1 < 2 ^ 64) :
    Batching (n + 1) (s.tracking operation) := by
  refine ⟨h.cache, h.drawn.draw hn fun id hid => Or.inl hid, h.nodup, fun id hid => ?_⟩
  exact (AList.mem_insert _).mpr (Or.inr (h.tracked id hid))

/-- An operation accepted adds the id it was tracked under. -/
theorem acceptedIds_accepted (operation : Operation Building) (s : Ring) {request : Request}
    (hid : request.userData = s.operations.nextId) :
    ((s.tracking operation).accepted request).backend.acceptedIds.Perm
      (s.operations.nextId :: s.backend.acceptedIds) :=
  hid ▸ Backend.acceptedIds_accepted

/-- The ring once an operation is accepted, under the next id. -/
theorem accepted (h : Batching n s) (hn : n + 1 < 2 ^ 64) {request : Request}
    (hid : request.userData = s.operations.nextId) :
    Batching (n + 1) ((s.tracking operation).accepted request) := by
  have hperm := acceptedIds_accepted operation s hid
  refine ⟨h.cache, h.drawn.draw hn fun id hmem => ?_, ?_, fun id hmem => ?_⟩
  · exact (List.mem_cons.mp (hperm.mem_iff.mp hmem)).symm
  · rw [hperm.nodup_iff, List.nodup_cons]
    exact ⟨h.fresh hn, h.nodup⟩
  · obtain ⟨r, hr, rfl⟩ := Backend.mem_inFlightIds.mp hmem
    refine (AList.mem_insert _).mpr ?_
    rcases Backend.mem_inFlight_accepted.mp hr with rfl | hr
    · exact Or.inl hid
    · exact Or.inr (h.tracked _ (Backend.mem_inFlightIds.mpr ⟨r, hr, rfl⟩))

/-- **What submissions make of a ring**: operations are accepted under the ids `ids`, which
are new and different; what was accepted stays accepted, and nothing is handed over. -/
structure Submits (n : ℕ) (s t : Ring) (ids : List ℕ) : Prop where
  batching : Batching n t
  delivered : t.backend.delivered = s.backend.delivered
  kept : ∀ id ∈ s.backend.acceptedIds, id ∈ t.backend.acceptedIds
  nodup : ids.Nodup
  new : ∀ id ∈ ids, id ∉ s.backend.acceptedIds ∧ id ∈ t.backend.acceptedIds

namespace Submits

variable {u : Ring} {ids ids' : List ℕ}

/-- Nothing is accepted. -/
theorem nothing (h : Batching n t) (hb : t.backend = s.backend) : Submits n s t [] :=
  ⟨h, by rw [hb], fun _ hid => hb ▸ hid, List.nodup_nil, fun id hid => absurd hid (by simp)⟩

/-- Some of it is forgotten. -/
theorem forget (h : Submits n s t ids) (hnm : n ≤ m) : Submits m s t [] :=
  ⟨h.batching.mono hnm, h.delivered, h.kept, List.nodup_nil, fun id hid => absurd hid (by simp)⟩

/-- One submission after the other. -/
theorem append (h : Submits n s t ids) (h' : Submits m t u ids') : Submits m s u (ids ++ ids') := by
  refine ⟨h'.batching, h'.delivered.trans h.delivered, fun id hid => h'.kept id (h.kept id hid),
    List.Nodup.append h.nodup h'.nodup ?_, fun id hid => ?_⟩
  · exact fun id hid hid' => (h'.new id hid').1 (h.new id hid).2
  · rcases List.mem_append.mp hid with hid | hid
    · exact ⟨(h.new id hid).1, h'.kept id (h.new id hid).2⟩
    · exact ⟨fun hc => (h'.new id hid).1 (h.kept id hc), (h'.new id hid).2⟩

end Submits

/-- **A submission accepts an operation under a new id, or none.** -/
theorem submit (h : Batching n s) (hn : n + 1 < 2 ^ 64)
    {result : Except SaferRingError (Operation Submitted)}
    (hcall : s.submit operation answer = (result, t)) :
    Submits (n + 1) s t (match result with
      | .ok submitted => [submitted.state.id]
      | .error _ => []) := by
  rcases s.submit_cases operation answer with ⟨_, -, hsub⟩ | ⟨_, -, -, hsub⟩ | ⟨-, -, hsub⟩
  · obtain ⟨rfl, rfl⟩ := Prod.mk.inj (hsub.symm.trans hcall)
    exact .nothing (h.mono (Nat.le_succ n)) rfl
  · obtain ⟨rfl, rfl⟩ := Prod.mk.inj (hsub.symm.trans hcall)
    exact .nothing (h.tracking hn) rfl
  · obtain ⟨rfl, rfl⟩ := Prod.mk.inj (hsub.symm.trans hcall)
    have hid : (legacyRequest { operation with state := ⟨s.operations.nextId⟩ }).userData =
        s.operations.nextId := userData_legacyRequest _
    have hperm := acceptedIds_accepted operation s hid
    refine ⟨h.accepted hn hid, rfl, fun id hid => ?_,
      List.nodup_singleton _, fun id hid => ?_⟩
    · exact hperm.mem_iff.mpr (List.mem_cons_of_mem _ hid)
    · obtain rfl := List.mem_singleton.mp hid
      exact ⟨h.fresh hn, hperm.mem_iff.mpr List.mem_cons_self⟩

/-- **The operations of a batch are accepted under new ids.** -/
theorem submitAll {answers : ℕ → Except SaferRingError Unit} {index : ℕ}
    {operations : List (Operation Building)} (h : Batching n s)
    (hn : n + operations.length < 2 ^ 64) {result : Except SaferRingError (List ℕ)}
    (hcall : Ring.submitAll answers s index operations = (result, t)) :
    Submits (n + operations.length) s t (match result with
      | .ok ids => ids
      | .error _ => []) := by
  induction operations generalizing n s index result with
  | nil =>
    obtain ⟨rfl, rfl⟩ := Prod.mk.inj hcall
    exact .nothing h rfl
  | cons operation rest ih =>
    rw [List.length_cons, Nat.add_comm rest.length, ← Nat.add_assoc] at hn ⊢
    rw [Ring.submitAll] at hcall
    rcases hsub : s.submit operation (answers index) with ⟨result', ring⟩
    have hfirst := h.submit (by omega) hsub
    rw [hsub] at hcall
    rcases result' with e | submitted
    · obtain ⟨rfl, rfl⟩ := Prod.mk.inj hcall
      exact hfirst.forget (by omega)
    simp only at hcall
    rcases hrest : Ring.submitAll answers ring (index + 1) rest with ⟨result', ring'⟩
    rw [hrest] at hcall
    rcases result' with e | ids
    · obtain ⟨rfl, rfl⟩ := Prod.mk.inj hcall
      exact (hfirst.append (ih hfirst.batching hn hrest)).forget (le_refl _)
    · obtain ⟨rfl, rfl⟩ := Prod.mk.inj hcall
      exact hfirst.append (ih hfirst.batching hn hrest)

/-- The kernel completes an operation. -/
theorem complete (h : Batching n s) {i : ℕ} {result : IoResult} {backend : Backend}
    (hb : s.backend.complete i result = some backend) : Batching n { s with backend } := by
  have hperm := Backend.acceptedIds_complete hb
  refine ⟨h.cache, h.drawn.mono (le_refl n) fun id hid => hperm.mem_iff.mp hid,
    hperm.nodup_iff.mpr h.nodup, fun id hid => h.tracked id ?_⟩
  exact ((Backend.complete_perm hb).map Request.userData).mem_iff.mp hid

/-- What waits is not what was handed over. -/
theorem not_delivered (h : Batching n s) {c c' : Completion} (hc : c ∈ s.backend.ready)
    (hc' : c' ∈ s.backend.delivered) : c.1.userData ≠ c'.1.userData := by
  intro hid
  have hin : c.1.userData ∈ s.backend.inFlightIds :=
    Backend.mem_inFlightIds.mpr ⟨c.1, Backend.mem_inFlight.mpr (Or.inr ⟨c.2, hc⟩), rfl⟩
  exact (List.disjoint_of_nodup_append h.nodup) hin (List.mem_map.mpr ⟨c', hc', hid.symm⟩)

/-- **`try_complete` hands over everything that waits.** -/
theorem tryComplete (h : Batching n s) :
    ∃ results t, s.tryComplete [] none = .returned (.ok results, t) ∧
      results.map (fun c => (c.operationId, c.result)) = s.backend.waiting ∧
      t.backend = s.backend.drained ∧ Batching n t := by
  obtain ⟨results, t, hcall, hres, hb, hn, hc, htracked⟩ :=
    s.tryComplete_waiting (List.nodup_append.mp h.nodup).1 h.tracked
  refine ⟨results, t, hcall, hres, hb, hc, ?_, ?_, htracked⟩
  · rw [hn, hb]
    exact h.drawn.mono (le_refl n) fun id hid => Backend.acceptedIds_drained.mem_iff.mp hid
  · rw [hb, Backend.acceptedIds_drained.nodup_iff]
    exact h.nodup

/-- What waits are completions of different operations. -/
theorem nodup_completions (h : Batching n s) {completions : List CompletionResult}
    (hmap : completions.map (fun c => (c.operationId, c.result)) = s.backend.waiting) :
    (completions.map CompletionResult.operationId).Nodup := by
  have hids : completions.map CompletionResult.operationId = s.backend.waiting.map Prod.fst := by
    rw [← hmap, List.map_map]
    rfl
  have hflight := (List.nodup_append.mp h.nodup).1
  rw [Backend.inFlightIds_eq] at hflight
  rw [hids]
  exact (List.nodup_append.mp hflight).2.1

end Batching

end Ring

/-! ### What batches are owed -/

/-- **A completion is in the results of a batch that has its operation.** -/
def Recorded (w : World) (c : Completion) : Prop :=
  ∃ (b : ℕ) (future : StandaloneBatchFuture) (i : ℕ), w.batches[b]? = some (some future) ∧
    future.operationIds[i]? = some (some c.1.userData) ∧
    future.resultAt i = some (.ofCompletion c.2)

/-- **No completion is lost**: those handed over are recorded, or there for who asks. -/
def KeepsCompletions (w : World) : Prop :=
  ∀ c ∈ w.delivered, Recorded w c ∨ w.ring.cached c.1.userData = some c.2

/-- **A batch is ready when polled**, once the kernel works on none of its operations. -/
def ReadyWhenPolled (w : World) : Prop :=
  ∀ (b : ℕ) future, w.batches[b]? = some (some future) →
    (∀ r ∈ w.ring.backend.pending, some r.userData ∉ future.operationIds) →
    ∀ waker cached, cached.Perm w.ring.cachedCompletions → ∃ results polled ring,
      future.pollWithRing w.ring waker cached none =
        .returned (.ready (.ok results), polled, ring)

/-- **Batches do not disturb each other.** -/
structure Isolated (w : World) : Prop where
  keeps : KeepsCompletions w
  ready : ReadyWhenPolled w

/-- The actions of batches, and of legacy operations beside them. -/
def BatchSteps (_ : World) (e : Event) : Prop :=
  match e.action with
  | .submit .. | .submitBatch .. | .pollBatch .. | .complete .. => True
  | _ => False

/-- **A poll finds only what is its own**: completions of operations of the batch that have
no result yet. -/
def FindsOwn (w : World) (e : Event) : Prop :=
  match e.action with
  | .pollBatch b _ _ none => ∀ future, w.batches[b]? = some (some future) →
      future.completed = false → ∀ c ∈ w.ring.backend.ready, ∃ i,
        future.operationIds[i]? = some (some c.1.userData) ∧ future.resultAt i = none
  | _ => True

/-! ### What holds of batches in any case -/

/-- **The batches of a world** whose ring is `n` submissions on: their ids were accepted and
lead to one batch each, and a result that is not of an operation given up is of a
completion handed over. -/
structure Batches (n : ℕ) (w : World) : Prop where
  ring : w.ring.Batching n
  shaped : ∀ (b : ℕ) s, w.batches[b]? = some (some s) → Shaped s
  accepted : ∀ (b : ℕ) s, w.batches[b]? = some (some s) →
    ∀ id, some id ∈ s.operationIds → id ∈ w.ring.backend.acceptedIds
  apart : ∀ (b b' : ℕ) s s', w.batches[b]? = some (some s) → w.batches[b']? = some (some s') →
    ∀ id, some id ∈ s.operationIds → some id ∈ s'.operationIds → b = b'
  earned : ∀ (b : ℕ) s, w.batches[b]? = some (some s) → ∀ i x, s.resultAt i = some x →
    x = .cancelled ∨ ∃ c ∈ w.delivered,
      s.operationIds[i]? = some (some c.1.userData) ∧ x = .ofCompletion c.2

section Batches

variable {w w' : World} {e : Event} {n m : ℕ} {r : Response}

theorem Batches.new : Batches 0 World.new where
  ring := .new
  shaped b s h := absurd h (by simp [World.new])
  accepted b s h := absurd h (by simp [World.new])
  apart b b' s s' h := absurd h (by simp [World.new])
  earned b s h := absurd h (by simp [World.new])

/-- The batches stay what they are, and so do the completions handed over. -/
theorem Batches.of_ring (h : Batches n w) (hring : w'.ring.Batching m)
    (hbatches : w'.batches = w.batches) (hdel : w'.delivered = w.delivered)
    (hids : ∀ id ∈ w.ring.backend.acceptedIds, id ∈ w'.ring.backend.acceptedIds) :
    Batches m w' where
  ring := hring
  shaped := hbatches ▸ h.shaped
  accepted b s hb id hid := hids id (h.accepted b s (hbatches ▸ hb) id hid)
  apart := hbatches ▸ h.apart
  earned := by
    rw [hbatches, hdel]
    exact h.earned

/-- A result is never that of a completion that still waits. -/
theorem Batches.not_waiting (h : Batches n w) {b i : ℕ} {s : StandaloneBatchFuture}
    (hb : w.batches[b]? = some (some s)) {c : Completion} (hc : c ∈ w.ring.backend.ready)
    (hi : s.operationIds[i]? = some (some c.1.userData)) :
    s.resultAt i ≠ some (.ofCompletion c.2) := by
  intro hres
  rcases h.earned b s hb i _ hres with hx | ⟨c', hc', hi', -⟩
  · rcases hres : c.2 with bytes | err
    · simp [hres, OperationResult.ofCompletion] at hx
    · simp [hres, OperationResult.ofCompletion] at hx
  · have hid : c.1.userData = c'.1.userData :=
      Option.some.inj (Option.some.inj (hi.symm.trans hi'))
    exact h.ring.not_delivered hc hc' hid

/-- **What a poll does that the backend answers**: it takes all that waits, and its batch
follows from that. -/
theorem Batches.poll (h : Batches n w) {b : ℕ} {s : StandaloneBatchFuture}
    (hb : w.batches[b]? = some (some s)) (hopen : s.completed = false) (waker : Waker) :
    ∃ completions answer t ring,
      s.pollWithRing w.ring waker [] none = .returned (answer, t, ring) ∧
      completions.map (fun c => (c.operationId, c.result)) = w.ring.backend.waiting ∧
      Follows s completions t ∧ ring.backend = w.ring.backend.drained ∧ ring.Batching n ∧
      ((∀ i < t.results.length, (t.resultAt i).isSome) →
        ∃ results, answer = .ready (.ok results)) := by
  obtain ⟨completions, ring, hcall, hmap, hback, hring⟩ := h.ring.tryComplete
  have hnd := h.ring.nodup_completions hmap
  obtain ⟨answer, t, wakerRegistry, hpoll, hfollows, hready⟩ :=
    StandaloneBatchFuture.pollWithRing_follows waker (h.shaped b s hb) hopen hnd hcall
  exact ⟨completions, answer, t, _, hpoll, hmap, hfollows, hback,
    ⟨hring.cache, hring.drawn, hring.nodup, hring.tracked⟩, hready⟩

/-- **A step of a poll**: nothing is taken; or the backend answers, and everything that
waits is. -/
theorem Batches.pollBatch (h : Batches n w) {b : ℕ} {waker : Waker}
    {cached : List (ℕ × IoResult)} {fail : Option SaferRingError}
    (hstep : Step w ⟨.pollBatch b waker cached fail, r⟩ w') :
    ∃ s, w.batches[b]? = some (some s) ∧
      ((s.completed = true ∨ fail ≠ none) ∧ w'.ring.Batching n ∧
          w'.ring.backend = w.ring.backend ∧ w'.batches = w.batches ∨
        s.completed = false ∧ fail = none ∧ w'.ring.Batching n ∧
          w'.ring.backend = w.ring.backend.drained ∧ ∃ completions t,
            completions.map (fun c => (c.operationId, c.result)) = w.ring.backend.waiting ∧
            Follows s completions t ∧ w'.batches = w.batches.set b (some t)) := by
  obtain ⟨hperm, s, answer, t, ring, hb, hcall, -, rfl⟩ := hstep.pollBatch
  rw [h.ring.cachedCompletions, List.perm_nil] at hperm
  obtain rfl := hperm
  have hsame : w.batches.set b (some s) = w.batches := set_eq_self hb
  refine ⟨s, hb, ?_⟩
  rcases hdone : s.completed with _ | _
  · rcases fail with _ | e
    · obtain ⟨completions, answer', t', ring', hpoll, hmap, hfollows, hback, hring, -⟩ :=
        h.poll hb hdone waker
      rw [hpoll] at hcall
      cases hcall
      exact Or.inr ⟨rfl, rfl, hring, hback, completions, _, hmap, hfollows, rfl⟩
    · rw [StandaloneBatchFuture.pollWithRing_error hdone] at hcall
      cases hcall
      exact Or.inl ⟨Or.inr (by simp), ⟨rfl, h.ring.drawn, h.ring.nodup, h.ring.tracked⟩, rfl,
        hsame⟩
  · rw [StandaloneBatchFuture.pollWithRing_completed hdone] at hcall
    cases hcall
    exact Or.inl ⟨Or.inl rfl, h.ring, rfl, hsame⟩

/-- What waits is what `try_complete` returns. -/
theorem mem_of_waiting {completions : List CompletionResult} {backend : Backend}
    (hmap : completions.map (fun c => (c.operationId, c.result)) = backend.waiting) :
    (∀ d ∈ backend.ready, ∃ c ∈ completions, c.operationId = d.1.userData ∧ c.result = d.2) ∧
      ∀ c ∈ completions, ∃ d ∈ backend.ready, c.operationId = d.1.userData ∧ c.result = d.2 := by
  constructor
  · intro d hd
    have hmem : (d.1.userData, d.2) ∈ backend.waiting :=
      Backend.mem_waiting.mpr ⟨d.1, hd, rfl⟩
    rw [← hmap] at hmem
    obtain ⟨c, hc, heq⟩ := List.mem_map.mp hmem
    obtain ⟨hid, hres⟩ := Prod.mk.inj heq
    exact ⟨c, hc, hid, hres⟩
  · intro c hc
    have hmem : (c.operationId, c.result) ∈ backend.waiting := by
      rw [← hmap]
      exact List.mem_map_of_mem hc
    obtain ⟨req, hreq, hid⟩ := Backend.mem_waiting.mp hmem
    exact ⟨(req, c.result), hreq, hid.symm, rfl⟩

/-- The future at a place after one was replaced. -/
theorem batch_of_set {batches : List (Option StandaloneBatchFuture)} {b b' : ℕ}
    {s t f : StandaloneBatchFuture} (hb : batches[b]? = some (some s))
    (h : (batches.set b (some t))[b']? = some (some f)) :
    b' = b ∧ f = t ∨ b' ≠ b ∧ batches[b']? = some (some f) := by
  obtain ⟨hlt, -⟩ := List.getElem?_eq_some_iff.mp hb
  by_cases hb' : b' = b
  · rw [hb', List.getElem?_set_self hlt] at h
    exact Or.inl ⟨hb', (Option.some.inj (Option.some.inj h)).symm⟩
  · rw [List.getElem?_set_ne (Ne.symm hb')] at h
    exact Or.inr ⟨hb', h⟩

/-- A poll that the backend answers keeps what holds of batches. -/
theorem Batches.follows (h : Batches n w) {b : ℕ} {s t : StandaloneBatchFuture}
    {completions : List CompletionResult} (hb : w.batches[b]? = some (some s))
    (hring : w'.ring.Batching n) (hback : w'.ring.backend = w.ring.backend.drained)
    (hmap : completions.map (fun c => (c.operationId, c.result)) = w.ring.backend.waiting)
    (hfollows : Follows s completions t) (hset : w'.batches = w.batches.set b (some t)) :
    Batches n w' := by
  have hids : ∀ id ∈ w.ring.backend.acceptedIds, id ∈ w'.ring.backend.acceptedIds := by
    intro id hid
    rw [hback]
    exact Backend.acceptedIds_drained.mem_iff.mpr hid
  have hdel : w'.delivered = w.delivered ++ w.ring.backend.ready := by
    rw [World.delivered, hback, Backend.delivered_drained]
  -- a future of the world after the poll has the operations of one before it, at the same place
  have hplace : ∀ (b' : ℕ) f, w'.batches[b']? = some (some f) →
      ∃ f', w.batches[b']? = some (some f') ∧ f.operationIds = f'.operationIds := by
    intro b' f hf
    rw [hset] at hf
    rcases batch_of_set hb hf with ⟨rfl, rfl⟩ | ⟨-, hf⟩
    · exact ⟨s, hb, hfollows.same.operationIds⟩
    · exact ⟨f, hf, rfl⟩
  refine ⟨hring, fun b' f hf => ?_, fun b' f hf id hid => ?_, ?_, fun b' f hf i x hx => ?_⟩
  · rw [hset] at hf
    rcases batch_of_set hb hf with ⟨-, rfl⟩ | ⟨-, hf⟩
    · exact hfollows.same.shaped (h.shaped b s hb)
    · exact h.shaped b' f hf
  · obtain ⟨f', hf', hops⟩ := hplace b' f hf
    exact hids id (h.accepted b' f' hf' id (hops ▸ hid))
  · intro b₁ b₂ f₁ f₂ hf₁ hf₂ id hid₁ hid₂
    obtain ⟨f₁', hf₁', hops₁⟩ := hplace b₁ f₁ hf₁
    obtain ⟨f₂', hf₂', hops₂⟩ := hplace b₂ f₂ hf₂
    exact h.apart b₁ b₂ f₁' f₂' hf₁' hf₂' id (hops₁ ▸ hid₁) (hops₂ ▸ hid₂)
  -- a result was there before, or is that of a completion that waited
  · rw [hdel]
    have hold : ∀ {f' : StandaloneBatchFuture}, w.batches[b']? = some (some f') →
        f'.resultAt i = some x → x = .cancelled ∨ ∃ c ∈ w.delivered ++ w.ring.backend.ready,
          f'.operationIds[i]? = some (some c.1.userData) ∧ x = .ofCompletion c.2 := by
      intro f' hf' hx'
      refine (h.earned b' f' hf' i x hx').imp_right ?_
      rintro ⟨c, hc, hi⟩
      exact ⟨c, List.mem_append_left _ hc, hi⟩
    rw [hset] at hf
    rcases batch_of_set hb hf with ⟨rfl, rfl⟩ | ⟨-, hf⟩
    · rw [hfollows.same.operationIds]
      rcases hfollows.only i x hx with hx | hx | ⟨c, hc, hi, rfl⟩
      · exact hold hb hx
      · exact Or.inl hx
      · obtain ⟨d, hd, hid, hres⟩ := (mem_of_waiting hmap).2 c hc
        rw [hid] at hi
        exact Or.inr ⟨d, List.mem_append_right _ hd, ((h.shaped b' s hb).lookup _ i).mp hi,
          congrArg _ hres⟩
    · exact hold hf hx

/-- The future at a place after one was added. -/
theorem batch_of_append {batches : List (Option StandaloneBatchFuture)} {b : ℕ}
    {s f : StandaloneBatchFuture} (h : (batches ++ [some s])[b]? = some (some f)) :
    batches[b]? = some (some f) ∨ b = batches.length ∧ f = s := by
  rcases Nat.lt_trichotomy b batches.length with hlt | rfl | hgt
  · rw [List.getElem?_append_left hlt] at h
    exact Or.inl h
  · rw [List.getElem?_concat_length] at h
    exact Or.inr ⟨rfl, (Option.some.inj (Option.some.inj h)).symm⟩
  · rw [List.getElem?_eq_none (by rw [List.length_append, List.length_singleton]; omega)] at h
    exact absurd h (by simp)

/-- A batch whose operations are accepted under new ids joins the others. -/
theorem Batches.join (h : Batches n w) {ring : Ring} {ids : List ℕ}
    {dependencies : HashMap (List ℕ)} {failFast : Bool}
    (hsub : Ring.Batching.Submits m w.ring ring ids) :
    Batches m { w with
      ring
      batches := w.batches ++ [some (.new (ids.map some) dependencies failFast)] } := by
  have hold : ∀ id ∈ ids, id ∉ w.ring.backend.acceptedIds := fun id hid => (hsub.new id hid).1
  have hmem : ∀ {id}, some id ∈ ids.map some → id ∈ ids := by
    intro id hid
    obtain ⟨id', hid', heq⟩ := List.mem_map.mp hid
    exact Option.some.inj heq ▸ hid'
  refine ⟨hsub.batching, fun b f hf => ?_, fun b f hf id hid => ?_, ?_, fun b f hf i x hx => ?_⟩
  · rcases batch_of_append hf with hf | ⟨-, rfl⟩
    · exact h.shaped b f hf
    · exact StandaloneBatchFuture.shaped_new hsub.nodup _ _
  · rcases batch_of_append hf with hf | ⟨-, rfl⟩
    · exact hsub.kept id (h.accepted b f hf id hid)
    · exact (hsub.new id (hmem hid)).2
  · intro b₁ b₂ f₁ f₂ hf₁ hf₂ id hid₁ hid₂
    rcases batch_of_append hf₁ with hf₁ | ⟨hb₁, rfl⟩ <;>
      rcases batch_of_append hf₂ with hf₂ | ⟨hb₂, rfl⟩
    · exact h.apart b₁ b₂ f₁ f₂ hf₁ hf₂ id hid₁ hid₂
    · exact absurd (h.accepted b₁ f₁ hf₁ id hid₁) (hold id (hmem hid₂))
    · exact absurd (h.accepted b₂ f₂ hf₂ id hid₂) (hold id (hmem hid₁))
    · exact hb₁.trans hb₂.symm
  · rcases batch_of_append hf with hf | ⟨-, rfl⟩
    · have hdel : ring.backend.delivered = w.ring.backend.delivered := hsub.delivered
      rw [World.delivered, hdel]
      exact h.earned b f hf i x hx
    · rw [StandaloneBatchFuture.resultAt_new] at hx
      exact absurd hx (by simp)

/-- The submission of a batch keeps what holds of batches. -/
theorem Batches.submitBatch (h : Batches n w) {batch : Batch} {config : BatchConfig}
    {answers : ℕ → Except SaferRingError Unit}
    (hstep : Step w ⟨.submitBatch batch config answers, r⟩ w') (hn : n + batch.len < 2 ^ 64) :
    Batches (n + batch.len) w' := by
  obtain ⟨result, ring, hcall, hw⟩ := hstep.submitBatch
  rw [Ring.submitBatchStandaloneWithConfig] at hcall
  rcases hcheck : Ring.checkBatch batch config with e | ⟨⟨⟩⟩
  · rw [hcheck] at hcall
    obtain ⟨rfl, rfl⟩ := Prod.mk.inj hcall
    rcases hw with ⟨_, -, rfl⟩ | ⟨_, hres, -⟩
    · exact h.of_ring (h.ring.mono (Nat.le_add_right _ _)) rfl rfl fun _ hid => hid
    · exact absurd hres (by simp)
  rw [hcheck] at hcall
  simp only at hcall
  rcases hall : Ring.submitAll answers w.ring 0 batch.operations with ⟨result', ring'⟩
  have hsub : Ring.Batching.Submits (n + batch.len) w.ring ring' _ := h.ring.submitAll hn hall
  rw [hall] at hcall
  rcases result' with e | ids
  · obtain ⟨rfl, rfl⟩ := Prod.mk.inj hcall
    rcases hw with ⟨_, -, rfl⟩ | ⟨_, hres, -⟩
    · exact h.of_ring hsub.batching rfl hsub.delivered hsub.kept
    · exact absurd hres (by simp)
  obtain ⟨rfl, rfl⟩ := Prod.mk.inj hcall
  rcases hw with ⟨_, hres, -⟩ | ⟨future, hres, rfl⟩
  · exact absurd hres (by simp)
  obtain rfl := Except.ok.inj hres
  exact h.join hsub

/-- **A step keeps what holds of batches.** -/
theorem Batches.step (h : Batches n w) (hstep : Step w e w') (hbatch : BatchSteps w e)
    (hn : n + submissionsOf e < 2 ^ 64) : Batches (n + submissionsOf e) w' := by
  obtain ⟨action, response⟩ := e
  cases action with
  | submit operation answer =>
    obtain ⟨-, rfl⟩ := Prod.mk.inj (Option.some.inj hstep)
    have hcall : w.ring.submit operation answer =
        ((w.ring.submit operation answer).1, (w.ring.submit operation answer).2) := rfl
    have hsub := h.ring.submit hn hcall
    exact h.of_ring hsub.batching rfl hsub.delivered hsub.kept
  | submitBatch batch config answers => exact h.submitBatch hstep hn
  | pollBatch b waker cached fail =>
    obtain ⟨s, hb, ⟨-, hring, hback, hsame⟩ | ⟨-, -, hring, hback, completions, t, hmap,
      hfollows, hset⟩⟩ := h.pollBatch hstep
    · exact h.of_ring hring hsame (congrArg Backend.delivered hback) fun id hid => hback ▸ hid
    · exact h.follows hb hring hback hmap hfollows hset
  | complete i result =>
    obtain ⟨backend, hb, rfl⟩ := hstep.complete
    exact h.of_ring (h.ring.complete hb) rfl (Backend.complete_delivered hb)
      fun id hid => (Backend.acceptedIds_complete hb).mem_iff.mpr hid
  | _ => exact absurd hbatch (by simp [BatchSteps])

/-! ### Who loses what -/

/-- A step that polls no batch hands nothing over, and the batches stay. -/
theorem quiet_step (hstep : Step w e w') (hbatch : BatchSteps w e)
    (hpoll : ∀ b waker cached fail, e.action ≠ .pollBatch b waker cached fail) :
    w'.delivered = w.delivered ∧
      ∀ (b : ℕ) f, w.batches[b]? = some (some f) → w'.batches[b]? = some (some f) := by
  have hsubmit : ∀ (ring : Ring) operation answer,
      (ring.submit operation answer).2.backend.delivered = ring.backend.delivered :=
    fun ring operation answer => (ring.submit_frame operation answer).2.2.2
  obtain ⟨action, response⟩ := e
  cases action with
  | submit operation answer =>
    obtain ⟨-, rfl⟩ := Prod.mk.inj (Option.some.inj hstep)
    exact ⟨hsubmit w.ring operation answer, fun _ _ hf => hf⟩
  | submitBatch batch config answers =>
    obtain ⟨result, ring, hcall, hw⟩ := hstep.submitBatch
    obtain ⟨k, -, hdel⟩ : ∃ k ≤ batch.len, (w.ring.submitBatchStandaloneWithConfig batch config
        answers).2.backend.delivered = w.ring.backend.delivered :=
      Ring.submitBatch_invariant
        (P := fun _ ring => ring.backend.delivered = w.ring.backend.delivered)
        (fun k operation ring _ _ _ h => (hsubmit ring operation (answers k)).trans h) rfl
    rw [hcall] at hdel
    rcases hw with ⟨_, -, rfl⟩ | ⟨future, -, rfl⟩
    · exact ⟨hdel, fun _ _ hf => hf⟩
    · refine ⟨hdel, fun b f hf => ?_⟩
      obtain ⟨hlt, -⟩ := List.getElem?_eq_some_iff.mp hf
      exact (List.getElem?_append_left hlt).trans hf
  | pollBatch b waker cached fail => exact absurd rfl (hpoll b waker cached fail)
  | complete i result =>
    obtain ⟨backend, hb, rfl⟩ := hstep.complete
    exact ⟨Backend.complete_delivered hb, fun _ _ hf => hf⟩
  | _ => exact absurd hbatch (by simp [BatchSteps])

/-- Nothing is cached, so what is kept is recorded. -/
theorem KeepsCompletions.recorded (hk : KeepsCompletions w) (h : Batches n w) {c : Completion}
    (hc : c ∈ w.delivered) : Recorded w c := by
  refine (hk c hc).resolve_right fun hcached => ?_
  rw [Ring.cached, h.ring.cache] at hcached
  exact absurd hcached (by simp)

/-- A poll of a batch keeps what was recorded. -/
theorem Recorded.set {c : Completion} (hrec : Recorded w c) {b : ℕ} {s t : StandaloneBatchFuture}
    {completions : List CompletionResult} (hb : w.batches[b]? = some (some s))
    (hfollows : Follows s completions t) (hset : w'.batches = w.batches.set b (some t)) :
    Recorded w' c := by
  obtain ⟨hlt, -⟩ := List.getElem?_eq_some_iff.mp hb
  obtain ⟨b', f, i, hf, hi, hres⟩ := hrec
  by_cases hb' : b' = b
  · obtain rfl := hb'
    obtain rfl := Option.some.inj (Option.some.inj (hf.symm.trans hb))
    refine ⟨b', t, i, ?_, hfollows.same.operationIds ▸ hi, hfollows.keep i _ hres⟩
    rw [hset, List.getElem?_set_self hlt]
  · refine ⟨b', f, i, ?_, hi, hres⟩
    rw [hset, List.getElem?_set_ne (Ne.symm hb')]
    exact hf

/-- **A step that finds only what is its own loses nothing.** -/
theorem KeepsCompletions.step (hk : KeepsCompletions w) (h : Batches n w) (hstep : Step w e w')
    (hbatch : BatchSteps w e) (hown : FindsOwn w e) : KeepsCompletions w' := by
  by_cases hpoll : ∀ b waker cached fail, e.action ≠ .pollBatch b waker cached fail
  · obtain ⟨hdel, hbatches⟩ := quiet_step hstep hbatch hpoll
    intro c hc
    obtain ⟨b, f, i, hf, hi⟩ := hk.recorded h (hdel ▸ hc)
    exact Or.inl ⟨b, f, i, hbatches b f hf, hi⟩
  simp only [ne_eq, not_forall, not_not] at hpoll
  obtain ⟨b, waker, cached, fail, ha⟩ := hpoll
  obtain ⟨action, response⟩ := e
  obtain rfl : action = .pollBatch b waker cached fail := ha
  obtain ⟨s, hb, ⟨-, -, hback, hsame⟩ | ⟨hopen, rfl, -, hback, completions, t, hmap, hfollows,
    hset⟩⟩ := h.pollBatch hstep
  · intro c hc
    rw [World.delivered, hback] at hc
    obtain ⟨b', f, i, hf, hi⟩ := hk.recorded h hc
    exact Or.inl ⟨b', f, i, hsame ▸ hf, hi⟩
  · intro c hc
    rw [World.delivered, hback, Backend.delivered_drained] at hc
    refine Or.inl ?_
    rcases List.mem_append.mp hc with hc | hc
    · exact (hk.recorded h hc).set hb hfollows hset
    · obtain ⟨i, hi, hnone⟩ := hown s hb hopen c hc
      obtain ⟨d, hd, hid, hres⟩ := (mem_of_waiting hmap).1 c hc
      obtain ⟨hlt, -⟩ := List.getElem?_eq_some_iff.mp hb
      have hlook : s.idToIndex.lookup d.operationId = some i := by
        rw [hid]
        exact ((h.shaped b s hb).lookup _ i).mpr hi
      refine ⟨b, t, i, ?_, hfollows.same.operationIds ▸ hi, hres ▸ hfollows.take d hd i hlook hnone⟩
      rw [hset, List.getElem?_set_self hlt]

/-- **A poll that finds something else loses it**: the batch does not record it, and no other
batch has it. -/
theorem not_keepsCompletions_step (h : Batches n w) (hstep : Step w e w')
    (hlose : ¬FindsOwn w e) : ¬KeepsCompletions w' := by
  obtain ⟨action, response⟩ := e
  cases action with
  | pollBatch b waker cached fail =>
    rcases fail with _ | err
    swap
    · exact absurd trivial hlose
    simp only [FindsOwn, not_forall, not_exists, not_and] at hlose
    obtain ⟨s, hb, hopen, c, hc, hforeign⟩ := hlose
    obtain ⟨s', hb', ⟨hno, -⟩ | ⟨-, -, hring, hback, completions, t, hmap, hfollows, hset⟩⟩ :=
      h.pollBatch hstep
    · obtain rfl := Option.some.inj (Option.some.inj (hb'.symm.trans hb))
      rcases hno with hdone | hfail
      · exact absurd (hdone.symm.trans hopen) (by simp)
      · exact absurd rfl hfail
    obtain rfl := Option.some.inj (Option.some.inj (hb'.symm.trans hb))
    intro hk
    have hc' : c ∈ w'.delivered := by
      rw [World.delivered, hback, Backend.delivered_drained]
      exact List.mem_append_right _ hc
    obtain ⟨b', f, i, hf, hi, hres⟩ := hk.recorded (h.follows hb hring hback hmap hfollows hset) hc'
    rw [hset] at hf
    -- the batch polled has it only if the operation had a result, and that is of no completion
    -- that waited
    rcases batch_of_set hb hf with ⟨-, rfl⟩ | ⟨-, hf⟩
    · rw [hfollows.same.operationIds] at hi
      rcases hx : s'.resultAt i with _ | x
      · exact hforeign i hi hx
      · have hkept := hfollows.keep i x hx
        exact h.not_waiting hb hc hi (hx.trans (hkept.symm.trans hres))
    · exact h.not_waiting hf hc hi hres
  | _ => exact absurd trivial hlose

/-- **What loses no completion is ready in time.** -/
theorem KeepsCompletions.readyWhenPolled (hk : KeepsCompletions w) (h : Batches n w) :
    ReadyWhenPolled w := by
  intro b s hb hnone waker cached hperm
  rw [h.ring.cachedCompletions, List.perm_nil] at hperm
  obtain rfl := hperm
  rcases hdone : s.completed with _ | _
  swap
  · exact ⟨_, _, _, StandaloneBatchFuture.pollWithRing_completed hdone⟩
  obtain ⟨completions, answer, t, ring, hpoll, hmap, hfollows, -, -, hready⟩ :=
    h.poll hb hdone waker
  have hshaped := h.shaped b s hb
  have hall : ∀ i < t.results.length, (t.resultAt i).isSome := by
    intro i hi
    rw [hfollows.same.length, hshaped.length] at hi
    obtain ⟨id, hid⟩ := hshaped.numbered i hi
    rcases hs : s.resultAt i with _ | x
    swap
    · rw [hfollows.keep i x hs]
      rfl
    have hlook := (hshaped.lookup id i).mpr hid
    have hmem : some id ∈ s.operationIds := List.mem_of_getElem? hid
    rcases List.mem_append.mp (h.accepted b s hb id hmem) with hfl | hdel
    · obtain ⟨q, hq, rfl⟩ := Backend.mem_inFlightIds.mp hfl
      rcases Backend.mem_inFlight.mp hq with hq | ⟨res, hq⟩
      · exact absurd hmem (hnone q hq)
      · obtain ⟨d, hd, hdid, -⟩ := (mem_of_waiting hmap).1 _ hq
        rw [hfollows.take d hd i (hdid ▸ hlook) hs]
        rfl
    · -- a completion handed over is recorded, and no other batch has its operation
      obtain ⟨c, hc, rfl⟩ := List.mem_map.mp hdel
      obtain ⟨b', f, j, hf, hj, hres⟩ := hk.recorded h hc
      obtain rfl := h.apart b b' s f hb hf _ hmem (List.mem_of_getElem? hj)
      obtain rfl := Option.some.inj (Option.some.inj (hf.symm.trans hb))
      obtain rfl := Option.some.inj (hlook.symm.trans ((hshaped.lookup _ j).mpr hj))
      exact absurd (hs.symm.trans hres) (by simp)
  obtain ⟨results, rfl⟩ := hready hall
  exact ⟨results, t, ring, hpoll⟩

end Batches

/-! ### The runs -/

/-- **Batches on one ring are isolated exactly as long as no poll finds anything but
completions of its own operations**: in any run of batches and legacy operations with fewer
than 2^64 submissions. -/
theorem isolated_iff {ms : List (Move World Event)} {w : World} (hrun : Run ms w)
    (hbatch : Transition.Guarded BatchSteps ms)
    (hfew : Transition.spent submissionsOf ms < 2 ^ 64) :
    Transition.Always Isolated World.new ms ↔ Transition.Guarded FindsOwn ms := by
  let Stands : World → Event → Prop := fun w e =>
    ∃ n, n + submissionsOf e < 2 ^ 64 ∧ Batches n w
  have hcount : ∀ n s e t, Step s e t → BatchSteps s e → n + submissionsOf e < 2 ^ 64 →
      Batches n s → Batches (n + submissionsOf e) t :=
    fun _ _ _ _ hstep hbatch hn h => h.step hstep hbatch hn
  have hstands : Transition.Guarded Stands ms :=
    fun _ hm => hrun.counted_mem hcount hbatch hfew Batches.new hm
  have hkeep : ∀ s e t, (Step s e t ∧ BatchSteps s e ∧ Stands s e) → FindsOwn s e →
      True → Isolated s → True ∧ Isolated t := by
    rintro s e t ⟨hstep, hbatch, n, hn, h⟩ hown - hiso
    have hkeeps := hiso.keeps.step h hstep hbatch hown
    exact ⟨trivial, hkeeps, hkeeps.readyWhenPolled (h.step hstep hbatch hn)⟩
  have hbreak : ∀ s e t, (Step s e t ∧ BatchSteps s e ∧ Stands s e) → ¬FindsOwn s e →
      True → Isolated s → ¬Isolated t := by
    rintro s e t ⟨hstep, -, n, -, h⟩ hlose - - hiso
    exact not_keepsCompletions_step h hstep hlose hiso.keeps
  have hnone : World.new.delivered = [] := rfl
  have hnew : KeepsCompletions World.new := fun c hc => absurd (hnone ▸ hc) (by simp)
  exact (hrun.restrict (hbatch.and hstands)).always_iff hkeep hbreak trivial
    ⟨hnew, hnew.readyWhenPolled Batches.new⟩

/-- A batch of one operation. -/
def batchOf (operation : Operation Building) : Batch := { Batch.new with operations := [operation] }

/-- A read of another pinned buffer. -/
def otherRead : Operation Building := ⟨.pinned ⟨8192, 8⟩, .raw 4, 0, .read, ⟨⟩⟩

/-- Two batches of one read each; the second completes, and the first is polled. -/
def takenByTheOther : List Action :=
  [.submitBatch (batchOf pinnedRead) .default fun _ => .ok (),
    .submitBatch (batchOf otherRead) .default fun _ => .ok (), .complete 1 (.ok 8),
    .pollBatch 0 7 [] none]

/-- **The completion is gone, and the second batch will never be ready.** -/
theorem not_isolated_takenByTheOther : ∃ ms w, Run ms w ∧ actionsOf ms = takenByTheOther ∧
    Transition.Guarded BatchSteps ms ∧ Transition.spent submissionsOf ms < 2 ^ 64 ∧
    ¬Isolated w ∧ ¬ReadyWhenPolled w := by
  obtain ⟨⟨ms, w⟩, htrace⟩ : ∃ x, World.new.trace takenByTheOther = some x :=
    Option.isSome_iff_exists.mp (by decide)
  obtain ⟨hrun, hacts⟩ := run_of_trace htrace
  have hend : (World.new.trace takenByTheOther).map (fun x =>
      ((x.2.batches[1]?).join.map fun future =>
        (future.operationIds, (future.pollWithRing x.2.ring 7 [] none).map Prod.fst),
        x.2.ring.backend.pending.map Request.userData, x.2.ring.cachedCompletions)) =
      some (some ([some 2], .returned .pending), [1], []) := rfl
  rw [htrace] at hend
  obtain ⟨hfuture, hend⟩ := Prod.mk.inj (Option.some.inj hend)
  obtain ⟨hpending, hcached⟩ := Prod.mk.inj hend
  obtain ⟨future, hfuture, hpolled⟩ := Option.map_eq_some_iff.mp hfuture
  obtain ⟨hids, hpolled⟩ := Prod.mk.inj hpolled
  have hstuck : ¬ReadyWhenPolled w := by
    intro hready
    have hnone : ∀ r ∈ w.ring.backend.pending, some r.userData ∉ future.operationIds := by
      intro r hr hmem
      have hone : r.userData ∈ [1] := hpending ▸ List.mem_map_of_mem hr
      rw [hids, List.mem_singleton.mp hone] at hmem
      exact absurd hmem (by decide)
    obtain ⟨results, polled, ring, hpoll⟩ := hready 1 future (Option.join_eq_some_iff.mp hfuture)
      hnone 7 [] (by rw [hcached])
    rw [hpoll] at hpolled
    exact absurd (Outcome.returned.inj hpolled) (by simp)
  refine ⟨ms, w, hrun, hacts, ?_, ?_, fun hiso => hstuck hiso.ready, hstuck⟩
  · refine guarded_of_actions (p := fun a => BatchSteps World.new ⟨a, .done⟩) (fun _ _ h => h) ?_
    rw [hacts]
    simp [takenByTheOther, BatchSteps]
  · rw [spent_submissionsOf, hacts]
    decide

/-- Two batches of one read each; each read completes, and its batch is polled. -/
def oneByOne : List Action :=
  [.submitBatch (batchOf pinnedRead) .default fun _ => .ok (),
    .submitBatch (batchOf otherRead) .default fun _ => .ok (), .complete 1 (.ok 8),
    .pollBatch 1 7 [] none, .complete 0 (.ok 4), .pollBatch 0 7 [] none]

/-- In that run the batches are isolated all along. -/
theorem isolated_oneByOne : ∃ ms w, Run ms w ∧ actionsOf ms = oneByOne ∧
    Transition.Always Isolated World.new ms := by
  obtain ⟨⟨ms, w⟩, htrace⟩ : ∃ x, World.new.trace oneByOne = some x :=
    Option.isSome_iff_exists.mp (by decide)
  obtain ⟨hrun, hacts⟩ := run_of_trace htrace
  have hbatch : Transition.Guarded BatchSteps ms := by
    refine guarded_of_actions (p := fun a => BatchSteps World.new ⟨a, .done⟩) (fun _ _ h => h) ?_
    rw [hacts]
    simp [oneByOne, BatchSteps]
  have hfew : Transition.spent submissionsOf ms < 2 ^ 64 := by
    rw [spent_submissionsOf, hacts]
    decide
  -- the polls of the run, each with what waits and with what its batch has
  have hpolls : (World.new.trace oneByOne).map (fun x => x.1.all fun m =>
      match m.label.action with
      | .pollBatch b _ _ _ => (m.before.batches[b]?).join.any fun future =>
          m.before.ring.backend.ready.all fun c =>
            decide (future.operationIds[0]? = some (some c.1.userData)) &&
              decide (future.resultAt 0 = none)
      | _ => true) = some true := by
    decide
  rw [htrace] at hpolls
  refine ⟨ms, w, hrun, hacts, (isolated_iff hrun hbatch hfew).mpr fun m hm => ?_⟩
  have hpoll := List.all_eq_true.mp (Option.some.inj hpolls) m hm
  obtain ⟨before, ⟨action, response⟩, after⟩ := m
  cases action with
  | pollBatch b waker cached fail =>
    rcases fail with _ | err
    swap
    · trivial
    intro future hf hopen c hc
    simp only [hf, Option.join_some, Option.any_some, List.all_eq_true, Bool.and_eq_true,
      decide_eq_true_eq] at hpoll
    exact ⟨0, hpoll c hc⟩
  | _ => trivial

end SaferRing
