import SaferRing.Ring

/-!
# The calls that collect completions

Five calls of the ring hand completions over from the backend, each with its own
idea of whom they are for.

| call | an id it was not asked for |
|---|---|
| `SaferRing.Ring.tryComplete`, `waitForCompletion` | an error when it is not tracked |
| `SaferRing.Ring.tryCompleteById` | cached when it is tracked, else dropped |
| `SaferRing.Ring.pollOperationCompletion` | dropped |
| `SaferRing.Ring.tryCompleteSafeOperation` | cached, unless it is an orphan |

The last is what an owned future polls. It passes over the completions one by one
(`SaferRing.Ring.routeCompletion`); what the whole pass does is read off by id in
`SaferRing.Ring.orphan_route`, `SaferRing.Ring.cached_route` and
`SaferRing.Ring.target_route`. What the polling calls come to is
`SaferRing.Ring.processCompletionQueue_cases` and `SaferRing.Ring.tryCompleteById_cases`.
-/

namespace SaferRing

/-- The answer of a poll. -/
inductive Poll (α : Type)
  /-- Not yet. -/
  | pending
  /-- The future is done. -/
  | ready (a : α)
  deriving DecidableEq, Repr

/-- How a call that may block or panic ends. -/
inductive Outcome (α : Type)
  /-- It returns. -/
  | returned (a : α)
  /-- It still blocks. -/
  | blocked
  /-- It panics. -/
  | panicked
  deriving DecidableEq, Repr

/-- What a returned value becomes. -/
def Outcome.map {α β : Type} (f : α → β) : Outcome α → Outcome β
  | .returned a => .returned (f a)
  | .blocked => .blocked
  | .panicked => .panicked

/-- What the polling interface returns of a completion. -/
structure CompletionResult where
  /-- The id of the operation. -/
  operationId : ℕ
  /-- Its type. -/
  opType : OperationType
  /-- Its descriptor. -/
  fd : ℤ
  /-- The result. -/
  result : IoResult
  /-- The buffer the operation owned. -/
  buffer : Option TrackedBuffer
  deriving DecidableEq, Repr

namespace Ring

variable (self : Ring)

/-! ### All completions at once -/

/-- **Hand completions to their operations**, in order. The first id that is not
tracked is an error, and what comes after it is dropped. -/
def processCompletedOperations (self : Ring) :
    List (ℕ × IoResult) → Except SaferRingError (List CompletionResult) × Ring
  | [] => (.ok [], self)
  | (operationId, ioResult) :: rest =>
    match self.operations.completeOperation operationId with
    | (some handle, operations) =>
      let ring := { self with operations }.wakeOperation operationId
      match ring.processCompletedOperations rest with
      | (.ok completions, ring) =>
        (.ok (⟨operationId, handle.opType, handle.fd, ioResult, handle.buffer⟩ :: completions),
          ring)
      | (.error e, ring) => (.error e, ring)
    -- the loop ends here: `rest` was taken from the backend, and is not looked at
    | (none, _) =>
      (.error (.ioNew .invalidData
        s!"Completion for unknown operation ID: {operationId}"), self)

/-- The completions in the cache. -/
def cachedCompletions : List (ℕ × IoResult) :=
  self.completionCache.entries.map fun c => (c.1, c.2)

/-- Empty the cache, which yields its completions in the order `cached`, and ask
the backend when there were none or the call is to wait. -/
def processCompletionQueue (wait : Bool) (cached : List (ℕ × IoResult))
    (fail : Option SaferRingError) :
    Outcome (Except SaferRingError (List CompletionResult) × Ring) :=
  let ring := { self with completionCache := ∅ }
  if wait then
    match ring.backend.waitForCompletion fail with
    | none => .blocked
    | some (.error e, backend) => .returned (.error e, { ring with backend })
    | some (.ok completions, backend) =>
      .returned ({ ring with backend }.processCompletedOperations (cached ++ completions))
  -- the backend is not asked as long as there was something in the cache
  else if cached.isEmpty then
    match ring.backend.tryComplete fail with
    | (.error e, backend) => .returned (.error e, { ring with backend })
    | (.ok completions, backend) =>
      .returned ({ ring with backend }.processCompletedOperations completions)
  else .returned (ring.processCompletedOperations cached)

/-- `try_complete`. -/
def tryComplete (cached : List (ℕ × IoResult)) (fail : Option SaferRingError) :
    Outcome (Except SaferRingError (List CompletionResult) × Ring) :=
  self.processCompletionQueue false cached fail

/-- `wait_for_completion`: only when a legacy operation is tracked. -/
def waitForCompletion (cached : List (ℕ × IoResult)) (fail : Option SaferRingError) :
    Outcome (Except SaferRingError (List CompletionResult) × Ring) :=
  if self.hasOperationsInFlight then self.processCompletionQueue true cached fail
  else .returned (.error (.ioNew .invalidInput "No operations in flight to wait for"), self)

/-! ### One operation of the legacy interface -/

/-- Take one completion, looking for `operationId`: a tracked one is kept, in the
cache or as the result. -/
def collectCompletion (operationId : ℕ) (acc : Option IoResult × Ring)
    (completion : ℕ × IoResult) : Option IoResult × Ring :=
  let (target, ring) := acc
  let (completedId, result) := completion
  if ring.operations.isOperationTracked completedId then
    if completedId = operationId then
      (some result, { ring with
        operations := (ring.operations.completeOperation completedId).2 }.wakeOperation completedId)
    else
      (target, { ring with
        completionCache := ring.completionCache.insert completedId result
        }.wakeOperation completedId)
  else (target, ring)

/-- **`try_complete_by_id`**, after `count` calls of it in the process. From the
52nd on it waits; when the wait fails, the fall-back borrows the backend a second
time while the first borrow is still alive, which panics. -/
def tryCompleteById (operationId count : ℕ) (fail : Option SaferRingError) :
    Outcome (Except SaferRingError (Option IoResult) × Ring) :=
  match self.completionCache.lookup operationId with
  | some result =>
    .returned (.ok (some result), { self with
      completionCache := self.completionCache.erase operationId
      operations := (self.operations.completeOperation operationId).2
      }.wakeOperation operationId)
  | none =>
    if count > 50 then
      match self.backend.waitForCompletion fail with
      | none => .blocked
      -- the fall-back to `try_complete`, with the backend borrowed
      | some (.error _, _) => .panicked
      | some (.ok completions, backend) =>
        let (target, ring) :=
          completions.foldl (collectCompletion operationId) (none, { self with backend })
        .returned (.ok target, ring)
    else
      match self.backend.tryComplete fail with
      | (.error e, backend) => .returned (.error e, { self with backend })
      | (.ok completions, backend) =>
        let (target, ring) :=
          completions.foldl (collectCompletion operationId) (none, { self with backend })
        .returned (.ok target, ring)

/-- Look for an operation among completions, waking the others passed over. -/
def findCompletion (operationId : ℕ) :
    Ring → List (ℕ × IoResult) → Option CompletionResult × Ring
  | ring, [] => (none, ring)
  | ring, (completedId, result) :: rest =>
    if completedId = operationId then
      (some ⟨operationId, .read, 0, result, none⟩, ring)
    else findCompletion operationId (ring.wakeOperation completedId) rest

/-- **`poll_operation_completion`**: everything handed over that is not the
operation asked for is dropped, and nothing is untracked. -/
def pollOperationCompletion (operationId : ℕ) (fail : Option SaferRingError) :
    Except SaferRingError (Option CompletionResult) × Ring :=
  match self.backend.tryComplete fail with
  | (.error e, backend) => (.error e, { self with backend })
  | (.ok completions, backend) =>
    let (result, ring) := findCompletion operationId { self with backend } completions
    (.ok result, ring)

/-! ### One operation of the owned interface -/

/-- **Route one completion**, on behalf of the owned operation `submissionId`. Its
own is the result, unless it is an orphan by now; another is cached, unless it is an
orphan, and whoever waits for it is woken. -/
def routeCompletion (submissionId : ℕ) (acc : Option IoResult × Ring)
    (completion : ℕ × IoResult) : Option IoResult × Ring :=
  let (target, ring) := acc
  let (completedId, result) := completion
  if completedId = submissionId then
    let (orphaned, orphanTracker) := ring.orphanTracker.handleCompletion completedId result
    let ring := { ring with orphanTracker }
    if orphaned.isSome then (target, ring) else (some (copyResult result), ring)
  else
    let ring := { ring with
      completionCache := ring.completionCache.insert completedId (copyResult result) }
    let (orphaned, orphanTracker) := ring.orphanTracker.handleCompletion completedId result
    let ring := { ring with orphanTracker }
    -- put in the cache before anybody looked whether the operation is an orphan
    if orphaned.isSome then
      (target, { ring with completionCache := ring.completionCache.erase completedId })
    else (target, ring.wakeOperation completedId)

/-- **`try_complete_safe_operation`**: from the cache, or from the backend, all of
whose completions are then routed. -/
def tryCompleteSafeOperation (submissionId : ℕ) (fail : Option SaferRingError) :
    Except SaferRingError (Option IoResult) × Ring :=
  match self.completionCache.lookup submissionId with
  | some result =>
    (.ok (some (copyResult result)),
      { self with completionCache := self.completionCache.erase submissionId })
  | none =>
    match self.backend.tryComplete fail with
    | (.error e, backend) => (.error e, { self with backend })
    | (.ok completions, backend) =>
      let (target, ring) :=
        completions.foldl (routeCompletion submissionId) (none, { self with backend })
      (.ok target, ring)

/-! ### What routing does, id by id -/

/-- The outcome of routing completions, one after the other. -/
def route (submissionId : ℕ) (completions : List (ℕ × IoResult)) (target : Option IoResult)
    (ring : Ring) : Option IoResult × Ring :=
  completions.foldl (routeCompletion submissionId) (target, ring)

/-- The ring once everything the backend has was routed on behalf of the operation
`submissionId`, with the result found for it. -/
def drainFor (submissionId : ℕ) : Option IoResult × Ring :=
  route submissionId self.backend.waiting none { self with backend := self.backend.drained }

/-- **How an owned operation is looked for**: in the cache; else the backend fails,
and nothing changes; else everything it has is routed. -/
theorem tryCompleteSafeOperation_cases (submissionId : ℕ) (fail : Option SaferRingError) :
    (∃ result, self.cached submissionId = some result ∧
      self.tryCompleteSafeOperation submissionId fail =
        (.ok (some (copyResult result)),
          { self with completionCache := self.completionCache.erase submissionId })) ∨
    (∃ e, self.cached submissionId = none ∧ fail = some e ∧
      self.tryCompleteSafeOperation submissionId fail = (.error e, self)) ∨
    (self.cached submissionId = none ∧ fail = none ∧
      self.tryCompleteSafeOperation submissionId fail =
        (.ok (self.drainFor submissionId).1, (self.drainFor submissionId).2)) := by
  rcases hc : self.cached submissionId with _ | result
  · refine Or.inr ?_
    rcases fail with _ | e
    · exact Or.inr ⟨rfl, rfl, by simp only [tryCompleteSafeOperation, hc]; rfl⟩
    · exact Or.inl ⟨e, rfl, rfl, by simp only [tryCompleteSafeOperation, hc]; rfl⟩
  · exact Or.inl ⟨result, rfl, by simp only [tryCompleteSafeOperation, hc]⟩

variable {self} {id j : ℕ} {res : IoResult} {completions : List (ℕ × IoResult)}
variable {target : Option IoResult}

@[simp] theorem route_nil : route id [] target self = (target, self) := rfl

theorem route_cons {c : ℕ × IoResult} :
    route id (c :: completions) target self =
      route id completions (routeCompletion id (target, self) c).1
        (routeCompletion id (target, self) c).2 := rfl

section RouteOne

variable {k : ℕ}

/-- Routing the completion asked for. -/
theorem routeCompletion_self :
    routeCompletion id (target, self) (id, res) =
      (if (self.orphan id).isSome then target else some (copyResult res),
        { self with orphanTracker := (self.orphanTracker.handleCompletion id res).2 }) := by
  simp only [routeCompletion, OrphanTracker.isSome_handleCompletion, if_true]
  split <;> rfl

/-- Routing another completion. -/
theorem routeCompletion_other (h : k ≠ id) :
    routeCompletion id (target, self) (k, res) =
      (target,
        if (self.orphan k).isSome then
          { self with
            orphanTracker := (self.orphanTracker.handleCompletion k res).2
            completionCache := (self.completionCache.insert k (copyResult res)).erase k }
        else
          { self with
            orphanTracker := (self.orphanTracker.handleCompletion k res).2
            completionCache := self.completionCache.insert k (copyResult res)
            }.wakeOperation k) := by
  simp only [routeCompletion, OrphanTracker.isSome_handleCompletion, if_neg h]
  split <;> rfl

/-- Routing leaves the backend, the legacy tracker and the id counter alone. -/
theorem routeCompletion_frame {c : ℕ × IoResult} :
    (routeCompletion id (target, self) c).2.backend = self.backend ∧
      (routeCompletion id (target, self) c).2.operations = self.operations ∧
      (routeCompletion id (target, self) c).2.orphanTracker.nextSubmissionId =
        self.orphanTracker.nextSubmissionId := by
  simp only [routeCompletion]
  split
  · split <;> exact ⟨rfl, rfl, rfl⟩
  · split <;> exact ⟨rfl, rfl, rfl⟩

/-- Routing a completion takes its orphan away. -/
theorem orphan_routeCompletion :
    (routeCompletion id (target, self) (k, res)).2.orphan j =
      if j = k then none else self.orphan j := by
  have horphan : (self.orphanTracker.handleCompletion k res).2.orphan j =
      if j = k then none else self.orphan j := OrphanTracker.orphan_handleCompletion
  rw [← horphan]
  by_cases h : k = id
  · rw [h, routeCompletion_self]
  · rw [routeCompletion_other h]
    split <;> rfl

/-- Routing a completion leaves the other cached results alone, and never caches
the one asked for. -/
theorem cached_routeCompletion_of_ne (h : j ≠ k ∨ j = id) :
    (routeCompletion id (target, self) (k, res)).2.cached j = self.cached j := by
  by_cases hk : k = id
  · rw [hk, routeCompletion_self]
  · have hj : j ≠ k := h.elim (fun h => h) (fun h => h ▸ Ne.symm hk)
    rw [routeCompletion_other hk]
    split
    · exact (AList.lookup_erase_ne hj).trans (AList.lookup_insert_ne hj)
    · exact AList.lookup_insert_ne hj

/-- Routing another completion caches it, unless it is an orphan. -/
theorem cached_routeCompletion_self (h : k ≠ id) :
    (routeCompletion id (target, self) (k, res)).2.cached k =
      if (self.orphan k).isSome then none else some (copyResult res) := by
  rw [routeCompletion_other h]
  split
  · exact AList.lookup_erase ..
  · exact AList.lookup_insert ..

/-- Routing a completion finds the one asked for, unless it is an orphan. -/
theorem target_routeCompletion :
    (routeCompletion id (target, self) (k, res)).1 =
      if k = id ∧ self.orphan id = none then some (copyResult res) else target := by
  by_cases h : k = id
  · rw [h, routeCompletion_self]
    cases self.orphan id <;> simp
  · have hneg : ¬(k = id ∧ self.orphan id = none) := fun hc => h hc.1
    rw [routeCompletion_other h, if_neg hneg]

end RouteOne

/-- Routing leaves the backend, the legacy tracker and the id counter alone. -/
theorem route_frame :
    (route id completions target self).2.backend = self.backend ∧
      (route id completions target self).2.operations = self.operations ∧
      (route id completions target self).2.orphanTracker.nextSubmissionId =
        self.orphanTracker.nextSubmissionId := by
  induction completions generalizing target self with
  | nil => exact ⟨rfl, rfl, rfl⟩
  | cons c rest ih =>
    rw [route_cons]
    obtain ⟨hb, ho, hn⟩ := @routeCompletion_frame self id target c
    exact ⟨ih.1.trans hb, ih.2.1.trans ho, ih.2.2.trans hn⟩

/-- **Routing takes the orphans away whose completions it sees.** -/
theorem orphan_route :
    (route id completions target self).2.orphan j =
      if j ∈ completions.map Prod.fst then none else self.orphan j := by
  induction completions generalizing target self with
  | nil => simp
  | cons c rest ih =>
    obtain ⟨k, res⟩ := c
    have hmem : j ∈ ((k, res) :: rest).map Prod.fst ↔ j = k ∨ j ∈ rest.map Prod.fst :=
      List.mem_cons
    rw [route_cons, ih, orphan_routeCompletion]
    by_cases hr : j ∈ rest.map Prod.fst
    · rw [if_pos hr, if_pos (hmem.mpr (Or.inr hr))]
    · rw [if_neg hr]
      by_cases hk : j = k
      · rw [if_pos hk, if_pos (hmem.mpr (Or.inl hk))]
      · rw [if_neg hk, if_neg (fun hc => (hmem.mp hc).elim hk hr)]

/-- Routing leaves the cached results alone whose completions it does not see, and
the result of the operation asked for. -/
theorem cached_route_of_notMem (h : j ∉ completions.map Prod.fst ∨ j = id) :
    (route id completions target self).2.cached j = self.cached j := by
  induction completions generalizing target self with
  | nil => rfl
  | cons c rest ih =>
    obtain ⟨k, res⟩ := c
    rw [List.map_cons, List.mem_cons, not_or] at h
    rw [route_cons, ih (h.imp_left And.right),
      cached_routeCompletion_of_ne (h.imp_left And.left)]

/-- **Routing caches every completion it sees**, but the one asked for and those of
orphans. -/
theorem cached_route (hnd : (completions.map Prod.fst).Nodup) (hj : j ≠ id)
    (h : (j, res) ∈ completions) :
    (route id completions target self).2.cached j =
      if (self.orphan j).isSome then none else some (copyResult res) := by
  induction completions generalizing target self with
  | nil => exact absurd h (by simp)
  | cons c rest ih =>
    obtain ⟨k, res'⟩ := c
    obtain ⟨hk, hrest⟩ := List.nodup_cons.mp hnd
    rw [route_cons]
    rcases List.mem_cons.mp h with h | h
    -- cached by this completion, and left alone by those after it
    · obtain ⟨rfl, rfl⟩ := Prod.mk.inj h
      rw [cached_route_of_notMem (Or.inl hk), cached_routeCompletion_self hj]
    · have hjk : j ≠ k := fun hc => hk (List.mem_map.mpr ⟨(j, res), h, hc⟩)
      rw [ih hrest h, orphan_routeCompletion, if_neg hjk]

/-- Routing finds nothing when the operation asked for is not among the
completions, or is an orphan. -/
theorem target_route_of_notMem
    (h : id ∉ completions.map Prod.fst ∨ (self.orphan id).isSome)
    (hnd : (completions.map Prod.fst).Nodup) :
    (route id completions target self).1 = target := by
  induction completions generalizing target self with
  | nil => rfl
  | cons c rest ih =>
    obtain ⟨k, res⟩ := c
    obtain ⟨hk, hrest⟩ := List.nodup_cons.mp hnd
    rw [List.map_cons, List.mem_cons, not_or] at h
    have ht : (routeCompletion id (target, self) (k, res)).1 = target := by
      rw [target_routeCompletion, if_neg]
      rintro ⟨rfl, ho⟩
      rcases h with h | h
      · exact h.1 rfl
      · simp [ho] at h
    rw [route_cons, ih _ hrest, ht]
    by_cases hki : k = id
    · exact Or.inl (hki ▸ hk)
    · refine h.imp And.right fun ho => ?_
      rwa [orphan_routeCompletion, if_neg (Ne.symm hki)]

/-- **Routing finds the completion asked for**, unless it is an orphan. -/
theorem target_route (hnd : (completions.map Prod.fst).Nodup) (ho : self.orphan id = none)
    (h : (id, res) ∈ completions) :
    (route id completions target self).1 = some (copyResult res) := by
  induction completions generalizing target self with
  | nil => exact absurd h (by simp)
  | cons c rest ih =>
    obtain ⟨k, res'⟩ := c
    obtain ⟨hk, hrest⟩ := List.nodup_cons.mp hnd
    rw [route_cons]
    rcases List.mem_cons.mp h with h | h
    · obtain ⟨rfl, rfl⟩ := Prod.mk.inj h
      rw [target_route_of_notMem (Or.inl hk) hrest, target_routeCompletion, if_pos ⟨rfl, ho⟩]
    -- a completion that comes before makes no orphan of the operation asked for
    · refine ih hrest ?_ h
      rw [orphan_routeCompletion, ho, ite_self]

section DrainFor

variable {v : IoResult}

/-- What is found is a completion that waits for the operation, which is no orphan. -/
theorem drainFor_eq_some (hnd : (self.backend.waiting.map Prod.fst).Nodup)
    (h : (self.drainFor id).1 = some v) :
    self.orphan id = none ∧ ∃ res, (id, res) ∈ self.backend.waiting ∧ v = copyResult res := by
  by_cases hmem : id ∉ self.backend.waiting.map Prod.fst ∨ (self.orphan id).isSome
  · have hnone : (self.drainFor id).1 = none := target_route_of_notMem hmem hnd
    exact absurd (hnone.symm.trans h) (by simp)
  · obtain ⟨hin, ho⟩ := not_or.mp hmem
    obtain ⟨⟨k, res⟩, hk, hkid⟩ := List.mem_map.mp (not_not.mp hin)
    have hres : (id, res) ∈ self.backend.waiting := hkid ▸ hk
    have hnone : self.orphan id = none := Option.not_isSome_iff_eq_none.mp ho
    have hsome : (self.drainFor id).1 = some (copyResult res) := target_route hnd hnone hres
    exact ⟨hnone, res, hres, Option.some.inj (h.symm.trans hsome)⟩

/-- Nothing is found when no completion waits for the operation, or it is an
orphan. -/
theorem drainFor_eq_none (hnd : (self.backend.waiting.map Prod.fst).Nodup)
    (h : (self.drainFor id).1 = none) :
    id ∉ self.backend.waiting.map Prod.fst ∨ (self.orphan id).isSome := by
  by_contra hmem
  obtain ⟨hin, ho⟩ := not_or.mp hmem
  obtain ⟨⟨k, res⟩, hk, hkid⟩ := List.mem_map.mp (not_not.mp hin)
  have hres : (id, res) ∈ self.backend.waiting := hkid ▸ hk
  have hsome : (self.drainFor id).1 = some (copyResult res) :=
    target_route hnd (Option.not_isSome_iff_eq_none.mp ho) hres
  exact absurd (h.symm.trans hsome) (by simp)

end DrainFor

/-! ### What the collecting calls come to -/

/-- What is taken on behalf of one operation, one completion after the other. -/
def collect (operationId : ℕ) (completions : List (ℕ × IoResult)) (target : Option IoResult)
    (ring : Ring) : Option IoResult × Ring :=
  completions.foldl (collectCompletion operationId) (target, ring)

/-- The ring once everything the backend has was collected on behalf of one operation, with the
result found for it. -/
def collectFor (self : Ring) (operationId : ℕ) : Option IoResult × Ring :=
  collect operationId self.backend.waiting none { self with backend := self.backend.drained }

/-- The ring once the cached result of an operation was handed out. -/
def handedOut (self : Ring) (operationId : ℕ) : Ring :=
  { self with
    completionCache := self.completionCache.erase operationId
    operations := (self.operations.completeOperation operationId).2 }.wakeOperation operationId

section Cases

variable {s t : Ring} {cached : List (ℕ × IoResult)} {fail : Option SaferRingError}

/-- **What emptying the cache comes to**: the backend fails, and what was cached is lost; or what
was cached is handed over, and, when the backend is asked, what waits. -/
theorem processCompletionQueue_cases {wait : Bool}
    {a : Except SaferRingError (List CompletionResult)}
    (h : s.processCompletionQueue wait cached fail = .returned (a, t)) :
    (∃ e, fail = some e ∧ a = .error e ∧ t = { s with completionCache := ∅ }) ∨
      ∃ b completions, (b = s.backend ∧ completions = cached ∨
          b = s.backend.drained ∧ completions = cached ++ s.backend.waiting) ∧
        { s with completionCache := ∅, backend := b }.processCompletedOperations completions =
          (a, t) := by
  unfold processCompletionQueue at h
  split at h
  · rcases fail with _ | e
    · rcases hr : s.backend.ready.isEmpty with _ | _
      · simp only [Backend.waitForCompletion, hr, Backend.tryComplete] at h
        exact Or.inr ⟨_, _, Or.inr ⟨rfl, rfl⟩, Outcome.returned.inj h⟩
      · simp [Backend.waitForCompletion, hr] at h
    · obtain ⟨rfl, rfl⟩ := Prod.mk.inj (Outcome.returned.inj h)
      exact Or.inl ⟨e, rfl, rfl, rfl⟩
  -- the backend is asked only where nothing was cached
  · split at h
    · rename_i hempty
      obtain rfl := List.isEmpty_iff.mp hempty
      rcases fail with _ | e
      · exact Or.inr ⟨_, _, Or.inr ⟨rfl, rfl⟩, Outcome.returned.inj h⟩
      · obtain ⟨rfl, rfl⟩ := Prod.mk.inj (Outcome.returned.inj h)
        exact Or.inl ⟨e, rfl, rfl, rfl⟩
    · exact Or.inr ⟨_, _, Or.inl ⟨rfl, rfl⟩, Outcome.returned.inj h⟩

/-- The ids in the cache. -/
theorem map_fst_cachedCompletions :
    self.cachedCompletions.map Prod.fst = self.completionCache.keys := by
  rw [cachedCompletions, List.map_map]
  rfl

/-- A wait changes nothing, or empties the cache. -/
theorem waitForCompletion_cases {a : Except SaferRingError (List CompletionResult)}
    (h : s.waitForCompletion cached fail = .returned (a, t)) :
    t = s ∨ s.processCompletionQueue true cached fail = .returned (a, t) := by
  unfold waitForCompletion at h
  split at h
  · exact Or.inr h
  · obtain ⟨-, rfl⟩ := Prod.mk.inj (Outcome.returned.inj h)
    exact Or.inl rfl

/-- What is cached is handed out, however often was asked before. -/
theorem tryCompleteById_of_cached (h : self.cached id = some res) (count : ℕ)
    (fail : Option SaferRingError) :
    self.tryCompleteById id count fail = .returned (.ok (some res), self.handedOut id) := by
  rw [tryCompleteById, show self.completionCache.lookup id = some res from h]
  rfl

/-- **What asking for an operation comes to**: what is cached is handed out; else the backend
fails, and nothing changes; else everything it has is collected. -/
theorem tryCompleteById_cases {count : ℕ} {a : Except SaferRingError (Option IoResult)}
    (h : self.tryCompleteById id count fail = .returned (a, t)) :
    (∃ res, self.cached id = some res ∧ a = .ok (some res) ∧ t = self.handedOut id) ∨
      (∃ e, fail = some e ∧ self.cached id = none ∧ a = .error e ∧ t = self) ∨
      fail = none ∧ self.cached id = none ∧ a = .ok (self.collectFor id).1 ∧
        t = (self.collectFor id).2 := by
  rcases hc : self.cached id with _ | res
  swap
  · rw [tryCompleteById_of_cached hc] at h
    obtain ⟨rfl, rfl⟩ := Prod.mk.inj (Outcome.returned.inj h)
    exact Or.inl ⟨res, rfl, rfl, rfl⟩
  refine Or.inr ?_
  rw [tryCompleteById, show self.completionCache.lookup id = none from hc] at h
  dsimp only at h
  split at h
  · rcases fail with _ | e
    · rcases hr : self.backend.ready.isEmpty with _ | _
      · simp only [Backend.waitForCompletion, hr, Backend.tryComplete] at h
        obtain ⟨rfl, rfl⟩ := Prod.mk.inj (Outcome.returned.inj h)
        exact Or.inr ⟨rfl, rfl, rfl, rfl⟩
      · simp [Backend.waitForCompletion, hr] at h
    · exact absurd h (by simp [Backend.waitForCompletion])
  · rcases fail with _ | e
    · obtain ⟨rfl, rfl⟩ := Prod.mk.inj (Outcome.returned.inj h)
      exact Or.inr ⟨rfl, rfl, rfl, rfl⟩
    · obtain ⟨rfl, rfl⟩ := Prod.mk.inj (Outcome.returned.inj h)
      exact Or.inl ⟨e, rfl, rfl, rfl, rfl⟩

end Cases

/-! ### What the collecting calls leave alone -/

/-- **What collecting does to the rest of a ring**: all completions of the backend are
taken or none is, no id is drawn, and the orphans stay. -/
structure Collects (s t : Ring) : Prop where
  backend : t.backend = s.backend ∨ t.backend = s.backend.drained
  nextId : t.operations.nextId = s.operations.nextId
  orphanTracker : t.orphanTracker = s.orphanTracker

section Collects

variable {s t : Ring}

/-- A ring changed in nothing but its cache, its wakers and what it tracks. -/
theorem Collects.of_eq (hb : t.backend = s.backend) (hn : t.operations.nextId = s.operations.nextId)
    (ho : t.orphanTracker = s.orphanTracker) : s.Collects t :=
  ⟨Or.inl hb, hn, ho⟩

/-- **What holds while one completion after the other is handed to its operation** holds at
the end, however far that gets. -/
theorem processCompletedOperations_induction {P : Ring → Prop} {completions : List (ℕ × IoResult)}
    (hone : ∀ ring, ∀ k ∈ completions.map Prod.fst, P ring →
      P ({ ring with operations := (ring.operations.completeOperation k).2 }.wakeOperation k))
    (self : Ring) (h : P self) : P (self.processCompletedOperations completions).2 := by
  induction completions generalizing self with
  | nil => exact h
  | cons c rest ih =>
    obtain ⟨k, res⟩ := c
    have hrest := ih (fun ring j hj => hone ring j (List.mem_cons_of_mem _ hj)) _
      (hone self k List.mem_cons_self h)
    rw [processCompletedOperations]
    rcases hl : self.operations.inFlight.lookup k with _ | handle
    · simp only [OperationTracker.completeOperation, hl]
      exact h
    · simp only [OperationTracker.completeOperation, hl] at hrest ⊢
      split
      all_goals
        rename_i hcall
        rw [hcall] at hrest
        exact hrest

/-- Handing completions to their operations leaves the backend and the orphans alone. -/
theorem processCompletedOperations_frame (self : Ring) (completions : List (ℕ × IoResult)) :
    (self.processCompletedOperations completions).2.backend = self.backend ∧
      (self.processCompletedOperations completions).2.operations.nextId =
        self.operations.nextId ∧
      (self.processCompletedOperations completions).2.orphanTracker = self.orphanTracker ∧
      (self.processCompletedOperations completions).2.completionCache = self.completionCache :=
  processCompletedOperations_induction (P := fun ring => ring.backend = self.backend ∧
    ring.operations.nextId = self.operations.nextId ∧ ring.orphanTracker = self.orphanTracker ∧
    ring.completionCache = self.completionCache) (fun _ _ _ h => h) self ⟨rfl, rfl, rfl, rfl⟩

/-- **Completions of different operations, all of them tracked, are all handed over**, and
their operations are tracked no longer. -/
theorem processCompletedOperations_ok (self : Ring) {completions : List (ℕ × IoResult)}
    (hnd : (completions.map Prod.fst).Nodup)
    (htracked : ∀ id ∈ completions.map Prod.fst, id ∈ self.operations.inFlight) :
    ∃ results ring, self.processCompletedOperations completions = (.ok results, ring) ∧
      results.map (fun c => (c.operationId, c.result)) = completions ∧
      ∀ id, id ∈ ring.operations.inFlight ↔
        id ∈ self.operations.inFlight ∧ id ∉ completions.map Prod.fst := by
  induction completions generalizing self with
  | nil => exact ⟨[], self, rfl, rfl, fun _ => (and_iff_left List.not_mem_nil).symm⟩
  | cons c rest ih =>
    obtain ⟨k, res⟩ := c
    obtain ⟨hk, hrest⟩ := List.nodup_cons.mp hnd
    obtain ⟨handle, hl⟩ := Option.isSome_iff_exists.mp
      (AList.lookup_isSome.mpr (htracked k List.mem_cons_self))
    have hleft : ∀ id ∈ rest.map Prod.fst,
        id ∈ (self.operations.completeOperation k).2.inFlight := by
      intro id hid
      have hne : id ≠ k := fun hc => hk (hc ▸ hid)
      exact (OperationTracker.mem_completeOperation _).mpr
        ⟨hne, htracked id (List.mem_cons_of_mem _ hid)⟩
    obtain ⟨results, ring, hcall, hres, hmem⟩ := ih
      ({ self with operations := (self.operations.completeOperation k).2 }.wakeOperation k) hrest
      hleft
    refine ⟨⟨k, handle.opType, handle.fd, res, handle.buffer⟩ :: results, ring, ?_,
      congrArg ((k, res) :: ·) hres, fun id => ?_⟩
    · have hcomplete : self.operations.completeOperation k =
          (some handle, (self.operations.completeOperation k).2) := Prod.ext hl rfl
      rw [processCompletedOperations, hcomplete]
      simp only [hcall]
    · refine (hmem id).trans ?_
      rw [operations_wakeOperation, OperationTracker.mem_completeOperation, List.map_cons,
        List.mem_cons, not_or, and_comm (a := id ≠ k), and_assoc]

/-- **`try_complete` hands over everything that waits**, when nothing is cached and what is in
flight is tracked, under different ids. -/
theorem tryComplete_waiting (self : Ring) (hnd : self.backend.inFlightIds.Nodup)
    (htracked : ∀ id ∈ self.backend.inFlightIds, id ∈ self.operations.inFlight) :
    ∃ results t, self.tryComplete [] none = .returned (.ok results, t) ∧
      results.map (fun c => (c.operationId, c.result)) = self.backend.waiting ∧
      t.backend = self.backend.drained ∧ t.operations.nextId = self.operations.nextId ∧
      t.completionCache = ∅ ∧ ∀ id ∈ t.backend.inFlightIds, id ∈ t.operations.inFlight := by
  rw [Backend.inFlightIds_eq] at hnd
  have hwaiting : ∀ id ∈ self.backend.waiting.map Prod.fst, id ∈ self.operations.inFlight := by
    intro id hid
    refine htracked id ?_
    rw [Backend.inFlightIds_eq]
    exact List.mem_append_right _ hid
  let ring : Ring := { self with completionCache := ∅, backend := self.backend.drained }
  obtain ⟨results, t, hcall, hres, hmem⟩ :=
    ring.processCompletedOperations_ok (List.nodup_append.mp hnd).2.1 hwaiting
  obtain ⟨hb, hn, -, hc⟩ := ring.processCompletedOperations_frame self.backend.waiting
  rw [hcall] at hb hn hc
  have hb : t.backend = self.backend.drained := hb
  refine ⟨results, t, congrArg Outcome.returned hcall, hres, hb, hn, hc, fun id hid => ?_⟩
  rw [hb, Backend.inFlightIds, Backend.inFlight_drained] at hid
  refine (hmem id).mpr ⟨htracked id ?_, fun hw => List.disjoint_of_nodup_append hnd hid hw⟩
  rw [Backend.inFlightIds_eq]
  exact List.mem_append_left _ hid

/-- Emptying the cache and asking the backend. -/
theorem collects_processCompletionQueue {wait : Bool} {cached : List (ℕ × IoResult)}
    {fail : Option SaferRingError} {a : Except SaferRingError (List CompletionResult)}
    (h : s.processCompletionQueue wait cached fail = .returned (a, t)) : s.Collects t := by
  rcases processCompletionQueue_cases h with ⟨_, -, -, rfl⟩ | ⟨b, completions, hwhat, hcall⟩
  · exact .of_eq rfl rfl rfl
  let ring : Ring := { s with completionCache := ∅, backend := b }
  obtain ⟨hb, hn, ho, -⟩ := ring.processCompletedOperations_frame completions
  rw [hcall] at hb hn ho
  refine ⟨?_, hn, ho⟩
  rcases hwhat with ⟨rfl, -⟩ | ⟨rfl, -⟩
  · exact Or.inl hb
  · exact Or.inr hb

/-- `try_complete`. -/
theorem collects_tryComplete {cached : List (ℕ × IoResult)} {fail : Option SaferRingError}
    {a : Except SaferRingError (List CompletionResult)}
    (h : s.tryComplete cached fail = .returned (a, t)) : s.Collects t :=
  collects_processCompletionQueue h

/-- `wait_for_completion`. -/
theorem collects_waitForCompletion {cached : List (ℕ × IoResult)} {fail : Option SaferRingError}
    {a : Except SaferRingError (List CompletionResult)}
    (h : s.waitForCompletion cached fail = .returned (a, t)) : s.Collects t := by
  rcases waitForCompletion_cases h with rfl | h
  · exact .of_eq rfl rfl rfl
  · exact collects_processCompletionQueue h

/-- Taking completions, looking for one, leaves the backend and the orphans alone. -/
theorem foldl_collectCompletion_frame (id : ℕ) (completions : List (ℕ × IoResult))
    (acc : Option IoResult × Ring) :
    (completions.foldl (collectCompletion id) acc).2.backend = acc.2.backend ∧
      (completions.foldl (collectCompletion id) acc).2.operations.nextId =
        acc.2.operations.nextId ∧
      (completions.foldl (collectCompletion id) acc).2.orphanTracker = acc.2.orphanTracker := by
  refine List.foldlRecOn (motive := fun r : Option IoResult × Ring => r.2.backend = acc.2.backend ∧
    r.2.operations.nextId = acc.2.operations.nextId ∧ r.2.orphanTracker = acc.2.orphanTracker)
    completions _ ⟨rfl, rfl, rfl⟩ fun r h c _ => ?_
  simp only [collectCompletion]
  split
  · split <;> exact h
  · exact h

/-- Collecting for an operation asks the backend for all it has. -/
theorem backend_collectFor : (self.collectFor id).2.backend = self.backend.drained :=
  (foldl_collectCompletion_frame id self.backend.waiting
    (none, { self with backend := self.backend.drained })).1

/-- `try_complete_by_id`. -/
theorem collects_tryCompleteById {id count : ℕ} {fail : Option SaferRingError}
    {a : Except SaferRingError (Option IoResult)}
    (h : s.tryCompleteById id count fail = .returned (a, t)) : s.Collects t := by
  rcases tryCompleteById_cases h with ⟨_, -, -, rfl⟩ | ⟨_, -, -, -, rfl⟩ | ⟨-, -, -, rfl⟩
  · exact .of_eq rfl rfl rfl
  · exact .of_eq rfl rfl rfl
  · obtain ⟨hb, hn, ho⟩ := foldl_collectCompletion_frame id s.backend.waiting
      (none, { s with backend := s.backend.drained })
    exact ⟨Or.inr hb, hn, ho⟩

/-- Looking for one completion changes the wakers only. -/
theorem findCompletion_frame (id : ℕ) (ring : Ring) (completions : List (ℕ × IoResult)) :
    (findCompletion id ring completions).2 =
      { ring with wakerRegistry := (findCompletion id ring completions).2.wakerRegistry } := by
  induction completions generalizing ring with
  | nil => rfl
  | cons c rest ih =>
    rw [findCompletion]
    split
    · rfl
    · exact ih (ring.wakeOperation c.1)

/-- `poll_operation_completion`. -/
theorem collects_pollOperationCompletion (s : Ring) (id : ℕ) (fail : Option SaferRingError) :
    s.Collects (s.pollOperationCompletion id fail).2 := by
  rcases fail with _ | e
  · have hfind := findCompletion_frame id { s with backend := s.backend.drained } s.backend.waiting
    simp only [pollOperationCompletion, Backend.tryComplete]
    rw [hfind]
    exact ⟨Or.inr rfl, rfl, rfl⟩
  · exact .of_eq rfl rfl rfl

/-- **What an owned operation does to the ring when it looks for its completion**, short
of the orphans: all completions are taken or none is, and no id is drawn. -/
theorem tryCompleteSafeOperation_frame (s : Ring) (id : ℕ) (fail : Option SaferRingError) :
    ((s.tryCompleteSafeOperation id fail).2.backend = s.backend ∨
      (s.tryCompleteSafeOperation id fail).2.backend = s.backend.drained) ∧
    (s.tryCompleteSafeOperation id fail).2.operations = s.operations ∧
    (s.tryCompleteSafeOperation id fail).2.orphanTracker.nextSubmissionId =
      s.orphanTracker.nextSubmissionId := by
  rcases s.tryCompleteSafeOperation_cases id fail with ⟨_, -, h⟩ | ⟨_, -, -, h⟩ | ⟨-, -, h⟩
  · rw [h]
    exact ⟨Or.inl rfl, rfl, rfl⟩
  · rw [h]
    exact ⟨Or.inl rfl, rfl, rfl⟩
  · obtain ⟨hb, ho, hn⟩ := @route_frame { s with backend := s.backend.drained } id
      s.backend.waiting none
    rw [h]
    exact ⟨Or.inr hb, ho, hn⟩

end Collects

end Ring

end SaferRing
