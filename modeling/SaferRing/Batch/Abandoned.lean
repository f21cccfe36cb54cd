import SaferRing.Batch.Order
import SaferRing.Refusal

/-!
# A batch whose submission fails

The submission of a batch goes through its operations and returns at the first that is not
submitted, with an error and without a future. The operations before it are in flight by then, and
stay tracked: nobody has their ids, and nothing takes them back.

What the submission that fails leaves itself is another matter
(`SaferRing.Ring.atomicOnError_iff`), and is left out here: `SaferRing.Ring.submitTraceless` is
`SaferRing.Ring.submit` without the trace of a failure, and
`SaferRing.Ring.submitBatchWith` the submission of a batch with it, or with `Ring::submit` itself
(`SaferRing.Ring.submitBatchWith_submit`). Even so a batch is submitted as a whole or not at all
**exactly when its first operation is not submitted, or all are**:
`SaferRing.Ring.allOrNothing_iff`.
-/

namespace SaferRing

namespace Ring

/-! ### Submission, but for its trace -/

/-- What submits an operation: `Ring::submit`, or something in its place. -/
abbrev Submission := Ring → Operation Building → Except SaferRingError Unit →
  Except SaferRingError (Operation Submitted) × Ring

/-- **`Ring::submit`, where a failure leaves no trace.** -/
def submitTraceless (self : Ring) (operation : Operation Building)
    (answer : Except SaferRingError Unit) : Except SaferRingError (Operation Submitted) × Ring :=
  match self.submit operation answer with
  | (.error e, _) => (.error e, self)
  | (.ok submitted, ring) => (.ok submitted, ring)

/-- The loop of a submission, with `submit` in the place of `Ring::submit`. -/
def submitAllWith (submit : Submission) (answers : ℕ → Except SaferRingError Unit) :
    Ring → ℕ → List (Operation Building) → Except SaferRingError (List ℕ) × Ring
  | ring, _, [] => (.ok [], ring)
  | ring, index, operation :: rest =>
    match submit ring operation (answers index) with
    | (.error e, ring) => (.error e, ring)
    | (.ok submitted, ring) =>
      match submitAllWith submit answers ring (index + 1) rest with
      | (.error e, ring) => (.error e, ring)
      | (.ok ids, ring) => (.ok (submitted.state.id :: ids), ring)

/-- **The submission of a batch**, with `submit` in the place of `Ring::submit`; `future` is the
future it makes of the ids. -/
def submitBatchWith {F : Type} (submit : Submission) (future : List ℕ → Ring → F) (self : Ring)
    (batch : Batch) (config : BatchConfig) (answers : ℕ → Except SaferRingError Unit) :
    Except SaferRingError F × Ring :=
  match checkBatch batch config with
  | .error e => (.error e, self)
  | .ok () =>
    match submitAllWith submit answers self 0 batch.operations with
    | (.error e, ring) => (.error e, ring)
    | (.ok ids, ring) => (.ok (future ids ring), ring)

/-- The future without a ring. -/
def standaloneFuture (batch : Batch) (config : BatchConfig) (ids : List ℕ) (_ring : Ring) :
    StandaloneBatchFuture :=
  .new (ids.map some) (keptDependencies batch) config.failFast

/-- The future with its ring. -/
def borrowingFuture (batch : Batch) (config : BatchConfig) (ids : List ℕ) (ring : Ring) :
    BatchFuture :=
  .new (ids.map some) (keptDependencies batch) ring config.failFast

variable {answers : ℕ → Except SaferRingError Unit} {ring : Ring} {index : ℕ}
variable {operation : Operation Building} {operations rest : List (Operation Building)}

/-- The loop goes on after an operation that is submitted. -/
theorem submitAllWith_cons {submit : Submission} {submitted : Operation Submitted} {next : Ring}
    (h : submit ring operation (answers index) = (.ok submitted, next)) :
    submitAllWith submit answers ring index (operation :: rest) =
      ((submitAllWith submit answers next (index + 1) rest).1.map (submitted.state.id :: ·),
        (submitAllWith submit answers next (index + 1) rest).2) := by
  rw [submitAllWith, h]
  dsimp only
  rcases submitAllWith submit answers next (index + 1) rest with ⟨_ | ids, t⟩ <;> rfl

/-- It ends with the first operation that is not. -/
theorem submitAllWith_cons_error {submit : Submission} {e : SaferRingError} {next : Ring}
    (h : submit ring operation (answers index) = (.error e, next)) :
    submitAllWith submit answers ring index (operation :: rest) = (.error e, next) := by
  rw [submitAllWith, h]

/-- With `Ring::submit`, the loop is the loop of the source. -/
theorem submitAllWith_submit (answers : ℕ → Except SaferRingError Unit) (ring : Ring) (index : ℕ)
    (operations : List (Operation Building)) :
    submitAllWith submit answers ring index operations =
      submitAll answers ring index operations := by
  induction operations generalizing ring index with
  | nil => rfl
  | cons operation rest ih =>
    rw [submitAllWith, submitAll]
    rcases ring.submit operation (answers index) with ⟨_ | submitted, next⟩
    · rfl
    · rcases hrest : submitAll answers next (index + 1) rest with ⟨_ | ids, t⟩
      all_goals simp only [ih, hrest]

/-- **With `Ring::submit`, these are the submissions of the source.** -/
theorem submitBatchWith_submit (self : Ring) (batch : Batch) (config : BatchConfig)
    (answers : ℕ → Except SaferRingError Unit) :
    self.submitBatchStandaloneWithConfig batch config answers =
        submitBatchWith submit (standaloneFuture batch config) self batch config answers ∧
      self.submitBatchWithConfig batch config answers =
        submitBatchWith submit (borrowingFuture batch config) self batch config answers := by
  constructor
  · rw [submitBatchStandaloneWithConfig, submitBatchWith, submitAllWith_submit]
    rfl
  · rw [submitBatchWithConfig, submitBatchWith, submitAllWith_submit]
    rfl

/-- **What a submission can do that leaves no trace of a failure**: change nothing, or be accepted,
where the operation is valid and the backend accepts it. -/
theorem submitTraceless_cases (self : Ring) (operation : Operation Building)
    (answer : Except SaferRingError Unit) :
    (∃ e, ¬(answer = .ok () ∧ operation.validate = .ok ()) ∧
      self.submitTraceless operation answer = (.error e, self)) ∨
    (answer = .ok () ∧ operation.validate = .ok ()) ∧
      ∃ submitted request, self.submitTraceless operation answer =
        (.ok submitted, (self.tracking operation).accepted request) := by
  unfold submitTraceless
  rcases self.submit_cases operation answer with
    ⟨msg, hbad, hsub⟩ | ⟨e, hrefused, -, hsub⟩ | ⟨ha, hv, hsub⟩
  · refine Or.inl ⟨.ioNew .invalidInput msg, fun h => absurd (hbad.symm.trans h.2) (by simp), ?_⟩
    rw [hsub]
  · refine Or.inl ⟨e, fun h => absurd (hrefused.symm.trans h.1) (by simp), ?_⟩
    rw [hsub]
  · exact Or.inr ⟨⟨ha, hv⟩, _, _, by rw [hsub]⟩

/-- **The trace of a failure is in the tracker only**: with it and without it the loop answers the
same, and the backend has the same operations. -/
theorem submitAllWith_submitTraceless (answers : ℕ → Except SaferRingError Unit) (ring : Ring)
    (index : ℕ) (operations : List (Operation Building)) :
    (submitAllWith submitTraceless answers ring index operations).1 =
        (submitAll answers ring index operations).1 ∧
      (submitAllWith submitTraceless answers ring index operations).2.backend =
        (submitAll answers ring index operations).2.backend := by
  induction operations generalizing ring index with
  | nil => exact ⟨rfl, rfl⟩
  | cons operation rest ih =>
    rw [submitAllWith, submitAll, submitTraceless]
    rcases ring.submit_cases operation (answers index) with
      ⟨msg, -, hsub⟩ | ⟨e, -, -, hsub⟩ | ⟨-, -, hsub⟩
    · rw [hsub]
      exact ⟨rfl, rfl⟩
    · rw [hsub]
      exact ⟨rfl, rfl⟩
    · rw [hsub]
      obtain ⟨hanswer, hback⟩ := ih ((ring.tracking operation).accepted
        (legacyRequest { operation with state := ⟨ring.operations.nextId⟩ })) (index + 1)
      simp only
      rcases hcall : submitAllWith submitTraceless answers ((ring.tracking operation).accepted
        (legacyRequest { operation with state := ⟨ring.operations.nextId⟩ })) (index + 1) rest with
        ⟨result, next⟩
      rcases hcall' : submitAll answers ((ring.tracking operation).accepted
        (legacyRequest { operation with state := ⟨ring.operations.nextId⟩ })) (index + 1) rest with
        ⟨result', next'⟩
      rw [hcall, hcall'] at hanswer hback
      obtain rfl := hanswer
      rcases result with _ | ids <;> exact ⟨rfl, hback⟩

/-! ### As a whole or not at all -/

/-- **Nothing is left of a batch**: the ring tracks what it did, and the backend has in flight what
it had. -/
structure NothingLeft (s t : Ring) : Prop where
  tracked : ∀ id, t.operations.inFlight.lookup id = s.operations.inFlight.lookup id
  inFlight : t.backend.inFlight.Perm s.backend.inFlight

/-- **A batch is submitted as a whole or not at all**, by both submissions, with `submit` in the
place of `Ring::submit`: when they fail, nothing of it is left. -/
def AllOrNothing (self : Ring) (submit : Submission) (batch : Batch) (config : BatchConfig)
    (answers : ℕ → Except SaferRingError Unit) : Prop :=
  (∀ e t, submitBatchWith submit (standaloneFuture batch config) self batch config answers =
      (.error e, t) → self.NothingLeft t) ∧
    ∀ e t, submitBatchWith submit (borrowingFuture batch config) self batch config answers =
      (.error e, t) → self.NothingLeft t

theorem NothingLeft.refl (s : Ring) : s.NothingLeft s := ⟨fun _ => rfl, List.Perm.refl _⟩

/-- What is in flight stays in flight while a batch is submitted. -/
theorem length_inFlight_submitAllWith (answers : ℕ → Except SaferRingError Unit) (ring : Ring)
    (index : ℕ) (operations : List (Operation Building)) : ring.backend.inFlight.length ≤
      (submitAllWith submitTraceless answers ring index operations).2.backend.inFlight.length := by
  induction operations generalizing ring index with
  | nil => exact le_refl _
  | cons operation rest ih =>
    rcases ring.submitTraceless_cases operation (answers index) with
      ⟨e, -, hsub⟩ | ⟨-, submitted, request, hsub⟩
    · rw [submitAllWith_cons_error hsub]
    · have hone : ((ring.tracking operation).accepted request).backend.inFlight.length =
          ring.backend.inFlight.length + 1 := Backend.inFlight_accepted_perm.length_eq
      rw [submitAllWith_cons hsub]
      have hrest := ih ((ring.tracking operation).accepted request) (index + 1)
      dsimp only
      omega

/-- **A batch is submitted when all its operations are.** -/
theorem submitAllWith_ok_iff (answers : ℕ → Except SaferRingError Unit) (ring : Ring) (index : ℕ)
    (operations : List (Operation Building)) :
    (∃ ids, (submitAllWith submitTraceless answers ring index operations).1 = .ok ids) ↔
      ∀ k < operations.length, Accepts (fun k => answers (index + k)) operations k := by
  induction operations generalizing ring index with
  | nil => exact iff_of_true ⟨[], rfl⟩ fun k hk => absurd hk (Nat.not_lt_zero k)
  | cons operation rest ih =>
    rw [List.length_cons, forall_accepts_cons, Nat.add_zero]
    rcases ring.submitTraceless_cases operation (answers index) with
      ⟨e, hnot, hsub⟩ | ⟨hfirst, submitted, request, hsub⟩
    · rw [submitAllWith_cons_error hsub]
      refine iff_of_false ?_ fun h => hnot h.1
      rintro ⟨ids, h⟩
      exact absurd h (by simp)
    · have hshift : (fun k => answers (index + 1 + k)) = fun k => answers (index + (k + 1)) :=
        funext fun k => by rw [Nat.add_assoc, Nat.add_comm 1 k]
      rw [submitAllWith_cons hsub, and_iff_right hfirst, ← hshift, ← ih _ (index + 1)]
      rcases (submitAllWith submitTraceless answers ((ring.tracking operation).accepted request)
        (index + 1) rest).1 with e | ids
      · simp [Except.map]
      · simp [Except.map]

/-- **The loop is left as it was entered, or with more in flight**, as the first operation is not
submitted or is. -/
theorem submitAllWith_first (answers : ℕ → Except SaferRingError Unit) (ring : Ring)
    (hne : operations ≠ []) :
    (¬Accepts answers operations 0 ∧
      (submitAllWith submitTraceless answers ring 0 operations).2 = ring) ∨
    (Accepts answers operations 0 ∧ ring.backend.inFlight.length <
      (submitAllWith submitTraceless answers ring 0 operations).2.backend.inFlight.length) := by
  obtain ⟨operation, rest, rfl⟩ := List.exists_cons_of_ne_nil hne
  rw [accepts_zero]
  rcases ring.submitTraceless_cases operation (answers 0) with
    ⟨e, hnot, hsub⟩ | ⟨hfirst, submitted, request, hsub⟩
  · rw [submitAllWith_cons_error hsub]
    exact Or.inl ⟨hnot, rfl⟩
  · rw [submitAllWith_cons hsub]
    have hone : ((ring.tracking operation).accepted request).backend.inFlight.length =
        ring.backend.inFlight.length + 1 := Backend.inFlight_accepted_perm.length_eq
    have hgrows := length_inFlight_submitAllWith answers
      ((ring.tracking operation).accepted request) (0 + 1) rest
    refine Or.inr ⟨hfirst, ?_⟩
    dsimp only
    omega

/-- **The loop leaves nothing when it fails exactly when it fails at its first operation.** -/
theorem nothingLeft_submitAllWith (answers : ℕ → Except SaferRingError Unit) (ring : Ring)
    (operations : List (Operation Building)) :
    (∀ e t, submitAllWith submitTraceless answers ring 0 operations = (.error e, t) →
        ring.NothingLeft t) ↔
      (Accepts answers operations 0 → ∀ k < operations.length, Accepts answers operations k) := by
  have hok := submitAllWith_ok_iff answers ring 0 operations
  simp only [Nat.zero_add] at hok
  rw [← hok]
  rcases hcall : submitAllWith submitTraceless answers ring 0 operations with ⟨e | ids, t⟩
  · have hne : operations ≠ [] := by
      rintro rfl
      exact absurd (Prod.mk.inj hcall).1 (by simp)
    rcases submitAllWith_first answers ring hne with ⟨hnot, hring⟩ | ⟨hfirst, hgrows⟩
    · rw [hcall] at hring
      refine iff_of_true (fun e' t' h => ?_) fun hfirst => absurd hfirst hnot
      rw [← (Prod.mk.inj h).2, show t = ring from hring]
      exact .refl ring
    · rw [hcall] at hgrows
      refine iff_of_false (fun h => ?_) fun h => ?_
      · exact absurd (h e t rfl).inFlight.length_eq (Nat.ne_of_gt hgrows)
      · obtain ⟨ids, hids⟩ := h hfirst
        exact absurd hids (by simp)
  · exact iff_of_true (fun e t' h => absurd (Prod.mk.inj h).1 (by simp)) fun _ => ⟨ids, rfl⟩

/-- **A submission of a batch leaves nothing when it fails** where its checks do, or its loop. -/
theorem nothingLeft_submitBatchWith {F : Type} (future : List ℕ → Ring → F) (self : Ring)
    (batch : Batch) (config : BatchConfig) (answers : ℕ → Except SaferRingError Unit) :
    (∀ e t, submitBatchWith submitTraceless future self batch config answers = (.error e, t) →
        self.NothingLeft t) ↔
      (checkBatch batch config = .ok () → Accepts answers batch.operations 0 →
        ∀ k < batch.len, Accepts answers batch.operations k) := by
  rw [submitBatchWith]
  rcases hcheck : checkBatch batch config with e | ⟨⟨⟩⟩
  · refine iff_of_true (fun e' t h => ?_) fun h => absurd h (by simp)
    obtain ⟨-, rfl⟩ := Prod.mk.inj h
    exact .refl self
  · rw [forall_prop_of_true rfl, Batch.len, ← nothingLeft_submitAllWith answers self]
    dsimp only
    rcases submitAllWith submitTraceless answers self 0 batch.operations with ⟨e | ids, t⟩
    · simp
    · simp

/-- **What a submission that fails leaves in flight**, trace or no trace. -/
theorem inFlight_submitBatch {self t : Ring} {batch : Batch} {config : BatchConfig}
    {e : SaferRingError}
    (h : self.submitBatchStandaloneWithConfig batch config answers = (.error e, t)) :
    t.backend.inFlight.Perm self.backend.inFlight ↔
      (checkBatch batch config = .ok () → Accepts answers batch.operations 0 →
        ∀ k < batch.len, Accepts answers batch.operations k) := by
  rw [submitBatchStandaloneWithConfig] at h
  rcases hcheck : checkBatch batch config with e' | ⟨⟨⟩⟩
  · rw [hcheck] at h
    obtain ⟨-, rfl⟩ := Prod.mk.inj h
    exact iff_of_true (List.Perm.refl _) fun h => absurd h (by simp)
  rw [hcheck] at h
  have hok := submitAllWith_ok_iff answers self 0 batch.operations
  simp only [Nat.zero_add] at hok
  obtain ⟨hanswer, hback⟩ := submitAllWith_submitTraceless answers self 0 batch.operations
  rw [forall_prop_of_true rfl, Batch.len, ← hok, hanswer]
  rcases hcall : submitAll answers self 0 batch.operations with ⟨e' | ids, t'⟩
  · simp only [hcall] at h
    obtain ⟨-, rfl⟩ := Prod.mk.inj h
    rw [hcall] at hback
    have hne : batch.operations ≠ [] := by
      intro hnil
      rw [hnil] at hcall
      exact absurd (Prod.mk.inj hcall).1 (by simp)
    rcases submitAllWith_first answers self hne with ⟨hnot, hring⟩ | ⟨hfirst, hgrows⟩
    · rw [hring] at hback
      exact iff_of_true (hback ▸ List.Perm.refl _) fun hfirst => absurd hfirst hnot
    · rw [hback] at hgrows
      refine iff_of_false (fun hperm => absurd hperm.length_eq (Nat.ne_of_gt hgrows)) fun h => ?_
      obtain ⟨ids, hids⟩ := h hfirst
      exact absurd hids (by simp)
  · simp only [hcall] at h
    exact absurd (Prod.mk.inj h).1 (by simp)

/-- **A batch is submitted as a whole or not at all exactly when** its first operation is not
submitted, or all are, or it does not pass the checks; what a submission that fails leaves of
its own in the tracker aside. With it, too, a submission that fails leaves more in flight unless
this is so. -/
theorem allOrNothing_iff (self : Ring) (batch : Batch) (config : BatchConfig)
    (answers : ℕ → Except SaferRingError Unit) :
    (self.AllOrNothing submitTraceless batch config answers ↔
      (checkBatch batch config = .ok () → Accepts answers batch.operations 0 →
        ∀ k < batch.len, Accepts answers batch.operations k)) ∧
    ∀ e t, (self.submitBatchStandaloneWithConfig batch config answers = (.error e, t) ∨
        self.submitBatchWithConfig batch config answers = (.error e, t)) →
      (t.backend.inFlight.Perm self.backend.inFlight ↔
        (checkBatch batch config = .ok () → Accepts answers batch.operations 0 →
          ∀ k < batch.len, Accepts answers batch.operations k)) := by
  constructor
  · rw [AllOrNothing, nothingLeft_submitBatchWith, nothingLeft_submitBatchWith, and_self]
  · rintro e t (h | h)
    · exact inFlight_submitBatch h
    · rw [submitBatchWithConfig_eq] at h
      rcases hcall : self.submitBatchStandaloneWithConfig batch config answers with
        ⟨e' | future, t'⟩
      · rw [hcall] at h
        obtain ⟨-, rfl⟩ := Prod.mk.inj h
        exact inFlight_submitBatch hcall
      · rw [hcall] at h
        exact absurd (Prod.mk.inj h).1 (by simp [Except.map])

/-- A read, and a vectored read after it. -/
def readAndVectored : Batch := ⟨[readInto 4096, vectoredRead], ∅, 1024⟩

/-- An io_uring that takes the first operation, and refuses the second. -/
def refusesSecond (k : ℕ) : Except SaferRingError Unit :=
  if k = 1 then .error notImplemented else .ok ()

/-- **The batch is refused, and its read is in flight**: both submissions return the error, and
the read stays tracked, under an id that nobody has. -/
theorem not_allOrNothing_readAndVectored :
    (∃ ring, Ring.new.submitBatchStandaloneWithConfig readAndVectored .default refusesSecond =
        (.error notImplemented, ring) ∧
      ring.backend.inFlightIds = [1] ∧ 1 ∈ ring.operations.inFlight) ∧
    (∃ ring, Ring.new.submitBatchWithConfig readAndVectored .default refusesSecond =
        (.error notImplemented, ring) ∧
      ring.backend.inFlightIds = [1] ∧ 1 ∈ ring.operations.inFlight) ∧
    ¬Ring.new.AllOrNothing submitTraceless readAndVectored .default refusesSecond ∧
    ¬Ring.new.AllOrNothing submit readAndVectored .default refusesSecond := by
  refine ⟨⟨_, rfl, rfl, by decide⟩, ⟨_, rfl, rfl, by decide⟩, fun h => ?_, fun h => ?_⟩
  · exact absurd (h.1 _ _ rfl).inFlight.length_eq (by decide)
  · exact absurd (h.1 _ _ rfl).inFlight.length_eq (by decide)

end Ring

end SaferRing
