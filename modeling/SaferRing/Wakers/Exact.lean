import SaferRing.Ids
import SaferRing.Wakers

/-!
# Wakers that stay behind

Every waker registered should be that of a live future whose last poll answered `Pending`
(`SaferRing.Tasks.Registered`), whatever becomes of futures of all kinds on one ring. But an
owned future that is dropped does not take its waker back: `SaferRing.Tasks.registered_iff` is
that along a run of futures with different ids the registry is exact precisely as long as no
owned future is dropped while its waker is registered.
-/

namespace SaferRing

/-! ### Futures of all kinds on one ring -/

/-- A future that may wait, by its place. -/
inductive Waiter
  /-- One of the owned interface. -/
  | owned (f : ℕ)
  /-- One of the legacy interface. -/
  | legacy (g : ℕ)
  deriving DecidableEq

/-- Whether a future answered `Pending`. -/
def Response.isPending : Response → Bool
  | .polled .pending | .accepted .pending => true
  | _ => false

/-- The operation of the legacy future at a place. -/
def submittedAt (futures : List (Option OperationFuture)) (g : ℕ) : Option (Operation Submitted) :=
  (futures[g]?).join.bind OperationFuture.operation

/-- **A world, the futures of the legacy interface beside it, and who of all waits.** -/
structure Tasks where
  /-- The ring, and the owned futures and the batches on it. -/
  world : World
  /-- The futures of the legacy interface, in the order they were made. -/
  operationFutures : List (Option OperationFuture)
  /-- History: the futures whose last poll answered `Pending`. -/
  waiting : List Waiter

/-- What can happen to futures of all kinds. -/
inductive TaskAction
  /-- What happens in a world. -/
  | world (action : Action)
  /-- `Ring::submit_operation`. -/
  | submitOperation (operation : Operation Building) (answer : Except SaferRingError Unit)
  /-- A legacy future is polled. -/
  | pollOperation (g count : ℕ) (waker : Waker) (fail : Option SaferRingError)
  /-- A legacy future is dropped. -/
  | dropOperation (g : ℕ)

namespace Tasks

/-- A new ring, and no futures. -/
def new : Tasks := ⟨.new, [], []⟩

variable (self : Tasks)

/-- Who waits once a future was polled or dropped. -/
def answered (x : Waiter) (isPending : Bool) : List Waiter :=
  if isPending then x :: self.waiting else self.waiting.filter (· ≠ x)

/-- Who waits after what happened in the world. -/
def waitingAfter (response : Response) : Action → List Waiter
  | .pollFuture f _ _ => self.answered (.owned f) response.isPending
  | .dropFuture f => self.answered (.owned f) false
  | _ => self.waiting

/-- The ring is another. -/
def withRing (ring : Ring) : Tasks := { self with world := { self.world with ring } }

/-- **What a step does**; `none` when it cannot happen. -/
def step : TaskAction → Option Tasks
  | .world action =>
    (self.world.step action).map fun (response, world) =>
      { self with world, waiting := self.waitingAfter response action }
  | .submitOperation operation answer =>
    match OperationFuture.submitOperation self.world.ring operation answer with
    | (.error _, ring) => some (self.withRing ring)
    | (.ok future, ring) => some
      { self.withRing ring with operationFutures := self.operationFutures ++ [some future] }
  | .pollOperation g count waker fail =>
    match self.operationFutures[g]? with
    | some (some future) =>
      match future.poll self.world.ring count waker fail with
      | .returned (answer, future, ring) => some { self.withRing ring with
        operationFutures := self.operationFutures.set g (some future)
        waiting := self.answered (.legacy g) answer.isPending }
      | _ => none
    | _ => none
  | .dropOperation g =>
    match self.operationFutures[g]? with
    | some (some future) => some { self.withRing (future.drop self.world.ring) with
      operationFutures := self.operationFutures.set g none
      waiting := self.answered (.legacy g) false }
    | _ => none

/-- The step relation. -/
abbrev Step (s : Tasks) (a : TaskAction) (t : Tasks) : Prop := s.step a = some t

/-- The id of the operation of a future, as long as it holds one. -/
def holds : Waiter → Option ℕ
  | .owned f => (operationAt self.world.futures f).map SafeOperation.submissionId
  | .legacy g => (submittedAt self.operationFutures g).map fun op => op.state.id

/-- A live future waits for an operation: its last poll answered `Pending`. -/
def Waits (id : ℕ) : Prop := ∃ x ∈ self.waiting, self.holds x = some id

/-- **Every waker registered is that of a live future whose last poll answered `Pending`.** -/
def Registered : Prop := ∀ id, id ∈ self.world.ring.wakers → self.Waits id

/-- The places of all futures. -/
def places : List Waiter :=
  (List.range self.world.futures.length).map .owned ++
    (List.range self.operationFutures.length).map .legacy

/-- Live futures have different ids. -/
def Distinct : Prop := (self.places.filterMap self.holds).Nodup

instance : Decidable self.Distinct := inferInstanceAs (Decidable (List.Nodup _))

/-- **No owned future is dropped while its waker is registered.** -/
def DropsUnregistered (a : TaskAction) : Prop :=
  ∀ f op, a = .world (.dropFuture f) → operationAt self.world.futures f = some op →
    op.submissionId ∉ self.world.ring.wakers

/-- Operations have their buffers, and owned futures that wait are live. -/
structure Sound (tasks : Tasks) : Prop where
  buffered : Buffered tasks.world
  live : ∀ f, .owned f ∈ tasks.waiting → ∃ op, tasks.world.Live f op

variable {self} {s t : Tasks} {x : Waiter} {id : ℕ}

/-- A future that holds an operation has a place. -/
theorem mem_places (hx : s.holds x = some id) : x ∈ s.places := by
  rw [places, List.mem_append, List.mem_map, List.mem_map]
  cases x with
  | owned f =>
    refine Or.inl ⟨f, List.mem_range.mpr ?_, rfl⟩
    by_contra hge
    rw [holds, operationAt, List.getElem?_eq_none (not_lt.mp hge)] at hx
    exact absurd hx (by simp)
  | legacy g =>
    refine Or.inr ⟨g, List.mem_range.mpr ?_, rfl⟩
    by_contra hge
    rw [holds, submittedAt, List.getElem?_eq_none (not_lt.mp hge)] at hx
    exact absurd hx (by simp)

/-- **Futures with one id are one.** -/
theorem Distinct.eq {y : Waiter} (hd : s.Distinct) (hx : s.holds x = some id)
    (hy : s.holds y = some id) : x = y := by
  by_contra hne
  have hpairs := List.pairwise_filterMap.mp hd
  have hsymm : Std.Symm fun x y => ∀ id, s.holds x = some id → ∀ id', s.holds y = some id' →
      id ≠ id' := ⟨fun x y hxy id hid id' hid' => (hxy id' hid' id hid).symm⟩
  exact hpairs.forall (mem_places hx) (mem_places hy) hne id hx id hy rfl

/-! ### Who waits after a step -/

/-- Who answered otherwise does not wait. -/
theorem mem_answered_false {y : Waiter} :
    y ∈ s.answered x false ↔ y ≠ x ∧ y ∈ s.waiting := by
  rw [answered, if_neg Bool.false_ne_true, List.mem_filter, decide_eq_true_iff, and_comm]

/-- Who waits once a future answered. -/
theorem mem_answered {isPending : Bool} {y : Waiter} :
    y ∈ s.answered x isPending ↔ y = x ∧ isPending = true ∨ y ≠ x ∧ y ∈ s.waiting := by
  cases isPending with
  | true =>
    rw [answered, if_pos rfl, List.mem_cons, and_iff_left rfl]
    by_cases hy : y = x
    · exact iff_of_true (Or.inl hy) (Or.inl hy)
    · rw [or_iff_right hy, or_iff_right hy, and_iff_right hy]
  | false =>
    exact mem_answered_false.trans (or_iff_right fun h => absurd h.2 Bool.false_ne_true).symm

/-- **The registry stays exact** when a waker registered then is that of a future that waits
then, or was registered before, and who waited for it still does. -/
theorem Registered.of_kept (h : s.Registered)
    (hkeys : ∀ id, id ∈ t.world.ring.wakers → t.Waits id ∨
      id ∈ s.world.ring.wakers ∧
        ∀ x ∈ s.waiting, s.holds x = some id → x ∈ t.waiting ∧ t.holds x = some id) :
    t.Registered := by
  intro id hid
  rcases hkeys id hid with hwaits | ⟨hold, hkept⟩
  · exact hwaits
  · obtain ⟨x, hx, hholds⟩ := h id hold
    obtain ⟨hx, hholds⟩ := hkept x hx hholds
    exact ⟨x, hx, hholds⟩

/-- **A future that answers keeps the registry exact** when it registers its waker and waits, or
takes it back, and the others keep their operations. -/
theorem Registered.of_answered (h : s.Registered) {isPending : Bool}
    (hwaits : t.waiting = s.answered x isPending) (hothers : ∀ y, y ≠ x → t.holds y = s.holds y)
    (hids : (isPending = true ∧ ∃ own, s.holds x = some own ∧ t.holds x = some own ∧
        ∀ id, id ∈ t.world.ring.wakers → id = own ∨ id ∈ s.world.ring.wakers) ∨
      isPending = false ∧ ∀ id, id ∈ t.world.ring.wakers →
        id ∈ s.world.ring.wakers ∧ (x ∈ s.waiting → s.holds x ≠ some id)) : t.Registered := by
  have hothers' : ∀ id, ∀ y ∈ s.waiting, y ≠ x → s.holds y = some id →
      y ∈ t.waiting ∧ t.holds y = some id := by
    intro id y hy hne hholds
    rw [hwaits, mem_answered, hothers y hne]
    exact ⟨Or.inr ⟨hne, hy⟩, hholds⟩
  refine h.of_kept fun id hid => ?_
  rcases hids with ⟨rfl, own, hbefore, hafter, hids⟩ | ⟨rfl, hids⟩
  · have hx : x ∈ t.waiting := by
      rw [hwaits]
      exact mem_answered.mpr (Or.inl ⟨rfl, rfl⟩)
    rcases hids id hid with rfl | hold
    · exact Or.inl ⟨x, hx, hafter⟩
    · refine Or.inr ⟨hold, fun y hy hholds => ?_⟩
      by_cases hne : y = x
      · subst hne
        exact ⟨hx, hafter.trans (hbefore.symm.trans hholds)⟩
      · exact hothers' id y hy hne hholds
  · obtain ⟨hold, htaken⟩ := hids id hid
    refine Or.inr ⟨hold, fun y hy hholds => hothers' id y hy ?_ hholds⟩
    -- its waker was taken back
    rintro rfl
    exact htaken hy hholds

/-- A step of the world is one of its own. -/
theorem Step.world {action : Action} (hstep : Step s (.world action) t) :
    ∃ response w, SaferRing.Step s.world ⟨action, response⟩ w ∧
      t = { s with world := w, waiting := s.waitingAfter response action } := by
  obtain ⟨⟨response, w⟩, hw, rfl⟩ := Option.map_eq_some_iff.mp hstep
  exact ⟨response, w, hw, rfl⟩

/-- Only a future's own poll and its drop change whether it waits. -/
theorem waitingAfter_of_ne {action : Action} (response : Response)
    (hpoll : ∀ f waker fail, action ≠ .pollFuture f waker fail)
    (hdrop : ∀ f, action ≠ .dropFuture f) : s.waitingAfter response action = s.waiting := by
  cases action with
  | pollFuture f waker fail => exact absurd rfl (hpoll f waker fail)
  | dropFuture f => exact absurd rfl (hdrop f)
  | _ => rfl

theorem isPending_response {future : OwnedFuture} {answer : Poll SafeOutput} :
    (future.response answer).isPending = true ↔ answer = .pending := by
  cases future <;> rcases answer with _ | ⟨_ | ⟨_, _⟩⟩ <;>
    simp [OwnedFuture.response, Response.isPending]

/-- **What happens in the world, but for polls and drops of owned futures**, keeps the registry
exact. -/
theorem kept_of_world (h : s.Sound) (hr : s.Registered) {action : Action}
    (hstep : Step s (.world action) t)
    (hpoll : ∀ f waker fail, action ≠ .pollFuture f waker fail)
    (hdrop : ∀ f, action ≠ .dropFuture f) : t.Sound ∧ t.Registered := by
  obtain ⟨response, w, hw, rfl⟩ := hstep.world
  rw [waitingAfter_of_ne response hpoll hdrop]
  have hnone : s.world.ring.RegistersNone w.ring := hw.registersNone hpoll
  refine ⟨⟨h.buffered.step hw, fun f hf => ?_⟩, hr.of_kept fun id hid => Or.inr ⟨hnone id hid, ?_⟩⟩
  · obtain ⟨op, hop, hc⟩ := h.live f hf
    exact ⟨op, hw.operationAt_kept hpoll hdrop hop, hc⟩
  · rintro x hx hholds
    refine ⟨hx, ?_⟩
    cases x with
    | owned f =>
      obtain ⟨op, hop, rfl⟩ := Option.map_eq_some_iff.mp hholds
      have hkept : operationAt w.futures f = some op := hw.operationAt_kept hpoll hdrop hop
      simp only [holds, hkept, Option.map_some]
    | legacy g => exact hholds

/-- A future keeps its operation when another is polled or dropped. -/
theorem holds_set {f : ℕ} {future : OwnedFuture} (hf : s.world.futures[f]? = some (some future))
    (hx : x ≠ .owned f) {slot : Option OwnedFuture}
    (hfutures : t.world.futures = s.world.futures.set f slot)
    (hlegacy : t.operationFutures = s.operationFutures) : t.holds x = s.holds x := by
  cases x with
  | owned g =>
    have hg : g ≠ f := fun hc => hx (hc ▸ rfl)
    rw [holds, holds, hfutures, operationAt_set hf, if_neg hg]
  | legacy g => rw [holds, holds, hlegacy]

/-- What an owned future holds. -/
theorem holds_owned {f : ℕ} {future : OwnedFuture}
    (hf : s.world.futures[f]? = some (some future)) :
    s.holds (.owned f) = future.operation.map SafeOperation.submissionId := by
  rw [holds, operationAt_eq hf]

/-- The operation of the future at a place that was set. -/
theorem operationAt_set_self {f : ℕ} {future : OwnedFuture}
    (hf : s.world.futures[f]? = some (some future)) {slot : Option OwnedFuture}
    (hfutures : t.world.futures = s.world.futures.set f slot) :
    operationAt t.world.futures f = slot.bind OwnedFuture.operation := by
  rw [hfutures, operationAt_set hf, if_pos rfl]

/-- Owned futures that wait are live, as long as the one that answers is so when it waits. -/
theorem Sound.of_answered (h : s.Sound) {f : ℕ} {future : OwnedFuture}
    (hf : s.world.futures[f]? = some (some future)) {slot : Option OwnedFuture} {isPending : Bool}
    (hbuffered : Buffered t.world) (hfutures : t.world.futures = s.world.futures.set f slot)
    (hwaits : t.waiting = s.answered (.owned f) isPending)
    (hlive : isPending = true → ∃ op, t.world.Live f op) : t.Sound := by
  refine ⟨hbuffered, fun g hg => ?_⟩
  rw [hwaits, mem_answered] at hg
  rcases hg with ⟨hg, hpending⟩ | ⟨hne, hg⟩
  · obtain rfl := Waiter.owned.inj hg
    exact hlive hpending
  · obtain ⟨op, hop, hc⟩ := h.live g hg
    refine ⟨op, ?_, hc⟩
    rw [hfutures, operationAt_set hf, if_neg fun hc : g = f => hne (hc ▸ rfl), hop]

/-- **A poll of an owned future keeps the registry exact.** -/
theorem kept_of_pollFuture (h : s.Sound) (hr : s.Registered) {f : ℕ} {waker : Waker}
    {fail : Option SaferRingError} (hstep : Step s (.world (.pollFuture f waker fail)) t) :
    t.Sound ∧ t.Registered := by
  obtain ⟨response, w, hw, ht⟩ := hstep.world
  have hbuffered : Buffered t.world := ht ▸ h.buffered.step hw
  obtain ⟨future, answer, polled, ring, hf, hpoll, rfl, rfl⟩ := hw.pollFuture
  have hring : t.world.ring = ring := by rw [ht]
  have hfutures : t.world.futures = s.world.futures.set f (some polled) := by rw [ht]
  have hlegacy : t.operationFutures = s.operationFutures := by rw [ht]
  have hwaits : t.waiting = s.answered (.owned f) (future.response answer).isPending := by
    rw [ht]
    rfl
  have hothers : ∀ y, y ≠ .owned f → t.holds y = s.holds y :=
    fun y hy => holds_set hf hy hfutures hlegacy
  have hbefore : operationAt s.world.futures f = future.operation := operationAt_eq hf
  have hself : operationAt t.world.futures f = polled.operation :=
    operationAt_set_self hf hfutures
  rcases OwnedFuture.wakers_poll (fun op hop => h.buffered f op (hbefore.trans hop)) hpoll with
    ⟨hpending, op, hop, hstays, hc, hids⟩ | ⟨hready, hgone, hids⟩
  · refine ⟨h.of_answered hf hbuffered hfutures hwaits fun _ => ⟨op, hself.trans hstays, hc⟩, ?_⟩
    refine hr.of_answered hwaits hothers (Or.inl ⟨isPending_response.mpr hpending, ?_⟩)
    refine ⟨op.submissionId, ?_, ?_, hring ▸ hids⟩
    · rw [holds_owned hf, hop]
      rfl
    · rw [holds, hself, hstays]
      rfl
  · have hnot : (future.response answer).isPending ≠ true := fun hc =>
      hready (isPending_response.mp hc)
    refine ⟨h.of_answered hf hbuffered hfutures hwaits fun hc => absurd hc hnot, ?_⟩
    refine hr.of_answered hwaits hothers (Or.inr ⟨Bool.eq_false_iff.mpr hnot, fun id hid => ?_⟩)
    rw [hring] at hid
    refine ⟨(hids id hid).1, fun hwait hholds => ?_⟩
    obtain ⟨op, hop, hc⟩ := h.live f hwait
    rw [holds, hop] at hholds
    exact (hids id hid).2 op (hbefore.symm.trans hop) hc (Option.some.inj hholds).symm

/-- **The drop of an owned future keeps the registry exact unless its waker is registered**: it
stays behind, and no other live future has its id. -/
theorem registered_dropFuture (h : s.Sound) (hr : s.Registered) (hd : s.Distinct) {f : ℕ}
    (hstep : Step s (.world (.dropFuture f)) t) : t.Sound ∧
      (t.Registered ↔ ∀ op, operationAt s.world.futures f = some op →
        op.submissionId ∉ s.world.ring.wakers) := by
  obtain ⟨response, w, hw, ht⟩ := hstep.world
  have hbuffered : Buffered t.world := ht ▸ h.buffered.step hw
  obtain ⟨future, hf, rfl⟩ := hw.dropFuture
  have hring : t.world.ring.wakers = s.world.ring.wakers := by
    rw [ht]
    exact congrArg WakerRegistry.wakers (future.wakerRegistry_drop s.world.ring)
  have hfutures : t.world.futures = s.world.futures.set f none := by rw [ht]
  have hlegacy : t.operationFutures = s.operationFutures := by rw [ht]
  have hwaits : t.waiting = s.answered (.owned f) false := by
    rw [ht]
    rfl
  have hothers : ∀ y, y ≠ .owned f → t.holds y = s.holds y :=
    fun y hy => holds_set hf hy hfutures hlegacy
  refine ⟨h.of_answered hf hbuffered hfutures hwaits fun hc => absurd hc Bool.false_ne_true,
    fun hreg op hop hid => ?_, fun hnot => ?_⟩
  · obtain ⟨x, hx, hholds⟩ := hreg op.submissionId (hring ▸ hid)
    rw [hwaits, mem_answered_false] at hx
    rw [hothers x hx.1] at hholds
    refine hx.1 (hd.eq hholds ?_)
    rw [holds, hop]
    rfl
  · refine hr.of_answered hwaits hothers (Or.inr ⟨rfl, fun id hid => ?_⟩)
    refine ⟨hring ▸ hid, fun _ hholds => ?_⟩
    obtain ⟨op, hop, hsame⟩ := Option.map_eq_some_iff.mp hholds
    exact hnot op hop (hsame ▸ hring ▸ hid)

/-! ### What legacy futures do -/

/-- Legacy futures that answer leave the owned ones as they are. -/
theorem Sound.of_legacy (h : s.Sound) {g : ℕ} {isPending : Bool}
    (hfutures : t.world.futures = s.world.futures)
    (hwaits : t.waiting = s.answered (.legacy g) isPending) : t.Sound := by
  refine ⟨fun f op hop => h.buffered f op (hfutures ▸ hop), fun f hf => ?_⟩
  rw [hwaits, mem_answered] at hf
  obtain ⟨op, hop, hc⟩ := h.live f (hf.resolve_left fun hc => absurd hc.1 (by simp)).2
  exact ⟨op, hfutures ▸ hop, hc⟩

/-- A future keeps its operation when a legacy one at another place is changed. -/
theorem holds_set_legacy {g : ℕ} {future : OperationFuture}
    (hg : s.operationFutures[g]? = some (some future)) (hx : x ≠ .legacy g)
    {slot : Option OperationFuture} (hfutures : t.world.futures = s.world.futures)
    (hlegacy : t.operationFutures = s.operationFutures.set g slot) : t.holds x = s.holds x := by
  cases x with
  | owned f => rw [holds, holds, hfutures]
  | legacy k =>
    rw [holds, holds, hlegacy, submittedAt, join_getElem?_set hg,
      if_neg fun hc : k = g => hx (hc ▸ rfl)]
    rfl

/-- What a legacy future holds once it was changed. -/
theorem holds_set_legacy_self {g : ℕ} {future : OperationFuture}
    (hg : s.operationFutures[g]? = some (some future)) {slot : Option OperationFuture}
    (hlegacy : t.operationFutures = s.operationFutures.set g slot) : t.holds (.legacy g) =
      (slot.bind OperationFuture.operation).map fun op => op.state.id := by
  rw [holds, hlegacy, submittedAt, join_getElem?_set hg, if_pos rfl]

/-- What a legacy future holds. -/
theorem holds_legacy {g : ℕ} {future : OperationFuture}
    (hg : s.operationFutures[g]? = some (some future)) :
    s.holds (.legacy g) = future.operation.map fun op => op.state.id := by
  rw [holds, submittedAt, hg]
  rfl

/-- **A submission keeps the registry exact.** -/
theorem kept_of_submitOperation (h : s.Sound) (hr : s.Registered)
    {operation : Operation Building} {answer : Except SaferRingError Unit}
    (hstep : Step s (.submitOperation operation answer) t) : t.Sound ∧ t.Registered := by
  obtain ⟨hwakers, -⟩ := s.world.ring.submit_frame operation answer
  obtain ⟨hring, hfutures, hwaits, slots, hlegacy⟩ :
      t.world.ring.wakers = s.world.ring.wakers ∧ t.world.futures = s.world.futures ∧
        t.waiting = s.waiting ∧ ∃ slots, t.operationFutures = s.operationFutures ++ slots := by
    simp only [Step, step, OperationFuture.submitOperation] at hstep
    split at hstep
    all_goals
      rename_i hcall
      split at hcall
      all_goals
        rename_i hsubmit
        rw [hsubmit] at hwakers
        cases hcall
      cases hstep
    · exact ⟨congrArg WakerRegistry.wakers hwakers, rfl, rfl, [], (List.append_nil _).symm⟩
    · exact ⟨congrArg WakerRegistry.wakers hwakers, rfl, rfl, _, rfl⟩
  refine ⟨⟨fun f op hop => h.buffered f op (hfutures ▸ hop), fun f hf => ?_⟩,
    hr.of_kept fun id hid => Or.inr ⟨hring ▸ hid, fun x hx hholds => ⟨hwaits ▸ hx, ?_⟩⟩⟩
  · obtain ⟨op, hop, hc⟩ := h.live f (hwaits ▸ hf)
    exact ⟨op, hfutures ▸ hop, hc⟩
  cases x with
  | owned f => rwa [holds, hfutures]
  | legacy g =>
    -- what is new comes after all places there are
    have hg : g < s.operationFutures.length := by
      by_contra hge
      rw [holds, submittedAt, List.getElem?_eq_none (not_lt.mp hge)] at hholds
      exact absurd hholds (by simp)
    rwa [holds, hlegacy, submittedAt, List.getElem?_append_left hg]

/-- **A poll of a legacy future keeps the registry exact.** -/
theorem kept_of_pollOperation (h : s.Sound) (hr : s.Registered) {g count : ℕ} {waker : Waker}
    {fail : Option SaferRingError} (hstep : Step s (.pollOperation g count waker fail) t) :
    t.Sound ∧ t.Registered := by
  simp only [Step, step] at hstep
  split at hstep
  case h_2 => exact absurd hstep (by simp)
  rename_i future hg
  split at hstep
  case h_2 => exact absurd hstep (by simp)
  rename_i answer polled ring hpoll
  have ht := (Option.some.inj hstep).symm
  have hring : t.world.ring = ring := by
    rw [ht]
    rfl
  have hfutures : t.world.futures = s.world.futures := by
    rw [ht]
    rfl
  have hlegacy : t.operationFutures = s.operationFutures.set g (some polled) := by rw [ht]
  have hwaits : t.waiting = s.answered (.legacy g) answer.isPending := by
    rw [ht]
  have hothers : ∀ y, y ≠ .legacy g → t.holds y = s.holds y :=
    fun y hy => holds_set_legacy hg hy hfutures hlegacy
  have hbefore := holds_legacy hg
  refine ⟨h.of_legacy hfutures hwaits, ?_⟩
  obtain ⟨op, hop, ⟨hpending, hstays, hids⟩ | ⟨hready, hids⟩⟩ := OperationFuture.wakers_poll hpoll
  · refine hr.of_answered hwaits hothers (Or.inl ⟨hpending, op.state.id, ?_, ?_, hring ▸ hids⟩)
    · rw [hbefore, hop]
      rfl
    · exact (holds_set_legacy_self hg hlegacy).trans
        (congrArg (Option.map fun op => op.state.id) hstays)
  · refine hr.of_answered hwaits hothers (Or.inr ⟨hready, fun id hid => ?_⟩)
    rw [hring] at hid
    refine ⟨(hids id hid).1, fun _ hholds => ?_⟩
    rw [hbefore, hop] at hholds
    exact (hids id hid).2 (Option.some.inj hholds).symm

/-- **So does the drop of one**, which takes its waker back. -/
theorem kept_of_dropOperation (h : s.Sound) (hr : s.Registered) {g : ℕ}
    (hstep : Step s (.dropOperation g) t) : t.Sound ∧ t.Registered := by
  simp only [Step, step] at hstep
  split at hstep
  case h_2 => exact absurd hstep (by simp)
  rename_i future hg
  have ht := (Option.some.inj hstep).symm
  have hring : t.world.ring = future.drop s.world.ring := by
    rw [ht]
    rfl
  have hfutures : t.world.futures = s.world.futures := by
    rw [ht]
    rfl
  have hlegacy : t.operationFutures = s.operationFutures.set g none := by rw [ht]
  have hwaits : t.waiting = s.answered (.legacy g) false := by
    rw [ht]
  have hothers : ∀ y, y ≠ .legacy g → t.holds y = s.holds y :=
    fun y hy => holds_set_legacy hg hy hfutures hlegacy
  refine ⟨h.of_legacy hfutures hwaits,
    hr.of_answered hwaits hothers (Or.inr ⟨rfl, fun id hid => ?_⟩)⟩
  rw [hring] at hid
  rw [holds_legacy hg]
  unfold OperationFuture.drop at hid
  rcases hop : future.operation with _ | op
  · rw [hop] at hid
    exact ⟨hid, fun _ => by simp⟩
  · rw [hop] at hid
    obtain ⟨hne, hid⟩ := Ring.mem_removeWaker.mp hid
    exact ⟨hid, fun _ hc => hne (Option.some.inj hc).symm⟩

/-! ### Runs -/

/-- **A step keeps the registry exact precisely when it drops no owned future whose waker is
registered.** -/
theorem registered_step (h : s.Sound) (hr : s.Registered) (hd : s.Distinct) {a : TaskAction}
    (hstep : Step s a t) : t.Sound ∧ (t.Registered ↔ s.DropsUnregistered a) := by
  have hkept : (∀ f, a ≠ .world (.dropFuture f)) → t.Sound ∧ t.Registered →
      t.Sound ∧ (t.Registered ↔ s.DropsUnregistered a) :=
    fun hnot hkeep => ⟨hkeep.1, iff_of_true hkeep.2 fun f _ ha => absurd ha (hnot f)⟩
  cases a with
  | world action =>
    by_cases hdrop : ∃ f, action = .dropFuture f
    · obtain ⟨f, rfl⟩ := hdrop
      obtain ⟨hsound, hiff⟩ := registered_dropFuture h hr hd hstep
      refine ⟨hsound, hiff.trans ⟨fun hnot g op ha hop => ?_, fun hnot op hop => ?_⟩⟩
      · obtain rfl := Action.dropFuture.inj (TaskAction.world.inj ha)
        exact hnot op hop
      · exact hnot f op rfl hop
    have hnot : ∀ f, action ≠ .dropFuture f := fun f hc => hdrop ⟨f, hc⟩
    refine hkept (fun f hc => hnot f (TaskAction.world.inj hc)) ?_
    by_cases hpoll : ∃ f waker fail, action = .pollFuture f waker fail
    · obtain ⟨f, waker, fail, rfl⟩ := hpoll
      exact kept_of_pollFuture h hr hstep
    · exact kept_of_world h hr hstep (fun f waker fail hc => hpoll ⟨f, waker, fail, hc⟩) hnot
  | submitOperation operation answer =>
    exact hkept (fun _ => TaskAction.noConfusion) (kept_of_submitOperation h hr hstep)
  | pollOperation g count waker fail =>
    exact hkept (fun _ => TaskAction.noConfusion) (kept_of_pollOperation h hr hstep)
  | dropOperation g =>
    exact hkept (fun _ => TaskAction.noConfusion) (kept_of_dropOperation h hr hstep)

/-- **Along a run of futures with different ids, every waker registered is that of a live future
whose last poll answered `Pending`, exactly as long as no owned future is dropped while its
waker is registered.** -/
theorem registered_iff {ms : List (Transition.Move Tasks TaskAction)}
    (hrun : Transition.Run Step new ms s) (hdistinct : Transition.Always Distinct new ms) :
    Transition.Always Registered new ms ↔ Transition.Guarded DropsUnregistered ms := by
  have hapart : Transition.Guarded (fun s _ => s.Distinct) ms :=
    fun m hm => hrun.before_of_always hdistinct hm
  have hexact : ∀ s a t, (Step s a t ∧ s.Distinct) → s.Sound → s.Registered →
      t.Sound ∧ (t.Registered ↔ DropsUnregistered s a) :=
    fun s a t ⟨hstep, hd⟩ h hr => registered_step h hr hd hstep
  have hnew : new.Sound := ⟨SaferRing.Sound.new.buffered, fun f hf => absurd hf List.not_mem_nil⟩
  exact (hrun.restrict hapart).always_iff_step hexact hnew fun id hid =>
    absurd hid (AList.notMem_empty id)

/-- A read of each interface waits and is done; the legacy future is dropped before its poll. -/
def doneAndDropped : List TaskAction :=
  [.world (.newBuffer 8192 8), .world (.submit pinnedRead (.ok ())),
    .submitOperation pinnedRead (.ok ()), .world (.owned (.readOwned 4) 0 (.ok ())),
    .world (.pollFuture 0 7 none), .pollOperation 0 0 8 none, .world (.complete 2 (.ok 8)),
    .world (.pollFuture 0 7 none), .dropOperation 0, .world (.dropFuture 0)]

/-- All along that run, the registry is exact. -/
theorem registered_doneAndDropped : ∃ ms s, Transition.Run Step new ms s ∧
    ms.map Transition.Move.label = doneAndDropped ∧ Transition.Always Registered new ms := by
  obtain ⟨⟨ms, s⟩, htrace⟩ : ∃ x, Transition.trace step new doneAndDropped = some x :=
    Option.isSome_iff_exists.mp (by decide)
  obtain ⟨hrun, hlabels⟩ := Transition.run_of_trace htrace
  have hdistinct : (Transition.trace step new doneAndDropped).map
      (fun x => x.1.all fun m => decide m.after.Distinct) = some true := by
    decide
  have hdrops : (Transition.trace step new doneAndDropped).map (fun x => x.1.all fun m =>
      match m.label with
      | .world (.dropFuture _) => m.before.world.ring.wakers.keys.isEmpty
      | _ => true) = some true := by
    decide
  rw [htrace] at hdistinct hdrops
  refine ⟨ms, s, hrun, hlabels, (registered_iff hrun ⟨by decide, fun m hm => ?_⟩).mpr ?_⟩
  · exact of_decide_eq_true (List.all_eq_true.mp (Option.some.inj hdistinct) m hm)
  · intro m hm f op ha hop hid
    have hnone := List.all_eq_true.mp (Option.some.inj hdrops) m hm
    rw [ha] at hnone
    rw [AList.mem_keys, List.isEmpty_iff.mp hnone] at hid
    exact absurd hid List.not_mem_nil

/-- A read is waited for, and its future is dropped. -/
def droppedWaiting : List TaskAction :=
  [.world (.newBuffer 4096 8), .world (.owned (.readOwned 3) 0 (.ok ())),
    .world (.pollFuture 0 7 none), .world (.dropFuture 0)]

/-- **Its waker stays behind**, although no future is left. -/
theorem not_registered_droppedWaiting : ∃ ms s, Transition.Run Step new ms s ∧
    ms.map Transition.Move.label = droppedWaiting ∧ Transition.Always Distinct new ms ∧
    s.world.ring.wakers.keys = [1] ∧ s.world.futures = [none] ∧ s.operationFutures = [] ∧
    ¬s.Registered := by
  obtain ⟨⟨ms, s⟩, htrace⟩ : ∃ x, Transition.trace step new droppedWaiting = some x :=
    Option.isSome_iff_exists.mp (by decide)
  obtain ⟨hrun, hlabels⟩ := Transition.run_of_trace htrace
  have hdistinct : (Transition.trace step new droppedWaiting).map
      (fun x => x.1.all fun m => decide m.after.Distinct) = some true := by
    decide
  have hend : (Transition.trace step new droppedWaiting).map (fun x =>
      (x.2.world.ring.wakers.keys, x.2.world.futures, x.2.operationFutures, x.2.waiting)) =
      some ([1], [none], [], []) := by
    decide
  rw [htrace] at hdistinct hend
  simp only [Option.map_some, Option.some.injEq, Prod.mk.injEq] at hend
  obtain ⟨hwakers, hfutures, hlegacy, hwaiting⟩ := hend
  refine ⟨ms, s, hrun, hlabels, ⟨by decide, fun m hm => ?_⟩, hwakers, hfutures, hlegacy, ?_⟩
  · exact of_decide_eq_true (List.all_eq_true.mp (Option.some.inj hdistinct) m hm)
  · intro hreg
    have hmem : 1 ∈ s.world.ring.wakers := by
      rw [AList.mem_keys, hwakers]
      exact List.mem_singleton_self 1
    obtain ⟨x, hx, -⟩ := hreg 1 hmem
    rw [hwaiting] at hx
    exact absurd hx List.not_mem_nil

end Tasks

end SaferRing
