import SaferRing.Batch.Future

/-!
# What becomes of the results of a batch

A poll records the completions it knows, in order (`SaferRing.StandaloneBatchFuture.seen`),
and then may cancel operations that have no result. What that makes of the results is
`SaferRing.StandaloneBatchFuture.Follows`: a result that is there stays, and a position
without one gets the result of its completion. What comes after a recording only cancels
(`SaferRing.StandaloneBatchFuture.Cancels`). The two are put together in
`SaferRing.StandaloneBatchFuture.pollWithRing_follows`.

Positions and ids go together one to one in a batch that was submitted
(`SaferRing.StandaloneBatchFuture.Shaped`).
-/

namespace SaferRing

namespace StandaloneBatchFuture

variable {s t u : StandaloneBatchFuture} {i j id : ℕ} {out : OperationResult}

/-! ### The shape of a future -/

/-- **A future as it is submitted**: one result for each operation, each operation has an
id, and an id leads to the position that has it. -/
structure Shaped (future : StandaloneBatchFuture) : Prop where
  length : future.results.length = future.operationIds.length
  numbered : ∀ i < future.operationIds.length, ∃ id, future.operationIds[i]? = some (some id)
  lookup : ∀ id i, future.idToIndex.lookup id = some i ↔ future.operationIds[i]? = some (some id)

/-- What two futures of one batch have in common. -/
structure SameBatch (s t : StandaloneBatchFuture) : Prop where
  operationIds : t.operationIds = s.operationIds
  idToIndex : t.idToIndex = s.idToIndex
  length : t.results.length = s.results.length
  failFast : t.failFast = s.failFast

theorem SameBatch.refl (s : StandaloneBatchFuture) : SameBatch s s := ⟨rfl, rfl, rfl, rfl⟩

theorem SameBatch.trans (h : SameBatch s t) (h' : SameBatch t u) : SameBatch s u :=
  ⟨h'.operationIds.trans h.operationIds, h'.idToIndex.trans h.idToIndex,
    h'.length.trans h.length, h'.failFast.trans h.failFast⟩

theorem SameBatch.shaped (h : SameBatch s t) (hs : Shaped s) : Shaped t := by
  refine ⟨?_, ?_, fun id i => ?_⟩
  · rw [h.length, h.operationIds]
    exact hs.length
  · rw [h.operationIds]
    exact hs.numbered
  · rw [h.idToIndex, h.operationIds]
    exact hs.lookup id i

/-- **An id leads to a position that has it**: what is left of the shape of a future when two
operations may have one id. -/
structure Indexed (future : StandaloneBatchFuture) : Prop where
  length : future.results.length = future.operationIds.length
  sound : ∀ id i, future.idToIndex.lookup id = some i → future.operationIds[i]? = some (some id)

theorem Shaped.indexed (h : Shaped s) : Indexed s := ⟨h.length, fun id i => (h.lookup id i).mp⟩

theorem SameBatch.indexed (h : SameBatch s t) (hs : Indexed s) : Indexed t := by
  refine ⟨?_, fun id i => ?_⟩
  · rw [h.length, h.operationIds]
    exact hs.length
  · rw [h.idToIndex, h.operationIds]
    exact hs.sound id i

/-- Two ids at one position are one. -/
theorem Indexed.inj (h : Indexed s) {id' : ℕ} (hid : s.idToIndex.lookup id = some i)
    (hid' : s.idToIndex.lookup id' = some i) : id = id' := by
  have heq := (h.sound id i hid).symm.trans (h.sound id' i hid')
  exact Option.some.inj (Option.some.inj heq)

/-- An id leads to a position there is. -/
theorem Indexed.lt (h : Indexed s) (hid : s.idToIndex.lookup id = some i) :
    i < s.results.length := by
  obtain ⟨hlt, -⟩ := List.getElem?_eq_some_iff.mp (h.sound id i hid)
  rwa [h.length]

/-- **The future of a batch has its ids indexed**, whatever they are. -/
theorem indexed_new (ids : List (Option ℕ)) (dependencies : HashMap (List ℕ)) (failFast : Bool) :
    Indexed (.new ids dependencies failFast) := by
  refine ⟨by rw [new, List.length_map], ?_⟩
  refine List.foldlRecOn (motive := fun map : HashMap ℕ =>
    ∀ id i, map.lookup id = some i → ids[i]? = some (some id)) ids.zipIdx indexId
    (fun id i hid => absurd hid (by simp)) fun map hmap entry hentry id i hid => ?_
  obtain ⟨_ | k, index⟩ := entry
  · exact hmap id i hid
  · rw [indexId] at hid
    by_cases hk : id = k
    · rw [hk, AList.lookup_insert] at hid
      obtain rfl := Option.some.inj hid
      rw [hk]
      exact List.mem_zipIdx_iff_getElem?.mp hentry
    · rw [AList.lookup_insert_ne hk] at hid
      exact hmap id i hid

/-- The positions of ids, one after the other. -/
theorem lookup_indexIds {ids : List ℕ} (hnd : ids.Nodup) :
    (indexIds (ids.map some)).lookup id = some i ↔ (ids.map some)[i]? = some (some id) := by
  -- the fold, from the position `k` on and a map that has none of the ids left
  have hfold : ∀ (rest : List ℕ) (k : ℕ) (map : HashMap ℕ), rest.Nodup →
      (∀ id ∈ rest, map.lookup id = none) →
      ((((rest.map some).zipIdx k).foldl indexId map).lookup id = some i ↔
        map.lookup id = some i ∨ ∃ j, i = k + j ∧ rest[j]? = some id) := by
    intro rest
    induction rest with
    | nil => simp
    | cons a rest ih =>
      intro k map hnd hmap
      obtain ⟨ha, hrest⟩ := List.nodup_cons.mp hnd
      have hmap' : ∀ id ∈ rest, (map.insert a k).lookup id = none := by
        intro id hid
        have hne : id ≠ a := fun hc => ha (hc ▸ hid)
        rw [AList.lookup_insert_ne hne]
        exact hmap id (List.mem_cons_of_mem _ hid)
      rw [List.map_cons, List.zipIdx_cons, List.foldl_cons]
      refine (ih (k + 1) (map.insert a k) hrest hmap').trans ?_
      by_cases hid : id = a
      · rw [hid, AList.lookup_insert]
        constructor
        · rintro (hk | ⟨j, -, hj⟩)
          · exact Or.inr ⟨0, (Option.some.inj hk).symm, rfl⟩
          · exact absurd (List.mem_of_getElem? hj) ha
        · rintro (hk | ⟨j, rfl, hj⟩)
          · rw [hmap a List.mem_cons_self] at hk
            exact absurd hk (by simp)
          · rcases j with _ | j
            · exact Or.inl rfl
            · rw [List.getElem?_cons_succ] at hj
              exact absurd (List.mem_of_getElem? hj) ha
      · rw [AList.lookup_insert_ne hid]
        refine or_congr_right ⟨?_, ?_⟩
        · rintro ⟨j, rfl, hj⟩
          exact ⟨j + 1, by omega, by rwa [List.getElem?_cons_succ]⟩
        · rintro ⟨j, rfl, hj⟩
          rcases j with _ | j
          · exact absurd (Option.some.inj hj).symm hid
          · exact ⟨j, by omega, by rwa [List.getElem?_cons_succ] at hj⟩
  rw [indexIds, hfold ids 0 ∅ hnd fun _ _ => rfl]
  simp

/-- **The future of a batch that is submitted under different ids has its shape.** -/
theorem shaped_new {ids : List ℕ} (hnd : ids.Nodup) (dependencies : HashMap (List ℕ))
    (failFast : Bool) : Shaped (.new (ids.map some) dependencies failFast) := by
  refine ⟨?_, fun i hi => ?_, fun id i => lookup_indexIds hnd⟩
  · rw [new, List.length_map]
  · have hlt : i < ids.length := by
      rwa [new, List.length_map] at hi
    exact ⟨ids[i], by rw [new, List.getElem?_map, List.getElem?_eq_getElem hlt]; rfl⟩

theorem resultAt_new {ids : List (Option ℕ)} {dependencies : HashMap (List ℕ)}
    {failFast : Bool} : (new ids dependencies failFast).resultAt i = none := by
  rw [new, resultAt, List.getElem?_map]
  rcases ids[i]? with _ | _ <;> rfl

/-! ### Recording completions -/

/-- **What completions make of a future**: it is of the same batch; a result that was
there stays; a completion of an operation without a result is its result; and there are no
other results, but those of operations given up. -/
structure Follows (s : StandaloneBatchFuture) (completions : List CompletionResult)
    (t : StandaloneBatchFuture) : Prop where
  same : SameBatch s t
  keep : ∀ i x, s.resultAt i = some x → t.resultAt i = some x
  take : ∀ c ∈ completions, ∀ i, s.idToIndex.lookup c.operationId = some i →
    s.resultAt i = none → t.resultAt i = some (.ofCompletion c.result)
  only : ∀ i x, t.resultAt i = some x → s.resultAt i = some x ∨ x = .cancelled ∨
    ∃ c ∈ completions, s.idToIndex.lookup c.operationId = some i ∧ x = .ofCompletion c.result

theorem Follows.refl (s : StandaloneBatchFuture) : Follows s [] s :=
  ⟨.refl s, fun _ _ h => h, fun c hc => absurd hc (by simp), fun _ _ h => Or.inl h⟩

variable {p : Progress} {c : CompletionResult} {completions : List CompletionResult}

/-- **Recording one completion**: of an operation without a result it is the result; else
nothing changes. -/
theorem recordCompletion_cases (hs : Indexed p.future) :
    (∃ i, p.future.idToIndex.lookup c.operationId = some i ∧ p.future.resultAt i = none ∧
      SameBatch p.future (recordCompletion p c).future ∧
      ∀ j, (recordCompletion p c).future.resultAt j =
        if j = i then some (.ofCompletion c.result) else p.future.resultAt j) ∨
    ((recordCompletion p c).future = p.future ∧
      ∀ i, p.future.idToIndex.lookup c.operationId = some i → (p.future.resultAt i).isSome) := by
  rcases hid : p.future.idToIndex.lookup c.operationId with _ | i
  · refine Or.inr ⟨?_, fun i hi => absurd hi (by simp)⟩
    rw [recordCompletion, hid]
  rcases hres : p.future.resultAt i with _ | x
  · have hlt : i < p.future.results.length := hs.lt hid
    have hrec : (recordCompletion p c).future = { p.future with
        results := p.future.results.set i (some (.ofCompletion c.result)) } := by
      simp only [recordCompletion, hid, hres]
      rfl
    refine Or.inl ⟨i, rfl, hres, ?_, fun j => ?_⟩
    · rw [hrec]
      exact ⟨rfl, rfl, List.length_set, rfl⟩
    · rw [hrec, resultAt]
      by_cases hj : j = i
      · rw [if_pos hj, hj, List.getElem?_set_self hlt]
        rfl
      · rw [if_neg hj, List.getElem?_set_ne (Ne.symm hj)]
        rfl
  · refine Or.inr ⟨?_, fun j hj => ?_⟩
    · simp only [recordCompletion, hid, hres, Option.isSome_some, if_true]
    · rw [← Option.some.inj hj, hres]
      rfl

/-- Recording keeps the ids indexed. -/
theorem indexed_recordCompletion (hs : Indexed p.future) :
    Indexed (recordCompletion p c).future := by
  rcases recordCompletion_cases (c := c) hs with ⟨_, -, -, hsame, -⟩ | ⟨heq, -⟩
  · exact hsame.indexed hs
  · exact heq ▸ hs

/-- **What recording one completion keeps, a poll keeps**, of a batch with its ids indexed. -/
theorem seen_induction {P : Progress → Prop} (hs : Indexed s) (hzero : P ⟨s, false, false, []⟩)
    (hnext : ∀ p c, Indexed p.future → P p → P (recordCompletion p c)) :
    P (s.seen completions) := by
  have hboth : Indexed (s.seen completions).future ∧ P (s.seen completions) :=
    List.foldlRecOn (motive := fun p => Indexed p.future ∧ P p) completions recordCompletion
      ⟨hs, hzero⟩ fun p hp c _ => ⟨indexed_recordCompletion hp.1, hnext p c hp.1 hp.2⟩
  exact hboth.2

/-- What was recorded is of the same batch. -/
theorem sameBatch_seen (hs : Indexed s) : SameBatch s (s.seen completions).future := by
  refine seen_induction (P := fun p => SameBatch s p.future) hs (.refl s) fun p c hp hsame => ?_
  rcases recordCompletion_cases (c := c) hp with ⟨_, -, -, hone, -⟩ | ⟨heq, -⟩
  · exact hsame.trans hone
  · exact heq ▸ hsame

/-- **Recording completions**, of different operations, one after the other. -/
theorem follows_foldl (hs : Shaped p.future)
    (hnd : (completions.map CompletionResult.operationId).Nodup) :
    Follows p.future completions (completions.foldl recordCompletion p).future := by
  induction completions generalizing p with
  | nil => exact .refl p.future
  | cons c rest ih =>
    obtain ⟨hc, hrest⟩ := List.nodup_cons.mp hnd
    rw [List.foldl_cons]
    rcases recordCompletion_cases (c := c) hs.indexed with
      ⟨i, hid, hnone, hsame, hres⟩ | ⟨heq, hsome⟩
    -- recorded: from now on its position has a result, and no later completion has its id
    · have hf := ih (hsame.shaped hs) hrest
      have hself : (recordCompletion p c).future.resultAt i = some (.ofCompletion c.result) := by
        rw [hres, if_pos rfl]
      refine ⟨hsame.trans hf.same, fun j x hx => ?_, fun d hd j hj hempty => ?_, fun j x hx => ?_⟩
      · have hne : j ≠ i := fun hji => by simp [hji, hnone] at hx
        refine hf.keep j x ?_
        rwa [hres, if_neg hne]
      · rcases List.mem_cons.mp hd with rfl | hd
        · obtain rfl := Option.some.inj (hid.symm.trans hj)
          exact hf.keep _ _ hself
        · have hne : j ≠ i := by
            rintro rfl
            have hids : d.operationId = c.operationId := hs.indexed.inj hj hid
            exact hc (List.mem_map.mpr ⟨d, hd, hids⟩)
          refine hf.take d hd j (by rwa [hsame.idToIndex]) ?_
          rwa [hres, if_neg hne]
      · rcases hf.only j x hx with hx | hx | ⟨d, hd, hj, rfl⟩
        · rw [hres] at hx
          by_cases hji : j = i
          · rw [if_pos hji] at hx
            exact Or.inr (Or.inr ⟨c, List.mem_cons_self, hji ▸ hid, (Option.some.inj hx).symm⟩)
          · rw [if_neg hji] at hx
            exact Or.inl hx
        · exact Or.inr (Or.inl hx)
        · rw [hsame.idToIndex] at hj
          exact Or.inr (Or.inr ⟨d, List.mem_cons_of_mem _ hd, hj, rfl⟩)
    -- of another batch, or of an operation that has a result
    · have hf := ih (p := recordCompletion p c) (heq ▸ hs) hrest
      rw [heq] at hf
      refine ⟨hf.same, hf.keep, fun d hd j hj hempty => ?_, fun j x hx => ?_⟩
      · rcases List.mem_cons.mp hd with rfl | hd
        · have hthere := hsome j hj
          simp [hempty] at hthere
        · exact hf.take d hd j hj hempty
      · refine (hf.only j x hx).imp_right fun h => h.imp_right ?_
        rintro ⟨d, hd, hj, hx⟩
        exact ⟨d, List.mem_cons_of_mem _ hd, hj, hx⟩

/-! ### Giving up -/

/-- **Operations without a result are given up**, some or none of them. -/
structure Cancels (s t : StandaloneBatchFuture) : Prop where
  same : SameBatch s t
  results : ∀ i, t.resultAt i = s.resultAt i ∨
    s.resultAt i = none ∧ t.resultAt i = some .cancelled

namespace Cancels

theorem refl (s : StandaloneBatchFuture) : Cancels s s := ⟨.refl s, fun _ => Or.inl rfl⟩

theorem trans (h : Cancels s t) (h' : Cancels t u) : Cancels s u := by
  refine ⟨h.same.trans h'.same, fun i => ?_⟩
  rcases h'.results i with heq | ⟨hnone, hc⟩
  · rw [heq]
    exact h.results i
  · refine Or.inr ⟨?_, hc⟩
    rcases h.results i with heq | ⟨-, hc'⟩
    · exact heq.symm.trans hnone
    · exact absurd (hc'.symm.trans hnone) (by simp)

/-- Giving up one operation, if it has no result. -/
theorem giveUp (s : StandaloneBatchFuture) (index : ℕ) : Cancels s { s with
    results := if (s.results[index]?).join = none then s.results.set index (some .cancelled)
      else s.results } := by
  by_cases hnone : (s.results[index]?).join = none
  swap
  · rw [if_neg hnone]
    exact .refl s
  rw [if_pos hnone]
  refine ⟨⟨rfl, rfl, List.length_set, rfl⟩, fun i => ?_⟩
  by_cases hi : i = index
  · by_cases hlt : index < s.results.length
    · refine Or.inr ⟨hi ▸ hnone, ?_⟩
      rw [resultAt, hi, List.getElem?_set_self hlt]
      rfl
    · rw [List.set_eq_of_length_le (Nat.le_of_not_lt hlt)]
      exact Or.inl rfl
  · refine Or.inl ?_
    rw [resultAt, List.getElem?_set_ne (Ne.symm hi)]
    rfl

/-- Giving up what depends on an operation. -/
theorem cancelDependentOperations (s : StandaloneBatchFuture) (failedIndex : ℕ) :
    Cancels s (s.cancelDependentOperations failedIndex) :=
  List.foldlRecOn (motive := fun results => Cancels s { s with results }) _ _ (.refl s)
    fun results hresults index _ => hresults.trans (giveUp { s with results } index)

/-- Giving up all that is left. -/
theorem cancelAllRemainingOperations (s : StandaloneBatchFuture) :
    Cancels s s.cancelAllRemainingOperations := by
  refine ⟨⟨rfl, rfl, List.length_map _, rfl⟩, fun i => ?_⟩
  simp only [resultAt, StandaloneBatchFuture.cancelAllRemainingOperations, List.getElem?_map]
  rcases s.results[i]? with _ | _ | x
  · exact Or.inl rfl
  · exact Or.inr ⟨rfl, rfl⟩
  · exact Or.inl rfl

/-- What a poll does about a completed operation. -/
theorem of_settleCompleted (s : StandaloneBatchFuture) (completedIndex : ℕ) :
    Cancels s (s.settleCompleted completedIndex) := by
  rw [settleCompleted]
  split
  · exact cancelDependentOperations s completedIndex
  · exact .refl s

/-- What a poll does about completed operations. -/
theorem foldl_settleCompleted (s : StandaloneBatchFuture) (completed : List ℕ) :
    Cancels s (completed.foldl settleCompleted s) :=
  List.foldlRecOn (motive := Cancels s) completed settleCompleted (.refl s)
    fun t ht index _ => ht.trans (of_settleCompleted t index)

end Cancels

/-- What is given up after a recording had no result. -/
theorem Follows.cancels (h : Follows s completions t) (h' : Cancels t u) :
    Follows s completions u := by
  have hkeep : ∀ i x, t.resultAt i = some x → u.resultAt i = some x := by
    intro i x hx
    rcases h'.results i with heq | ⟨hnone, -⟩
    · exact heq.trans hx
    · exact absurd (hx.symm.trans hnone) (by simp)
  refine ⟨h.same.trans h'.same, fun i x hx => hkeep i x (h.keep i x hx),
    fun c hc i hi hnone => hkeep i _ (h.take c hc i hi hnone), fun i x hx => ?_⟩
  rcases h'.results i with heq | ⟨-, hc⟩
  · exact h.only i x (heq.symm.trans hx)
  · exact Or.inr (Or.inl (Option.some.inj (hx.symm.trans hc)))

/-! ### A poll -/

/-- A batch is done when every position has a result. -/
theorem allOperationsCompleted_iff :
    s.allOperationsCompleted = true ↔ ∀ i < s.results.length, (s.resultAt i).isSome := by
  rw [allOperationsCompleted, List.all_eq_true]
  constructor
  · intro h i hi
    have hsome := h s.results[i] (List.getElem_mem hi)
    rw [resultAt, List.getElem?_eq_getElem hi]
    exact hsome
  · intro h x hx
    obtain ⟨i, hi, rfl⟩ := List.getElem_of_mem hx
    have hsome := h i hi
    rwa [resultAt, List.getElem?_eq_getElem hi] at hsome

/-- **What a poll of a batch makes of it** once `try_complete` returned completions of
different operations: it follows from them, and is ready when every position has a
result. -/
theorem pollWithRing_follows {ring ring' : Ring} (waker : Waker) {cached : List (ℕ × IoResult)}
    {fail : Option SaferRingError} (hs : Shaped s) (hopen : s.completed = false)
    (hnd : (completions.map CompletionResult.operationId).Nodup)
    (hcall : ring.tryComplete cached fail = .returned (.ok completions, ring')) :
    ∃ answer t wakerRegistry,
      s.pollWithRing ring waker cached fail =
        .returned (answer, t, { ring' with wakerRegistry }) ∧
      Follows s completions t ∧
      ((∀ i < t.results.length, (t.resultAt i).isSome) →
        ∃ results, answer = .ready (.ok results)) := by
  have hseen : Follows s completions (s.seen completions).future :=
    follows_foldl (p := ⟨s, false, false, []⟩) hs hnd
  have hadv : Follows s completions (s.advanced completions) :=
    hseen.cancels (.foldl_settleCompleted _ _)
  rcases pollWithRing_cases waker hopen hcall with
    ⟨e, he, -⟩ | ⟨_, hc, ⟨-, -, hpoll⟩ | ⟨-, hpoll⟩ | ⟨hnot, wakerRegistry, hpoll⟩⟩
  · exact absurd he (by simp)
  all_goals obtain rfl := Except.ok.inj hc
  · exact ⟨_, _, ring'.wakerRegistry, hpoll, hadv.cancels (.cancelAllRemainingOperations _),
      fun _ => ⟨_, rfl⟩⟩
  · refine ⟨_, _, ring'.wakerRegistry, hpoll, hadv.cancels ?_, fun _ => ⟨_, rfl⟩⟩
    exact ⟨⟨rfl, rfl, rfl, rfl⟩, fun _ => Or.inl rfl⟩
  · refine ⟨_, _, wakerRegistry, hpoll, hadv, fun hall => ?_⟩
    exact absurd (allOperationsCompleted_iff.mpr hall) (by simp [hnot])

end StandaloneBatchFuture

end SaferRing
