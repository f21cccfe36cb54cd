import SaferRing.Numbering

/-!
# Every owned future gets its own completion, once

Each poll of an owned future takes everybody's completions from the backend. Still, as
long as only the owned interface is used and fewer than 2^64 operations are submitted, a
read or a write that resolves does so with the completion of its own operation
(`SaferRing.Delivers`), at most once, and no completion resolves two futures; and once
somebody took its completion, the next poll of the future answers. This is
`SaferRing.delivered_once`.

The run is followed in the mailbox, where a result is taken once because the id of the
waiter that took it is settled (`Mailbox.Settled`); that the place of a future is not
used again either is `SaferRing.spent_step`.
-/

namespace SaferRing

open Transition (Move)
open Mailbox (Effect)

/-- **What a completion is to a future** that holds the buffer `b`: its value and the buffer,
or an error of its kind. -/
def Delivers (result : IoResult) (b : OwnedBuffer) : SafeOutput → Prop
  | .ok (n, buffer) => ∃ bytes, result = .ok bytes ∧ n = asUsize bytes ∧ buffer = b
  | .error e => ∃ err err', result = .error err ∧ e = .io err' ∧ err'.kind = err.kind

/-- A move that **resolves a read or a write**: a poll of its future, which waited for the
operation `op`, answers `out`. -/
def Resolves (m : Move World Event) (f : ℕ) (op : SafeOperation) (out : SafeOutput) : Prop :=
  m.before.Live f op ∧ (∃ waker fail, m.label.action = .pollFuture f waker fail) ∧
    m.label.response = .polled (.ready out)

/-- The owned interface alone, over a backend that does not fail. -/
def OwnedOnly (_ : World) (e : Event) : Prop :=
  e.action.IsOwned ∧ ∀ f waker fail, e.action = .pollFuture f waker fail → fail = none

section Moves

variable {w w' : World} {e : Event} {f : ℕ} {op : SafeOperation} {out : SafeOutput}

/-- What a completion is settled into. -/
theorem delivers_settle (result : IoResult) (b : OwnedBuffer) :
    Delivers result b (settle (copyResult result) b) := by
  rcases result with err | bytes
  · exact ⟨err, err.copy, rfl, rfl, err.kind_copy⟩
  · exact ⟨bytes, rfl, rfl, rfl⟩

/-- The answer of a read or a write is what its user sees. -/
theorem AnswersWith.eq_of_polled {a a' : Poll SafeOutput} {r : Response}
    (h : AnswersWith w f a r) (hr : r = .polled a') : a = a' := by
  obtain ⟨future, -, rfl⟩ := h
  cases future with
  | safe => exact Response.polled.inj hr
  | accept => exact absurd hr (by simp [OwnedFuture.response])

/-- **A move that resolves a future is a result taken in the mailbox.** -/
theorem effect_of_resolves {m : Move World Event} {x : Effect ℕ IoResult}
    (hm : Resolves m f op out) (hown : OwnedOnly m.before m.label) (hx : Reads m.before m.label x) :
    ∃ v b, x = .resolve f v ∧ op.buffer = some b ∧ out = settle v b := by
  obtain ⟨hlive, ⟨waker, fail, ha⟩, hr⟩ := hm
  cases x with
  | quiet =>
    have hpend := (hx f waker fail op ha hlive).eq_of_polled hr
    exact absurd hpend (by simp)
  | accept id =>
    have hdraw := hx.1
    rw [ha] at hdraw
    exact absurd hdraw (by simp [Action.DrawsOwned])
  | strand id =>
    obtain ⟨⟨_, _, _, h⟩, -⟩ := hx
    exact absurd (ha.symm.trans h) (by simp)
  | complete =>
    obtain ⟨_, _, h⟩ := hx
    exact absurd (ha.symm.trans h) (by simp)
  | resolve g v =>
    obtain ⟨waker', fail', op', b, h, hlive', hb, hans⟩ := hx
    obtain ⟨rfl, -, -⟩ := Action.pollFuture.inj (ha.symm.trans h)
    obtain rfl := Option.some.inj (hlive.1.symm.trans hlive'.1)
    have hout := Poll.ready.inj (hans.eq_of_polled hr)
    exact ⟨v, b, rfl, hb, hout.symm⟩
  | giveUp g =>
    obtain ⟨waker', err, h, -⟩ := hx
    exact absurd (hown.2 _ _ _ h) (by simp)
  | leave g => exact absurd (ha.symm.trans hx) (by simp)
  | discard => exact absurd (ha.symm.trans hx) (by simp)

/-! ### Places are not used again -/

/-- The future at a place was made, and waits no more. -/
def Spent (f : ℕ) (w : World) : Prop := f < w.futures.length ∧ ∀ op, ¬w.Live f op

/-- A poll that answers leaves nothing that waits. -/
theorem spent_of_resolves {m : Move World Event} (hstep : Step m.before m.label m.after)
    (hm : Resolves m f op out) : Spent f m.after := by
  obtain ⟨w, ⟨action, response⟩, w'⟩ := m
  obtain ⟨hlive, ⟨waker, fail, ha⟩, hr⟩ := hm
  dsimp only at hstep hlive ha hr ⊢
  subst ha hr
  obtain ⟨future, answer, polled, ring, hf, hpoll, hr, rfl⟩ := hstep.pollFuture
  obtain ⟨hlt, -⟩ := List.getElem?_eq_some_iff.mp hf
  refine ⟨by rwa [List.length_set], fun op' hl => ?_⟩
  have hop : polled.operation = some op' := by
    have hat := hl.1
    rwa [operationAt_set hf, if_pos rfl] at hat
  obtain ⟨-, rfl⟩ := operation_of_poll hpoll hop
  have hans : AnswersWith w f .pending (.polled (.ready out)) := ⟨future, hf, hr⟩
  exact absurd (hans.eq_of_polled rfl) (by simp)

/-- **A place that is spent stays spent.** -/
theorem spent_step (hstep : Step w e w') (h : Spent f w) : Spent f w' := by
  obtain ⟨hlt, hnot⟩ := h
  obtain ⟨hle, hops⟩ := operationAt_step hstep
  refine ⟨Nat.lt_of_lt_of_le hlt hle, fun op hl => ?_⟩
  rcases hops f op hl.1 with hop | ⟨hf, -⟩
  · exact hnot op ⟨hop, hl.2⟩
  · exact hlt.ne hf

end Moves

/-! ### What holds along a run -/

/-- What holds after `n` submissions: the world is sound, its ids were drawn, and whoever
waits is tracked. -/
structure Served (n : ℕ) (w : World) : Prop where
  sound : Sound w
  numbered : Numbered n w
  tracked : Mailbox.Tracked copyResult w.mailbox

namespace Served

variable {w w' : World} {e : Event} {n f : ℕ} {op : SafeOperation} {out : SafeOutput}

theorem new : Served 0 World.new := by
  refine ⟨Sound.new, Numbered.new, List.nodup_nil, ?_, ?_⟩
  · exact fun h => absurd h (by simp [mailbox_new])
  · exact fun h => absurd h (by simp [mailbox_new])

/-- The simulation, with all that its effect is known not to disturb. -/
theorem mailbox_step (h : Served n w) (hstep : Step w e w') (hown : OwnedOnly w e)
    (hn : n + submissionCost e < 2 ^ 64) :
    ∃ x, Mailbox.Step copyResult w.mailbox x w'.mailbox ∧ Reads w e x ∧
      Mailbox.Retains w.mailbox x ∧ Mailbox.Renews w.mailbox x := by
  obtain ⟨x, hx, hreads, hretains⟩ :=
    h.sound.mailbox_step hstep (Or.inl hown.1) (h.numbered.drawsUnused hn)
  refine ⟨x, hx, hreads, hretains, ?_⟩
  cases x with
  | accept id =>
    obtain ⟨hdraw, rfl⟩ := hreads
    exact fun hid => h.numbered.not_known hn hdraw (Or.inr (Or.inl hid))
  | quiet | strand | complete | resolve | giveUp | leave | discard => trivial

theorem step (h : Served n w) (hstep : Step w e w') (hown : OwnedOnly w e)
    (hn : n + submissionCost e < 2 ^ 64) : Served (n + submissionCost e) w' := by
  obtain ⟨x, hx, -, hretains, hrenews⟩ := h.mailbox_step hstep hown hn
  exact ⟨h.sound.step hstep (Or.inl hown.1) (h.numbered.drawsUnused hn),
    h.numbered.step h.sound hstep (Or.inl hown.1) hn,
    h.tracked.step hx hrenews hretains h.sound.coherent⟩

/-- **A future resolves with the completion of its own operation**, which has been taken
from the backend. -/
theorem delivers (h : Served n w) (hstep : Step w e w') (hown : OwnedOnly w e)
    (hn : n + submissionCost e < 2 ^ 64) (hres : Resolves ⟨w, e, w'⟩ f op out) :
    ∃ r result b, (r, result) ∈ w'.delivered ∧ r.userData = op.submissionId ∧
      op.buffer = some b ∧ r.caller = .owned b.inner ∧ Delivers result b out := by
  obtain ⟨x, hx, hreads, -⟩ := h.mailbox_step hstep hown hn
  obtain ⟨v, b, rfl, hb, rfl⟩ := effect_of_resolves hres hown hreads
  obtain ⟨c, hc, hlive, rfl⟩ := h.tracked.resolve h.sound.coherent copyResult_copyResult hx
  rw [mailbox_live hres.1 hb, Option.some.injEq] at hlive
  obtain ⟨⟨r, result⟩, hr, rfl⟩ := List.mem_map.mp hc
  obtain ⟨hid, hcaller⟩ := Prod.mk.inj hlive
  exact ⟨r, result, b, hr, hid.symm, hb, hcaller.symm, delivers_settle result b⟩

/-- **A future that resolves settles its id.** -/
theorem settled (h : Served n w) (hstep : Step w e w') (hown : OwnedOnly w e)
    (hn : n + submissionCost e < 2 ^ 64) (hres : Resolves ⟨w, e, w'⟩ f op out) :
    Mailbox.Settled op.submissionId w'.mailbox := by
  obtain ⟨x, hx, hreads, -⟩ := h.mailbox_step hstep hown hn
  obtain ⟨v, b, rfl, hb, -⟩ := effect_of_resolves hres hown hreads
  exact h.tracked.settled h.sound.coherent copyResult_copyResult (mailbox_live hres.1 hb) hx

/-- **Once somebody took the completion of a live future, its next poll answers.** -/
theorem ready (h : Served n w) {future : SafeOperationFuture}
    (hf : w.futures[f]? = some (some (.safe future))) (hop : future.operation = some op)
    (hc : op.completed = false) {r : Request} {result : IoResult}
    (hr : (r, result) ∈ w.delivered) (hid : r.userData = op.submissionId) (waker : Waker) :
    ∃ out w', Step w ⟨.pollFuture f waker none, .polled (.ready out)⟩ w' := by
  have hlive : w.Live f op := ⟨(operationAt_eq hf).trans hop, hc⟩
  obtain ⟨b, hb⟩ := h.sound.buffered f op hlive.1
  have hmem : Completion.entry (r, result) ∈ w.mailbox.delivered := List.mem_map_of_mem hr
  obtain ⟨-, hkept⟩ := h.tracked.live_delivered (mailbox_live hlive hb) _ hmem hid
  have hcached : w.ring.cached op.submissionId = some (copyResult result) := hkept
  rcases pollOperation_cases SafeOperationFuture.texts hc hb w.ring waker none with
    ⟨v, -, hpoll⟩ | ⟨_, hnone, -⟩ | ⟨hnone, -⟩
  · refine ⟨settle (copyResult v) b, ?_⟩
    simp only [Step, World.step, World.pollFuture, hf, OwnedFuture.poll, SafeOperationFuture.poll,
      hop, hpoll]
    exact ⟨_, rfl⟩
  · exact absurd (hcached.symm.trans hnone) (by simp)
  · exact absurd (hcached.symm.trans hnone) (by simp)

end Served

section Runs

variable {ms : List (Move World Event)} {w : World}

/-- Every state of a run of the owned interface is served. -/
theorem served_of_run (hrun : Run ms w) (hown : Transition.Guarded OwnedOnly ms)
    (hfew : Transition.spent submissionCost ms < 2 ^ 64) :
    Served (Transition.spent submissionCost ms) w :=
  hrun.counted (fun _ _ _ _ hstep hg hn h => Served.step h hstep hg hn) hown hfew Served.new

/-- **What resolved stays behind**: neither its place nor its id comes back, and so no two
moves of a run resolve the same future or use the same id. -/
theorem resolves_pairwise (hrun : Run ms w) (hown : Transition.Guarded OwnedOnly ms)
    (hfew : Transition.spent submissionCost ms < 2 ^ 64) :
    (∀ m ∈ ms, ∀ f op out, Resolves m f op out →
      Spent f w ∧ Mailbox.Settled op.submissionId w.mailbox) ∧
    ms.Pairwise fun m m' => ∀ f g op op' out out', Resolves m f op out →
      Resolves m' g op' out' → f ≠ g ∧ op.submissionId ≠ op'.submissionId := by
  induction hrun with
  | nil => exact ⟨fun m hm => absurd hm (by simp), List.Pairwise.nil⟩
  | @snoc t u ms e hrun hstep ih =>
    obtain ⟨howns, hown⟩ := Transition.guarded_snoc.mp hown
    rw [Transition.spent_snoc] at hfew
    have hserved : Served _ t := served_of_run hrun howns (by omega)
    obtain ⟨hpast, hpair⟩ := ih howns (by omega)
    obtain ⟨x, hx, -, -, hrenews⟩ := hserved.mailbox_step hstep hown hfew
    refine ⟨fun m hm f op out hres => ?_, ?_⟩
    · rcases List.mem_append.mp hm with hm | hm
      · obtain ⟨hspent, hsettled⟩ := hpast m hm f op out hres
        exact ⟨spent_step hstep hspent, hsettled.step hx hrenews⟩
      · obtain rfl := List.mem_singleton.mp hm
        exact ⟨spent_of_resolves hstep hres, hserved.settled hstep hown hfew hres⟩
    · refine List.pairwise_append.mpr ⟨hpair, List.pairwise_singleton _ _, fun m hm m' hm' => ?_⟩
      obtain rfl := List.mem_singleton.mp hm'
      intro f g op op' out out' hres hres'
      obtain ⟨hspent, hsettled⟩ := hpast m hm f op out hres
      refine ⟨?_, ?_⟩
      · rintro rfl
        exact hspent.2 op' hres'.1
      · obtain ⟨b, hb⟩ := hserved.sound.buffered g op' hres'.1.1
        exact (hsettled.2 g _ (mailbox_live hres'.1 hb)).symm

/-- **Every owned future gets its own completion, once.** Along a run of the owned interface
with fewer than 2^64 submissions: a read or a write that resolves does so with the
completion of its own operation; no two moves resolve the same future or use the same id;
no id is taken from the backend twice; and a future whose completion was taken, by whoever
it was, answers its next poll. -/
theorem delivered_once (hrun : Run ms w) (hown : Transition.Guarded OwnedOnly ms)
    (hfew : Transition.spent submissionCost ms < 2 ^ 64) :
    (∀ m ∈ ms, ∀ f op out, Resolves m f op out →
      ∃ r result b, (r, result) ∈ m.after.delivered ∧ r.userData = op.submissionId ∧
        op.buffer = some b ∧ r.caller = .owned b.inner ∧ Delivers result b out) ∧
    (ms.Pairwise fun m m' => ∀ f g op op' out out', Resolves m f op out →
      Resolves m' g op' out' → f ≠ g ∧ op.submissionId ≠ op'.submissionId) ∧
    (w.delivered.map fun c => c.1.userData).Nodup ∧
    ∀ f future op, w.futures[f]? = some (some (.safe future)) → future.operation = some op →
      op.completed = false →
      (∃ r result, (r, result) ∈ w.delivered ∧ r.userData = op.submissionId) →
      ∀ waker, ∃ out w', Step w ⟨.pollFuture f waker none, .polled (.ready out)⟩ w' := by
  have hserved := served_of_run hrun hown hfew
  refine ⟨fun m hm f op out hres => ?_, (resolves_pairwise hrun hown hfew).2, ?_, ?_⟩
  · have hinv : ∀ n w e w', Step w e w' → OwnedOnly w e → n + submissionCost e < 2 ^ 64 →
        Served n w → Served (n + submissionCost e) w' :=
      fun _ _ _ _ hstep hg hn h => h.step hstep hg hn
    obtain ⟨n, hn, hbefore⟩ := hrun.counted_mem hinv hown hfew Served.new hm
    exact hbefore.delivers (hrun.step_of_mem hm) (hown m hm) hn hres
  · have hnodup := (List.nodup_append.mp hserved.tracked.once).1
    rwa [Mailbox.State.deliveredIds, World.mailbox, List.map_map] at hnodup
  · rintro f future op hf hop hc ⟨r, result, hr, hid⟩ waker
    exact hserved.ready hf hop hc hr hid waker

/-- Two reads complete, and the poll of the second takes both completions. -/
def takenByAnother : List Action :=
  [.newBuffer 4096 8, .newBuffer 8192 4, .owned (.readOwned 3) 0 (.ok ()),
    .owned (.readAtOwned 4 16) 0 (.ok ()), .complete 1 (.ok 4), .complete 0 (.error (.os 5)),
    .pollFuture 1 7 none]

/-- After it, the first answers its next poll. -/
theorem ready_takenByAnother : ∃ ms w, Run ms w ∧ actionsOf ms = takenByAnother ∧
    ∀ waker, ∃ out w', Step w ⟨.pollFuture 0 waker none, .polled (.ready out)⟩ w' := by
  obtain ⟨⟨ms, w⟩, htrace⟩ : ∃ x, World.new.trace takenByAnother = some x :=
    Option.isSome_iff_exists.mp (by decide)
  obtain ⟨hrun, hacts⟩ := run_of_trace htrace
  have hend : (World.new.trace takenByAnother).map
      (fun x => (x.2.futures[0]?, x.2.delivered.map fun c => c.1.userData)) =
      some (some (some (.safe ⟨some (.new ⟨0, 8, 0⟩ 1)⟩)), [2, 1]) := by
    decide
  rw [htrace] at hend
  obtain ⟨hfuture, hdelivered⟩ : w.futures[0]? = some (some (.safe ⟨some (.new ⟨0, 8, 0⟩ 1)⟩)) ∧
      (w.delivered.map fun c => c.1.userData) = [2, 1] := by simpa using hend
  have hown : Transition.Guarded OwnedOnly ms := by
    refine guarded_of_actions (p := fun a => a.IsOwned ∧
      ∀ f waker fail, a = .pollFuture f waker fail → fail = none) (fun _ _ h => h) ?_
    rw [hacts]
    simp [takenByAnother, Action.IsOwned]
  have hfew : Transition.spent submissionCost ms < 2 ^ 64 := by
    rw [spent_submissionCost, hacts]
    decide
  obtain ⟨⟨r, result⟩, hr, hid⟩ : ∃ c ∈ w.delivered, c.1.userData = 1 :=
    List.mem_map.mp (by rw [hdelivered]; simp)
  obtain ⟨-, -, -, hready⟩ := delivered_once hrun hown hfew
  exact ⟨ms, w, hrun, hacts, hready 0 _ _ hfuture rfl rfl ⟨r, result, hr, hid⟩⟩

end Runs

end SaferRing
