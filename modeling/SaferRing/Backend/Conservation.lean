import SaferRing.Backend.Contract

/-!
# A backend loses nothing and makes nothing up

What the contract of a backend accepts, it hands over or has in flight
(`SaferRing.Backend.accounted_of_run`). The backends there are keep the contract, and what they
count as being in flight is what they have not handed over:

* `SaferRing.IoUringBackend.refines_noted` – of the io_uring backend;
* `SaferRing.EpollBackend.refines_pending` – of the epoll backend.
-/

namespace SaferRing

open Transition (Guarded Move)

/-! ### The ids that are seen -/

namespace Seen

/-- The id of an operation that was accepted. -/
def takenId : Seen → Option ℕ
  | accepted request => some request.userData
  | completed .. => none

/-- The id of an operation whose completion was handed over. -/
def finishedId : Seen → Option ℕ
  | accepted _ => none
  | completed id _ => some id

/-- **The ids of the operations accepted.** -/
def takenIds (seen : List Seen) : List ℕ := seen.filterMap takenId

/-- **The ids of the operations completed.** -/
def finishedIds (seen : List Seen) : List ℕ := seen.filterMap finishedId

variable (seen seen' : List Seen) (completions : List (ℕ × IoResult))

@[simp] theorem takenIds_append :
    takenIds (seen ++ seen') = takenIds seen ++ takenIds seen' :=
  List.filterMap_append

@[simp] theorem finishedIds_append :
    finishedIds (seen ++ seen') = finishedIds seen ++ finishedIds seen' :=
  List.filterMap_append

@[simp] theorem takenIds_completions : takenIds (Seen.completions completions) = [] := by
  simp [takenIds, Seen.completions, List.filterMap_map, Function.comp_def, takenId]

@[simp] theorem finishedIds_completions :
    finishedIds (Seen.completions completions) = completions.map Prod.fst := by
  simp [finishedIds, Seen.completions, List.filterMap_map, Function.comp_def, finishedId]

end Seen

open Seen (takenIds finishedIds)

/-! ### The contract -/

namespace Backend

variable {b b' : Backend} {act : Act} {acts : List (Move Backend Act)}

/-- **A step of the contract** takes in what it shows as accepted, and lets go of what it shows as
completed. -/
theorem accounted_step (h : b.Does act b') :
    (takenIds (shows ⟨b, act, b'⟩) ++ b.inFlightIds).Perm
      (finishedIds (shows ⟨b, act, b'⟩) ++ b'.inFlightIds) := by
  cases act with
  | accept request =>
    obtain ⟨-, rfl⟩ := Prod.mk.inj h
    exact (inFlight_accepted_perm.map Request.userData).symm
  | complete i result => exact ((complete_perm h).map Request.userData).symm
  | handOver =>
    obtain ⟨-, rfl⟩ := Prod.mk.inj h
    change (takenIds (Seen.completions b.waiting) ++ b.inFlightIds).Perm
      (finishedIds (Seen.completions b.waiting) ++ b.drained.inFlightIds)
    rw [Seen.takenIds_completions, Seen.finishedIds_completions, List.nil_append,
      inFlightIds_eq, inFlightIds_drained]
    exact List.perm_append_comm

/-- **What was accepted was handed over, or is in flight**, along every run of the contract. -/
theorem accounted_of_run (hrun : Transition.Run Does b acts b') :
    (takenIds (acts.flatMap shows) ++ b.inFlightIds).Perm
      (finishedIds (acts.flatMap shows) ++ b'.inFlightIds) := by
  induction hrun with
  | nil => exact .refl _
  | @snoc s t acts act _ hstep ih =>
    simp only [List.flatMap_append, List.flatMap_singleton, Seen.takenIds_append,
      Seen.finishedIds_append]
    refine List.perm_iff_count.mpr fun id => ?_
    have hbefore := List.perm_iff_count.mp ih id
    have hlast := List.perm_iff_count.mp (accounted_step hstep) id
    simp only [List.count_append] at hbefore hlast ⊢
    omega

/-- The same from a new state of the contract, that mirrors a backend in the end. -/
theorem Mirrors.conserved {ids : List ℕ} (h : Mirrors ids b)
    (hrun : Transition.Run Does Backend.new acts b) :
    (takenIds (acts.flatMap shows)).Perm (finishedIds (acts.flatMap shows) ++ ids) := by
  have hconserved := accounted_of_run hrun
  have hflight : b.inFlightIds.Perm ids := by
    rw [inFlightIds, inFlight, h.ready, List.map_nil, List.append_nil]
    exact h.pending
  have hnone : Backend.new.inFlightIds = [] := rfl
  rw [hnone, List.append_nil] at hconserved
  exact hconserved.trans (hflight.append_left _)

end Backend

/-! ### The io_uring backend -/

namespace IoUringBackend

variable {K : IoUring} {b b' : IoUringBackend K} {e : Event K}

/-- **No operation is accepted under the id of one that the ring knows.** -/
def NewId (b : IoUringBackend K) (e : Event K) : Prop :=
  match e.call with
  | .submitOperation request choice =>
    (b.submitOperation request choice).1 = .ok () → request.userData ∉ b.ids
  | _ => True

/-- **The ids noted are those the ring knows.** -/
def Notes (b : IoUringBackend K) : Prop := b.inFlight.keys.Perm b.ids

/-- Completions are struck off. -/
theorem perm_keys_foldl_erase {inFlight : HashMap Unit} {ids : List ℕ} (cqes : List Cqe)
    (h : inFlight.keys.Perm (cqes.map Cqe.userData ++ ids)) :
    (cqes.foldl (fun inFlight cqe => inFlight.erase cqe.userData) inFlight).keys.Perm ids := by
  induction cqes generalizing inFlight with
  | nil => exact h
  | cons cqe rest ih =>
    refine ih ?_
    have herased := h.erase cqe.userData
    rw [List.map_cons, List.cons_append, List.erase_cons_head] at herased
    exact (AList.keys_erase cqe.userData inFlight).symm ▸ herased

/-- Taking completions strikes them off. -/
theorem Notes.tryComplete (hK : K.Exact) (h : b.Notes) : b.tryComplete.2.Notes := by
  refine perm_keys_foldl_erase (K.completion b.ring).1 (List.Perm.trans h ?_)
  have hids : b.tryComplete.1.map Prod.fst = (K.completion b.ring).1.map Cqe.userData :=
    List.map_map
  rw [← hids]
  exact perm_ids_tryComplete hK b

/-- **A step notes what the ring knows.** -/
theorem Notes.step (hK : K.Exact) (h : b.Notes) (hstep : Step b e b') (hearly : b.RefusesEarly e)
    (hid : b.NewId e) : b'.Notes := by
  obtain ⟨call, completions⟩ := e
  cases call with
  | submitOperation request choice =>
    obtain ⟨rfl, rfl⟩ := Prod.mk.inj (Option.some.inj hstep)
    rcases b.submitOperation_cases request choice with ⟨-, _, hsub⟩ | ⟨entry, ring, hlate, hentry,
      hqueued, hunf, hsub⟩
    · rw [hsub]
      exact h
    · rcases hans : (b.submitOperation request choice).1 with error | ⟨⟨⟩⟩
      · exact absurd (hearly error hans) hlate
      · have hnew : request.userData ∉ b.inFlight.keys :=
          fun hmem => hid hans (h.mem_iff.mp hmem)
        rw [hsub]
        have hkeys : (b.inFlight.insert request.userData ()).keys =
            request.userData :: b.inFlight.keys := by
          rw [AList.keys_insert, List.erase_of_not_mem hnew]
        rw [Notes, hkeys]
        refine List.Perm.trans ?_ (perm_ids_of_takes (hK.submit ring choice))
        rw [hqueued, hunf, List.map_append, List.append_assoc, ← hentry]
        exact (h.cons _).trans List.perm_middle.symm
  | tryComplete =>
    have hall : b.tryComplete = (completions, b') := Option.some.inj hstep
    have hnotes := h.tryComplete hK
    rw [hall] at hnotes
    exact hnotes
  | waitForCompletion choice =>
    obtain ⟨⟨answer, backend⟩, hwait, hab⟩ := Option.map_eq_some_iff.mp hstep
    obtain ⟨rfl, rfl⟩ := Prod.mk.inj hab
    unfold waitForCompletion at hwait
    split at hwait
    · obtain ⟨rfl, rfl⟩ := Prod.mk.inj (Option.some.inj hwait)
      exact h
    split at hwait
    · exact absurd hwait (by simp)
    · rename_i ring hring
      obtain ⟨rfl, rfl⟩ := Prod.mk.inj (Option.some.inj hwait)
      exact List.Perm.trans h (perm_ids_of_takes (hK.wait _ _ _ _ hring))
    · rename_i ring hring
      obtain ⟨rfl, rfl⟩ := Prod.mk.inj (Option.some.inj hwait)
      have htaken : Notes { b with ring } :=
        List.Perm.trans h (perm_ids_of_takes (hK.wait _ _ _ _ hring))
      exact htaken.tryComplete hK
  | work choice =>
    obtain ⟨rfl, rfl⟩ := Prod.mk.inj (Option.some.inj hstep)
    obtain ⟨hqueued, -⟩ := K.work_unfinished b.ring choice
    refine List.Perm.trans h ?_
    change List.Perm _ ((K.queued (K.work b.ring choice)).map _ ++ _)
    rw [hqueued]
    exact (hK.work b.ring choice).append_left _

/-- **The io_uring backend is what the ring takes it for.** Along every run over an instance that
keeps count – calls of the backend in any order, and the kernel going on in between – in which no
submission is refused once its entry was pushed, what the caller sees is what the contract shows in
some run of it; each operation accepted was handed over once, or is one of those noted as in
flight; and these are the operations that the instance has. -/
theorem refines_noted (hK : K.Exact) {ms : List (Move (IoUringBackend K) (Event K))}
    (hnew : b.ids = []) (hempty : b.inFlight = ∅) (hrun : Transition.Run Step b ms b')
    (hearly : Guarded RefusesEarly ms) (hid : Guarded NewId ms) :
    (∃ acts a, Transition.Run Backend.Does Backend.new acts a ∧
      acts.flatMap Backend.shows = ms.flatMap shows) ∧
    (takenIds (ms.flatMap shows)).Perm
      (finishedIds (ms.flatMap shows) ++ b'.inFlight.keys) ∧
    b'.inFlight.keys.Perm b'.ids := by
  obtain ⟨acts, a, hacts, hmirrors, hshows⟩ := keeps_contract hK hnew hrun hearly
  have hstart : b.Notes := by
    rw [Notes, hnew, hempty]
    exact .refl _
  have hkeep : ∀ s e t, Step s e t → (s.RefusesEarly e ∧ s.NewId e) → s.Notes → t.Notes :=
    fun _ _ _ hstep hg h => h.step hK hstep hg.1 hg.2
  have hnotes : b'.Notes := hrun.invariant hkeep (hearly.and hid) hstart
  have hconserved := hmirrors.conserved hacts
  rw [hshows] at hconserved
  exact ⟨⟨acts, a, hacts, hshows⟩, hconserved.trans (hnotes.symm.append_left _), hnotes⟩

/-- A read under an id. -/
def readUnder (id : ℕ) : Request := ⟨.read, 3, 0, some 4096, 8, id, .owned id⟩

/-- **Of two reads that were accepted, one completed**, and the other is in flight. -/
theorem refines_twoReads : ∃ ms b', Transition.Run Step ofQueues ms b' ∧
    [1, 2].Perm (finishedIds (ms.flatMap shows) ++ b'.inFlight.keys) ∧
    finishedIds (ms.flatMap shows) = [1] := by
  let b₁ := (ofQueues.submitOperation (readUnder 1) takesTwo).2
  let b₂ := (b₁.submitOperation (readUnder 2) takesTwo).2
  let b₃ : IoUringBackend .queues := { b₂ with ring := Queues.work b₂.ring completesOne }
  have hfirst : Step ofQueues ⟨.submitOperation (readUnder 1) takesTwo, []⟩ b₁ := rfl
  have hsecond : Step b₁ ⟨.submitOperation (readUnder 2) takesTwo, []⟩ b₂ := rfl
  have hwork : Step b₂ ⟨.work completesOne, []⟩ b₃ := rfl
  have htake : Step b₃ ⟨.tryComplete, [(1, .ok 8)]⟩ b₃.tryComplete.2 := rfl
  let ms : List (Move (IoUringBackend .queues) (Event .queues)) :=
    [⟨ofQueues, ⟨.submitOperation (readUnder 1) takesTwo, []⟩, b₁⟩,
      ⟨b₁, ⟨.submitOperation (readUnder 2) takesTwo, []⟩, b₂⟩, ⟨b₂, ⟨.work completesOne, []⟩, b₃⟩,
      ⟨b₃, ⟨.tryComplete, [(1, .ok 8)]⟩, b₃.tryComplete.2⟩]
  have hrun : Transition.Run Step ofQueues ms b₃.tryComplete.2 :=
    (((Transition.Run.single hfirst).snoc hsecond).snoc hwork).snoc htake
  have hfirstOk : (ofQueues.submitOperation (readUnder 1) takesTwo).1 = .ok () := rfl
  have hsecondOk : (b₁.submitOperation (readUnder 2) takesTwo).1 = .ok () := rfl
  have hearly : Guarded RefusesEarly ms := by
    intro m hm
    simp only [ms, List.mem_cons, List.not_mem_nil, or_false] at hm
    rcases hm with rfl | rfl | rfl | rfl
    · exact fun _ h => absurd (hfirstOk.symm.trans h) (by simp)
    · exact fun _ h => absurd (hsecondOk.symm.trans h) (by simp)
    · trivial
    · trivial
  have hnew : Guarded NewId ms := by
    intro m hm
    simp only [ms, List.mem_cons, List.not_mem_nil, or_false] at hm
    rcases hm with rfl | rfl | rfl | rfl
    · exact fun _ => by decide
    · exact fun _ => by decide
    · trivial
    · trivial
  obtain ⟨-, hconserved, -⟩ := refines_noted IoUring.exact_queues rfl rfl hrun hearly hnew
  exact ⟨ms, _, hrun, hconserved, rfl⟩

end IoUringBackend

/-! ### The epoll backend -/

namespace EpollBackend

variable {K : Epoll} {b : EpollBackend K}

/-- **The epoll backend is what the ring takes it for.** Along every run of its calls in which no
operation is accepted under the id of one that is pending, what the caller sees is what the
contract shows in some run of it, and each operation accepted was handed over once, or is one of
those pending. -/
theorem refines_pending {ms : List (Move (EpollBackend K) (Call K))}
    (hrun : Transition.Run Step EpollBackend.new ms b) (hid : Guarded NewId ms) :
    (∃ acts a, Transition.Run Backend.Does Backend.new acts a ∧
      acts.flatMap Backend.shows = ms.flatMap shows) ∧
    (takenIds (ms.flatMap shows)).Perm
      (finishedIds (ms.flatMap shows) ++ b.pendingOperations.keys) := by
  obtain ⟨acts, a, hacts, hmirrors, hshows⟩ := keeps_contract hrun hid
  have hconserved := hmirrors.conserved hacts
  rw [hshows] at hconserved
  exact ⟨⟨acts, a, hacts, hshows⟩, hconserved⟩

/-- Two receives are submitted, on different descriptors, and one completes. -/
def receivedOne : List (Call .interests) :=
  [.submitOperation (receive 1) idle,
    .submitOperation ⟨.recv, 4, 0, some 8192, 8, 2, .legacy⟩ idle,
    .tryComplete threeReady fun _ => .ok 8]

/-- **Of two receives, the one that completes is handed over**, and the other one is pending. -/
theorem refines_receivedOne : ∃ ms b, Transition.Run Step EpollBackend.new ms b ∧
    ms.map Move.label = receivedOne ∧ finishedIds (ms.flatMap shows) = [1] ∧
    b.pendingOperations.keys = [2] ∧
    (takenIds (ms.flatMap shows)).Perm
      (finishedIds (ms.flatMap shows) ++ b.pendingOperations.keys) := by
  let other : Request := ⟨.recv, 4, 0, some 8192, 8, 2, .legacy⟩
  let b₁ : EpollBackend .interests := (new.submitOperation (receive 1) idle).2
  let b₂ : EpollBackend .interests := (b₁.submitOperation other idle).2
  let b₃ : EpollBackend .interests :=
    ⟨([⟨3, ⟨epollIn ||| epollOneshot, 1⟩, false⟩, ⟨4, ⟨epollIn ||| epollOneshot, 2⟩, true⟩] :
      List Interest), b₂.pendingOperations.erase 1⟩
  have hfirst : Step new (.submitOperation (receive 1) idle) b₁ := rfl
  have hsecond : Step b₁ (.submitOperation other idle) b₂ := rfl
  have htake : Step b₂ (.tryComplete threeReady fun _ => .ok 8) b₃ := rfl
  let ms : List (Move (EpollBackend .interests) (Call .interests)) :=
    [⟨new, .submitOperation (receive 1) idle, b₁⟩, ⟨b₁, .submitOperation other idle, b₂⟩,
      ⟨b₂, .tryComplete threeReady fun _ => .ok 8, b₃⟩]
  have hrun : Transition.Run Step new ms b₃ :=
    ((Transition.Run.single hfirst).snoc hsecond).snoc htake
  have hnew : Guarded NewId ms := by
    intro m hm
    simp only [ms, List.mem_cons, List.not_mem_nil, or_false] at hm
    rcases hm with rfl | rfl | rfl
    · exact fun _ => rfl
    · exact fun _ => rfl
    · trivial
  exact ⟨ms, b₃, hrun, rfl, rfl, rfl, (refines_pending hrun hnew).2⟩

end EpollBackend

end SaferRing
