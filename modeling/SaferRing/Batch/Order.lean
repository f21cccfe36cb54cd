import SaferRing.Batch.Borrowing
import SaferRing.Library.Topological

/-!
# The order a batch is submitted in

`SaferRing.DependencyValidator.dependencyOrder` sorts a batch so that every operation comes
after those it depends on (`SaferRing.DependencyValidator.topological_dependencyOrder`), and
fails only on a cycle (`SaferRing.DependencyValidator.dependencyOrder_ok`). The submission of
a batch computes that order and then goes through the operations as they were added
(`SaferRing.Ring.positions_handedOverBatch`). What it hands to the backend
(`SaferRing.Ring.handedOverBatch`) is so in topological order exactly when no operation depends
on one added later: `SaferRing.Ring.topological_submitBatch_iff`.
-/

namespace SaferRing

open Graph (Topological Acyclic topological_nil topological_concat topological_range)

/-- An operation depends on another. -/
def DependsOn (dependencies : HashMap (List ℕ)) (i j : ℕ) : Prop :=
  j ∈ dependenciesOf dependencies i

instance (dependencies : HashMap (List ℕ)) (i j : ℕ) : Decidable (DependsOn dependencies i j) :=
  inferInstanceAs (Decidable (j ∈ dependenciesOf dependencies i))

/-! ### What the sort puts out -/

namespace DependencyValidator

variable {dependencies : HashMap (List ℕ)} {node : ℕ} {s t : VisitState}

/-- What was put out so far is in topological order. -/
structure Sorted (dependencies : HashMap (List ℕ)) (state : VisitState) : Prop where
  topological : Topological (DependsOn dependencies) state.result
  visited : ∀ node ∈ state.visited, node ∈ state.result

/-- **What a successful visit makes of the output**: it stays sorted and grows, and the path
is what it was. -/
structure Extends (dependencies : HashMap (List ℕ)) (s t : VisitState) : Prop where
  sorted : Sorted dependencies s → Sorted dependencies t
  keeps : ∀ node ∈ s.result, node ∈ t.result
  path : t.tempVisited = s.tempVisited

theorem Extends.refl (s : VisitState) : Extends dependencies s s :=
  ⟨fun h => h, fun _ h => h, rfl⟩

theorem Extends.trans {u : VisitState} (h : Extends dependencies s t)
    (h' : Extends dependencies t u) : Extends dependencies s u :=
  ⟨fun hs => h'.sorted (h.sorted hs), fun n hn => h'.keeps n (h.keeps n hn),
    h'.path.trans h.path⟩

/-- Nodes visited one after the other are all put out. -/
theorem extends_visitAll {visit : ℕ → VisitState → Option (Except SaferRingError VisitState)}
    {nodes : List ℕ} (hvisit : ∀ node s t, Sorted dependencies s → visit node s = some (.ok t) →
      Extends dependencies s t ∧ node ∈ t.result)
    (hs : Sorted dependencies s) (h : visitAll visit nodes s = some (.ok t)) :
    Extends dependencies s t ∧ ∀ node ∈ nodes, node ∈ t.result := by
  induction nodes generalizing s with
  | nil =>
    obtain rfl := Except.ok.inj (Option.some.inj h)
    exact ⟨.refl s, fun n hn => absurd hn (by simp)⟩
  | cons node rest ih =>
    rw [visitAll] at h
    split at h
    · rename_i u hu
      obtain ⟨hfirst, hnode⟩ := hvisit node s u hs hu
      obtain ⟨hrest, hall⟩ := ih (hfirst.sorted hs) h
      refine ⟨hfirst.trans hrest, fun n hn => ?_⟩
      rcases List.mem_cons.mp hn with rfl | hn
      · exact hrest.keeps n hnode
      · exact hall n hn
    · rename_i hnot
      exact absurd h (hnot t)

/-- **A node is put out once everything it depends on is.** -/
theorem extends_visitNode {depth : ℕ} (hs : Sorted dependencies s)
    (h : visitNode dependencies depth node s = some (.ok t)) :
    Extends dependencies s t ∧ node ∈ t.result := by
  induction depth generalizing node s t with
  | zero => exact absurd h (by simp [visitNode])
  | succ depth ih =>
    rw [visitNode] at h
    by_cases htemp : node ∈ s.tempVisited
    · rw [if_pos htemp] at h
      exact absurd h (by simp)
    rw [if_neg htemp] at h
    by_cases hvis : node ∈ s.visited
    · rw [if_pos hvis] at h
      obtain rfl := Except.ok.inj (Option.some.inj h)
      exact ⟨.refl s, hs.visited node hvis⟩
    rw [if_neg hvis] at h
    split at h
    · rename_i u hu
      have hpath : Sorted dependencies { s with tempVisited := node :: s.tempVisited } :=
        ⟨hs.topological, hs.visited⟩
      obtain ⟨hdeps, hall⟩ := extends_visitAll (fun _ _ _ hs h => ih hs h) hpath hu
      have hu' := hdeps.sorted hpath
      obtain rfl := Except.ok.inj (Option.some.inj h)
      refine ⟨⟨fun _ => ⟨topological_concat.mpr ⟨hu'.topological, hall⟩, fun n hn => ?_⟩,
        fun n hn => List.mem_append_left _ (hdeps.keeps n hn), ?_⟩, by simp⟩
      · rcases List.mem_cons.mp hn with rfl | hn
        · simp
        · exact List.mem_append_left _ (hu'.visited n hn)
      · rw [hdeps.path]
        exact List.erase_cons_head ..
    · rename_i hnot
      exact absurd h (hnot t)

/-- A node that is not visited yet. -/
theorem extends_visitFresh (hs : Sorted dependencies s)
    (h : visitFresh dependencies node s = some (.ok t)) :
    Extends dependencies s t ∧ node ∈ t.result := by
  rw [visitFresh] at h
  by_cases hvis : node ∈ s.visited
  · rw [if_pos hvis] at h
    obtain rfl := Except.ok.inj (Option.some.inj h)
    exact ⟨.refl s, hs.visited node hvis⟩
  · rw [if_neg hvis] at h
    exact extends_visitNode hs h

/-- **The dependency order is topological**, and has every operation. -/
theorem topological_dependencyOrder {operationCount : ℕ} {order : List ℕ}
    (h : dependencyOrder dependencies operationCount = .ok order) :
    Topological (DependsOn dependencies) order ∧ ∀ i < operationCount, i ∈ order := by
  have hempty : Sorted dependencies ⟨[], [], []⟩ :=
    ⟨topological_nil, fun n hn => absurd hn (by simp)⟩
  rw [dependencyOrder] at h
  split at h
  · rename_i t ht
    obtain rfl := Except.ok.inj h
    have hall : visitAll (visitFresh dependencies) (List.range operationCount) ⟨[], [], []⟩ =
        some (.ok t) := by
      rw [← ht, Option.some_get]
    obtain ⟨hext, hnodes⟩ :=
      extends_visitAll (fun _ _ _ hs h => extends_visitFresh hs h) hempty hall
    exact ⟨(hext.sorted hempty).topological, fun i hi => hnodes i (List.mem_range.mpr hi)⟩
  · exact absurd h (by simp)

/-- Where visits fail because of a cycle, so does one after the other. -/
theorem cycle_of_visitAll {visit : ℕ → VisitState → Option (Except SaferRingError VisitState)}
    {nodes : List ℕ} {e : SaferRingError} {C : Prop}
    (hvisit : ∀ node ∈ nodes, ∀ u, Sorted dependencies u → u.tempVisited = s.tempVisited →
      (∀ v, visit node u = some (.ok v) → Extends dependencies u v ∧ node ∈ v.result) ∧
        (visit node u = some (.error e) → C))
    (hs : Sorted dependencies s) (h : visitAll visit nodes s = some (.error e)) : C := by
  induction nodes generalizing s with
  | nil => exact absurd h (by simp [visitAll])
  | cons node rest ih =>
    obtain ⟨hok, herr⟩ := hvisit node List.mem_cons_self s hs rfl
    rw [visitAll] at h
    split at h
    · rename_i u hu
      obtain ⟨hext, -⟩ := hok u hu
      refine ih (fun n hn v hv htemp => ?_) (hext.sorted hs) h
      exact hvisit n (List.mem_cons_of_mem _ hn) v hv (htemp.trans hext.path)
    · exact herr h

/-- **A visit fails only on a cycle**, when the path leads to the node visited. -/
theorem cycle_of_visitNode {depth : ℕ} {e : SaferRingError} (hs : Sorted dependencies s)
    (hpath : ∀ n ∈ s.tempVisited, Relation.TransGen (DependsOn dependencies) n node)
    (h : visitNode dependencies depth node s = some (.error e)) :
    ∃ n, Relation.TransGen (DependsOn dependencies) n n := by
  induction depth generalizing node s with
  | zero => exact absurd h (by simp [visitNode])
  | succ depth ih =>
    rw [visitNode] at h
    by_cases htemp : node ∈ s.tempVisited
    · exact ⟨node, hpath node htemp⟩
    rw [if_neg htemp] at h
    by_cases hvis : node ∈ s.visited
    · rw [if_pos hvis] at h
      exact absurd h (by simp)
    rw [if_neg hvis] at h
    split at h
    · exact absurd h (by simp)
    · have hnode : Sorted dependencies { s with tempVisited := node :: s.tempVisited } :=
        ⟨hs.topological, hs.visited⟩
      refine cycle_of_visitAll (fun d hd u hu htemp => ⟨fun v hv => extends_visitNode hu hv,
        fun hv => ih hu (fun n hn => ?_) hv⟩) hnode h
      -- the path leads to the node, and the node to what it depends on
      have hstep : DependsOn dependencies node d := hd
      rw [htemp] at hn
      rcases List.mem_cons.mp hn with rfl | hn
      · exact .single hstep
      · exact (hpath n hn).tail hstep

/-- **A graph without cycles has a dependency order.** -/
theorem dependencyOrder_ok (h : Acyclic (DependsOn dependencies)) (operationCount : ℕ) :
    ∃ order, dependencyOrder dependencies operationCount = .ok order := by
  rw [dependencyOrder]
  split
  · exact ⟨_, rfl⟩
  · rename_i e he
    have herr : visitAll (visitFresh dependencies) (List.range operationCount) ⟨[], [], []⟩ =
        some (.error e) := by
      rw [← he, Option.some_get]
    have hempty : Sorted dependencies ⟨[], [], []⟩ :=
      ⟨topological_nil, fun n hn => absurd hn (by simp)⟩
    obtain ⟨n, hn⟩ : ∃ n, Relation.TransGen (DependsOn dependencies) n n := by
      refine cycle_of_visitAll (fun d _ u hu htemp => ⟨fun v hv => extends_visitFresh hu hv,
        fun hv => ?_⟩) hempty herr
      rw [visitFresh] at hv
      by_cases hvis : d ∈ u.visited
      · rw [if_pos hvis] at hv
        exact absurd hv (by simp)
      · rw [if_neg hvis] at hv
        refine cycle_of_visitNode hu (fun n hn => ?_) hv
        rw [htemp] at hn
        exact absurd hn (by simp)
    exact absurd hn (h n)

end DependencyValidator

/-! ### What is handed over -/

namespace Ring

variable {answers : ℕ → Except SaferRingError Unit} {batch : Batch} {config : BatchConfig}
variable {ring : Ring} {index i : ℕ} {operations : List (Operation Building)}

/-- **What the loop of a submission hands to the backend**, in order: each operation with its
position, until one is not valid or the backend refuses it. -/
def handedOver (answers : ℕ → Except SaferRingError Unit) :
    Ring → ℕ → List (Operation Building) → List (ℕ × Request)
  | _, _, [] => []
  | ring, index, operation :: rest =>
    match operation.validate with
    | .error _ => []
    | .ok () =>
      (index, legacyRequest { operation with state := ⟨ring.operations.nextId⟩ }) ::
        match ring.submit operation (answers index) with
        | (.error _, _) => []
        | (.ok _, ring) => handedOver answers ring (index + 1) rest

/-- What the submission of a batch hands to the backend. -/
def handedOverBatch (self : Ring) (batch : Batch) (config : BatchConfig)
    (answers : ℕ → Except SaferRingError Unit) : List (ℕ × Request) :=
  match checkBatch batch config with
  | .error _ => []
  | .ok () => handedOver answers self 0 batch.operations

/-- What the backend accepts of what it is handed. -/
def acceptedOf (answers : ℕ → Except SaferRingError Unit) (handed : List (ℕ × Request)) :
    List Request :=
  (handed.filter fun h => decide (answers h.1 = .ok ())).map Prod.snd

/-- **The backend works on what it accepted**, in the order it was handed over. -/
theorem pending_submitAll (answers : ℕ → Except SaferRingError Unit) (ring : Ring) (index : ℕ)
    (operations : List (Operation Building)) :
    (submitAll answers ring index operations).2.backend.pending =
      ring.backend.pending ++ acceptedOf answers (handedOver answers ring index operations) := by
  induction operations generalizing ring index with
  | nil => simp [submitAll, handedOver, acceptedOf]
  | cons operation rest ih =>
    rw [submitAll, handedOver]
    rcases ring.submit_cases operation (answers index) with
      ⟨msg, hv, hsub⟩ | ⟨e, ha, hv, hsub⟩ | ⟨ha, hv, hsub⟩
    · rw [hsub, hv]
      simp [acceptedOf]
    · rw [hsub, hv]
      simp [acceptedOf, ha, tracking]
    · rw [hsub, hv]
      have hrest := ih ((ring.tracking operation).accepted
        (legacyRequest { operation with state := ⟨ring.operations.nextId⟩ })) (index + 1)
      simp only
      rcases hcall : submitAll answers ((ring.tracking operation).accepted
        (legacyRequest { operation with state := ⟨ring.operations.nextId⟩ })) (index + 1) rest with
        ⟨_ | ids, ring'⟩
      all_goals
        rw [hcall] at hrest
        rw [hrest]
        simp [acceptedOf, ha, accepted, tracking, Backend.accepted]

/-- **Whether the submission of a batch gets as far as handing over an operation.** -/
def Reaches (answers : ℕ → Except SaferRingError Unit) (batch : Batch) (config : BatchConfig)
    (i : ℕ) : Prop :=
  checkBatch batch config = .ok () ∧ (∀ j < i, Accepts answers batch.operations j) ∧
    ∃ operation, batch.operations[i]? = some operation ∧ operation.validate = .ok ()

/-- **The operations handed over are the first ones**, in the order they were added. -/
theorem positions_handedOver (ring : Ring) (index : ℕ) (operations : List (Operation Building)) :
    (handedOver answers ring index operations).map Prod.fst =
      List.range' index (handedOver answers ring index operations).length := by
  induction operations generalizing ring index with
  | nil => rfl
  | cons operation rest ih =>
    rw [handedOver]
    rcases operation.validate with msg | ⟨⟨⟩⟩
    · rfl
    · simp only [List.map_cons, List.length_cons, List.range'_succ, List.cons.injEq, true_and]
      split
      · rfl
      · exact ih _ _

/-- An operation is handed over when those before it are accepted and it is valid. -/
theorem lt_length_handedOver :
    i < (handedOver answers ring index operations).length ↔
      (∀ j < i, Accepts (fun k => answers (index + k)) operations j) ∧
        ∃ operation, operations[i]? = some operation ∧ operation.validate = .ok () := by
  induction operations generalizing ring index i with
  | nil => simp [handedOver]
  | cons operation rest ih =>
    rw [handedOver]
    rcases ring.submit_cases operation (answers index) with
      ⟨msg, hv, hsub⟩ | ⟨e, ha, hv, hsub⟩ | ⟨ha, hv, hsub⟩
    -- the first operation is not valid: nothing is handed over
    · refine iff_of_false (by simp [hv]) ?_
      rintro ⟨hacc, op, hop, hvalid⟩
      rcases i with _ | i
      · obtain rfl := Option.some.inj hop
        exact absurd (hv.symm.trans hvalid) (by simp)
      · have hvalid := (hacc 0 (Nat.succ_pos i)).2 operation rfl
        exact absurd (hv.symm.trans hvalid) (by simp)
    -- it is refused: nothing is handed over after it
    · rw [hv, hsub]
      rcases i with _ | i
      · exact iff_of_true (Nat.succ_pos _) ⟨fun j hj => absurd hj (Nat.not_lt_zero j),
          operation, rfl, hv⟩
      · refine iff_of_false (by simp) ?_
        rintro ⟨hacc, -⟩
        exact absurd (ha.symm.trans (hacc 0 (Nat.succ_pos i)).1) (by simp)
    · rw [hv, hsub]
      rcases i with _ | i
      · exact iff_of_true (Nat.succ_pos _) ⟨fun j hj => absurd hj (Nat.not_lt_zero j),
          operation, rfl, hv⟩
      · have hshift : (fun k => answers (index + 1 + k)) = fun k => answers (index + (k + 1)) :=
          funext fun k => by rw [Nat.add_assoc, Nat.add_comm 1 k]
        have hfirst : answers (index + 0) = .ok () ∧ operation.validate = .ok () := ⟨ha, hv⟩
        rw [forall_accepts_cons, and_iff_right hfirst, ← hshift]
        exact Nat.succ_lt_succ_iff.trans ih

variable (self : Ring)

/-- **A batch is handed over in the order its operations were added**, as far as it gets. -/
theorem positions_handedOverBatch :
    (self.handedOverBatch batch config answers).map Prod.fst =
      List.range (self.handedOverBatch batch config answers).length := by
  rw [handedOverBatch]
  split
  · rfl
  · rw [List.range_eq_range']
    exact positions_handedOver self 0 batch.operations

/-- An operation of a batch is handed over when the submission reaches it. -/
theorem lt_length_handedOverBatch :
    i < (self.handedOverBatch batch config answers).length ↔ Reaches answers batch config i := by
  rw [handedOverBatch, Reaches]
  rcases checkBatch batch config with e | ⟨⟨⟩⟩
  · simp
  · have hreach : i < (handedOver answers self 0 batch.operations).length ↔ _ :=
      lt_length_handedOver
    simpa using hreach

/-- **Both submissions put what the backend accepts of what is handed over behind what it
works on.** -/
theorem pending_submitBatch :
    (self.submitBatchStandaloneWithConfig batch config answers).2.backend.pending =
        self.backend.pending ++ acceptedOf answers (self.handedOverBatch batch config answers) ∧
      (self.submitBatchWithConfig batch config answers).2.backend.pending =
        self.backend.pending ++ acceptedOf answers (self.handedOverBatch batch config answers) := by
  have hstandalone : (self.submitBatchStandaloneWithConfig batch config answers).2.backend.pending =
      self.backend.pending ++
        acceptedOf answers (self.handedOverBatch batch config answers) := by
    rw [submitBatchStandaloneWithConfig, handedOverBatch]
    rcases checkBatch batch config with e | ⟨⟨⟩⟩
    · simp [acceptedOf]
    · have hall := pending_submitAll answers self 0 batch.operations
      simp only
      rcases hcall : submitAll answers self 0 batch.operations with ⟨_ | ids, ring⟩
      all_goals
        rw [hcall] at hall
        exact hall
  refine ⟨hstandalone, ?_⟩
  rw [submitBatchWithConfig_eq]
  exact hstandalone

/-- **A batch is submitted in a topological order exactly when the operations it gets as far as
handing over depend on operations added before them**: for both submissions, which hand
over the same operations in the same order. -/
theorem topological_submitBatch_iff (batch : Batch) (config : BatchConfig)
    (answers : ℕ → Except SaferRingError Unit) :
    ((self.submitBatchStandaloneWithConfig batch config answers).2.backend.pending =
        self.backend.pending ++ acceptedOf answers (self.handedOverBatch batch config answers) ∧
      (self.submitBatchWithConfig batch config answers).2.backend.pending =
        self.backend.pending ++
          acceptedOf answers (self.handedOverBatch batch config answers)) ∧
    (Topological (DependsOn batch.dependencies)
        ((self.handedOverBatch batch config answers).map Prod.fst) ↔
      ∀ i, Reaches answers batch config i → ∀ j, DependsOn batch.dependencies i j → j < i) := by
  refine ⟨self.pending_submitBatch, ?_⟩
  rw [positions_handedOverBatch, topological_range]
  exact forall_congr' fun i => imp_congr_left self.lt_length_handedOverBatch

end Ring

/-- A read of 8 bytes into a pinned buffer. -/
def readInto (addr : ℕ) : Operation Building := ⟨.pinned ⟨addr, 8⟩, .raw 3, 0, .read, ⟨⟩⟩

/-- Two reads, of which the first depends on the second. -/
def readAfterNext : Batch := ⟨[readInto 4096, readInto 8192], AList.insert 0 [1] ∅, 1024⟩

/-- **The dependency order is found, and the first read is submitted first.** -/
theorem not_topological_readAfterNext :
    Acyclic (DependsOn readAfterNext.dependencies) ∧
      BatchConfig.default.enforceDependencies = true ∧
      readAfterNext.dependencyOrder = .ok [1, 0] ∧
      (Ring.new.handedOverBatch readAfterNext .default fun _ => .ok ()).map Prod.fst = [0, 1] ∧
      ¬Topological (DependsOn readAfterNext.dependencies)
        ((Ring.new.handedOverBatch readAfterNext .default fun _ => .ok ()).map Prod.fst) := by
  have hdepends : ∀ i j, DependsOn readAfterNext.dependencies i j → i = 0 ∧ j = 1 := by
    intro i j hij
    rw [DependsOn, dependenciesOf, readAfterNext] at hij
    by_cases hi : i = 0
    · rw [hi, AList.lookup_insert] at hij
      exact ⟨hi, List.mem_singleton.mp hij⟩
    · rw [AList.lookup_insert_ne hi] at hij
      exact absurd hij (by simp)
  have horder : (Ring.new.handedOverBatch readAfterNext .default fun _ => .ok ()).map Prod.fst =
      [0, 1] := by
    decide
  refine ⟨fun n hn => ?_, rfl, by decide, horder, fun htop => ?_⟩
  -- a cycle would start and end at the first read, on which nothing depends
  · obtain ⟨m, hm, -⟩ := Relation.TransGen.head'_iff.mp hn
    obtain ⟨k, -, hk⟩ := Relation.TransGen.tail'_iff.mp hn
    exact absurd ((hdepends n m hm).1.symm.trans (hdepends k n hk).2) (by simp)
  · rw [horder] at htop
    have hbefore := htop [] 0 [1] rfl 1 (by decide)
    exact absurd hbefore (by simp)

end SaferRing
