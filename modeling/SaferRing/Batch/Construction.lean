import SaferRing.Batch.Cycles
import SaferRing.Library.Run

/-!
# Putting a batch together

A batch is put together call by call: operations are added, dependencies between them are, and
everything is cleared. A dependency is refused when one of its ends is not an operation of the
batch, and when it would close a cycle. So the dependencies of a batch make no cycle and lead
from its operations to its operations (`SaferRing.Batch.WellFormed`), whatever calls were made
and refused: `SaferRing.Batch.wellFormed_of_run`.
-/

namespace SaferRing

open Graph (Acyclic)

/-! ### The calls -/

namespace Batch

/-- An empty batch; the capacity is a hint to the allocator. -/
def withCapacity (_capacity : ℕ) : Batch := ⟨[], ∅, 1024⟩

variable (self : Batch)

/-- Add an operation with data of the user's, which is not kept. -/
def addOperationWithData (operation : Operation Building) (_userData : ℕ) :
    Except SaferRingError ℕ × Batch :=
  self.addOperation operation

/-- **Let an operation depend on another**, unless that would close a cycle. -/
def addDependency (dependent dependency : ℕ) : Except SaferRingError Unit × Batch :=
  if dependent ≥ self.operations.length then
    (.error (.ioNew .invalidInput
      s!"Dependent operation index {dependent} is out of bounds"), self)
  else if dependency ≥ self.operations.length then
    (.error (.ioNew .invalidInput
      s!"Dependency operation index {dependency} is out of bounds"), self)
  else if dependent = dependency then
    (.error (.ioNew .invalidInput "Operation cannot depend on itself"), self)
  else if DependencyValidator.wouldCreateCycle self.dependencies dependent dependency then
    (.error (.ioNew .invalidInput "Dependency would create a cycle"), self)
  else
    (.ok (), { self with
      dependencies := self.dependencies.insert dependent
        (dependenciesOf self.dependencies dependent ++ [dependency]) })

/-- Take out all operations and dependencies. -/
def clear : Batch := { self with operations := [], dependencies := ∅ }

/-- Whether there are circular dependencies, the operations that have any coming in the order
`order`. -/
def hasCircularDependencies (order : List ℕ) : Bool :=
  DependencyValidator.hasCircularDependencies self.dependencies order

end Batch

/-- The calls that put a batch together. -/
inductive BatchCall
  /-- `add_operation`. -/
  | addOperation (operation : Operation Building)
  /-- `add_operation_with_data`. -/
  | addOperationWithData (operation : Operation Building) (userData : ℕ)
  /-- `add_dependency`. -/
  | addDependency (dependent dependency : ℕ)
  /-- `clear`. -/
  | clear

/-- A call, and what it answered: the position of the operation it added, if it added one. -/
structure BatchEvent where
  /-- The call. -/
  call : BatchCall
  /-- What it answered. -/
  answer : Except SaferRingError (Option ℕ)

namespace Batch

/-- **What a call does to a batch**, and what it answers. -/
def call (self : Batch) : BatchCall → Except SaferRingError (Option ℕ) × Batch
  | .addOperation operation =>
    let (result, batch) := self.addOperation operation
    (result.map some, batch)
  | .addOperationWithData operation userData =>
    let (result, batch) := self.addOperationWithData operation userData
    (result.map some, batch)
  | .addDependency dependent dependency =>
    let (result, batch) := self.addDependency dependent dependency
    (result.map fun () => none, batch)
  | .clear => (.ok none, self.clear)

/-- The step relation. -/
def Step (s : Batch) (e : BatchEvent) (t : Batch) : Prop := s.call e.call = (e.answer, t)

/-- **A batch is well formed**: its dependencies make no cycle, and lead from its operations to
its operations. -/
structure WellFormed (batch : Batch) : Prop where
  acyclic : Acyclic (DependsOn batch.dependencies)
  dependent : ∀ i ∈ batch.dependencies, i < batch.len
  dependency : ∀ i j, DependsOn batch.dependencies i j → j < batch.len

variable {self s t : Batch} {dependent dependency : ℕ}

/-! ### What a call can do -/

/-- An operation is added, or refused. -/
theorem addOperation_cases (self : Batch) (operation : Operation Building) :
    (∃ e, self.addOperation operation = (.error e, self)) ∨
      self.addOperation operation =
        (.ok self.len, { self with operations := self.operations ++ [operation] }) := by
  unfold addOperation
  split
  · exact Or.inl ⟨_, rfl⟩
  · split
    · exact Or.inl ⟨_, rfl⟩
    · exact Or.inr rfl

/-- **A dependency is added between operations of the batch when there is no path back**, or
refused. -/
theorem addDependency_cases (self : Batch) (dependent dependency : ℕ) :
    (∃ e, self.addDependency dependent dependency = (.error e, self)) ∨
      dependent < self.len ∧ dependency < self.len ∧
        ¬Relation.ReflTransGen (DependsOn self.dependencies) dependency dependent ∧
        self.addDependency dependent dependency = (.ok (), { self with
          dependencies := self.dependencies.insert dependent
            (dependenciesOf self.dependencies dependent ++ [dependency]) }) := by
  unfold addDependency
  split
  · exact Or.inl ⟨_, rfl⟩
  rename_i hdependent
  split
  · exact Or.inl ⟨_, rfl⟩
  rename_i hdependency
  split
  · exact Or.inl ⟨_, rfl⟩
  split
  · exact Or.inl ⟨_, rfl⟩
  rename_i hcycle
  rw [DependencyValidator.wouldCreateCycle_iff] at hcycle
  exact Or.inr ⟨not_le.mp hdependent, not_le.mp hdependency, hcycle, rfl⟩

/-- **A call that is refused changes nothing.** -/
theorem eq_of_refused {c : BatchCall} {e : SaferRingError} (h : s.call c = (.error e, t)) :
    t = s := by
  have hadd : ∀ operation,
      ((s.addOperation operation).1.map some, (s.addOperation operation).2) =
        ((.error e, t) : Except SaferRingError (Option ℕ) × Batch) → t = s := by
    intro operation h
    rcases s.addOperation_cases operation with ⟨_, hcall⟩ | hcall
    · rw [hcall] at h
      exact (congrArg Prod.snd h).symm
    · rw [hcall] at h
      exact absurd (congrArg Prod.fst h) (by simp [Except.map])
  cases c with
  | addOperation operation => exact hadd operation h
  | addOperationWithData operation userData => exact hadd operation h
  | addDependency dependent dependency =>
    simp only [call] at h
    rcases s.addDependency_cases dependent dependency with ⟨_, hcall⟩ | ⟨-, -, -, hcall⟩
    · rw [hcall] at h
      exact (congrArg Prod.snd h).symm
    · rw [hcall] at h
      exact absurd (congrArg Prod.fst h) (by simp [Except.map])
  | clear => exact absurd (congrArg Prod.fst h) (by simp [call])

/-! ### Batches stay well formed -/

/-- What depends on what once a dependency was added. -/
theorem dependsOn_insert {dependencies : HashMap (List ℕ)} {i j : ℕ} :
    DependsOn (dependencies.insert dependent
        (dependenciesOf dependencies dependent ++ [dependency])) i j ↔
      DependsOn dependencies i j ∨ i = dependent ∧ j = dependency := by
  unfold DependsOn
  by_cases hi : i = dependent
  · subst hi
    rw [dependenciesOf, AList.lookup_insert, Option.getD_some, List.mem_append,
      List.mem_singleton, and_iff_right rfl]
  · rw [dependenciesOf, AList.lookup_insert_ne hi]
    exact (or_iff_left fun hc => hi hc.1).symm

namespace WellFormed

theorem of_empty (h : self.dependencies = ∅) : self.WellFormed := by
  have hnone : ∀ i j, ¬DependsOn self.dependencies i j := by
    intro i j hij
    rw [h] at hij
    exact absurd hij List.not_mem_nil
  refine ⟨fun i hi => ?_, fun i hi => ?_, fun i j hij => absurd hij (hnone i j)⟩
  · obtain ⟨j, -, hij⟩ := Relation.TransGen.tail'_iff.mp hi
    exact hnone j i hij
  · rw [h] at hi
    exact absurd hi (AList.notMem_empty i)

/-- Adding an operation. -/
theorem addOperation (h : self.WellFormed) (operation : Operation Building) :
    (self.addOperation operation).2.WellFormed := by
  rcases self.addOperation_cases operation with ⟨_, hcall⟩ | hcall
  · rw [hcall]
    exact h
  · rw [hcall]
    have hlen : self.len ≤ (self.operations ++ [operation]).length := by
      rw [List.length_append]
      exact Nat.le_add_right _ _
    exact ⟨h.acyclic, fun i hi => (h.dependent i hi).trans_le hlen,
      fun i j hij => (h.dependency i j hij).trans_le hlen⟩

/-- **Adding a dependency.** -/
theorem addDependency (h : self.WellFormed) (dependent dependency : ℕ) :
    (self.addDependency dependent dependency).2.WellFormed := by
  rcases self.addDependency_cases dependent dependency with
    ⟨_, hcall⟩ | ⟨hdependent, hdependency, hback, hcall⟩
  · rw [hcall]
    exact h
  · rw [hcall]
    refine ⟨?_, fun i hi => ?_, fun i j hij => ?_⟩
    · have hmore : DependsOn (self.dependencies.insert dependent
          (dependenciesOf self.dependencies dependent ++ [dependency])) =
          fun i j => DependsOn self.dependencies i j ∨ i = dependent ∧ j = dependency :=
        funext₂ fun i j => propext dependsOn_insert
      exact hmore ▸ h.acyclic.insert hback
    · rcases (AList.mem_insert _).mp hi with rfl | hi
      · exact hdependent
      · exact h.dependent i hi
    · rcases dependsOn_insert.mp hij with hij | ⟨-, rfl⟩
      · exact h.dependency i j hij
      · exact hdependency

/-- **A call keeps a batch well formed.** -/
theorem call (h : self.WellFormed) (c : BatchCall) : (self.call c).2.WellFormed := by
  cases c with
  | addOperation operation => exact h.addOperation operation
  | addOperationWithData operation userData => exact h.addOperation operation
  | addDependency dependent dependency => exact h.addDependency dependent dependency
  | clear => exact of_empty rfl

end WellFormed

/-- **A batch that is put together is well formed**, after every call of whatever calls there are:
it has a dependency order and no circular dependencies. What a call that is refused leaves is
what was there before. -/
theorem wellFormed_of_run {capacity : ℕ} {ms : List (Transition.Move Batch BatchEvent)}
    {batch : Batch} (hrun : Transition.Run Step (withCapacity capacity) ms batch) :
    Transition.Always (fun b => b.WellFormed ∧ (∃ order, b.dependencyOrder = .ok order) ∧
        ∀ order, b.hasCircularDependencies order = false) (withCapacity capacity) ms ∧
      ∀ m ∈ ms, ∀ e, m.label.answer = .error e → m.after = m.before := by
  have hkeep : ∀ s e t, Step s e t → True → s.WellFormed → t.WellFormed := by
    intro s e t hstep _ h
    have hcall := h.call e.call
    rwa [show s.call e.call = (e.answer, t) from hstep] at hcall
  have hnew : (withCapacity capacity).WellFormed := .of_empty rfl
  have hall : Transition.Always WellFormed (withCapacity capacity) ms :=
    hrun.always hkeep (fun _ _ => trivial) hnew
  have hfind : ∀ b : Batch, b.WellFormed → b.WellFormed ∧
      (∃ order, b.dependencyOrder = .ok order) ∧
      ∀ order, b.hasCircularDependencies order = false := fun b hb =>
    ⟨hb, DependencyValidator.dependencyOrder_ok hb.acyclic b.operations.length,
      DependencyValidator.hasCircularDependencies_eq_false hb.acyclic⟩
  refine ⟨⟨hfind _ hall.1, fun m hm => hfind _ (hall.2 m hm)⟩, fun m hm e he => ?_⟩
  have hstep : m.before.call m.label.call = (m.label.answer, m.after) := hrun.step_of_mem hm
  exact eq_of_refused (he ▸ hstep)

/-- The moves calls make, one after the other. -/
def moves : Batch → List BatchCall → List (Transition.Move Batch BatchEvent)
  | _, [] => []
  | s, c :: rest => ⟨s, ⟨c, (s.call c).1⟩, (s.call c).2⟩ :: moves (s.call c).2 rest

/-- **Whatever calls there are, they are a run.** -/
theorem run_moves (s : Batch) (calls : List BatchCall) :
    ∃ t, Transition.Run Step s (moves s calls) t := by
  induction calls generalizing s with
  | nil => exact ⟨s, .nil s⟩
  | cons c rest ih =>
    obtain ⟨t, hrest⟩ := ih (s.call c).2
    have hstep : Step s ⟨c, (s.call c).1⟩ (s.call c).2 := rfl
    exact ⟨t, (Transition.Run.single hstep).append hrest⟩

/-- Two reads are added, and dependencies between them both ways. -/
def bothWays : List BatchCall :=
  [.addOperation (readInto 4096), .addOperation (readInto 8192), .addDependency 0 1,
    .addDependency 1 0]

/-- **The second dependency is refused**, and the batch stays well formed. -/
theorem wellFormed_bothWays : ∃ batch, Transition.Run Step (withCapacity 16)
      (moves (withCapacity 16) bothWays) batch ∧
    (moves (withCapacity 16) bothWays).map (fun m => m.label.answer) =
      [.ok (some 0), .ok (some 1), .ok none,
        .error (.ioNew .invalidInput "Dependency would create a cycle")] ∧
    Transition.Always (fun b => b.WellFormed ∧ (∃ order, b.dependencyOrder = .ok order) ∧
      ∀ order, b.hasCircularDependencies order = false) (withCapacity 16)
      (moves (withCapacity 16) bothWays) := by
  obtain ⟨batch, hrun⟩ := run_moves (withCapacity 16) bothWays
  exact ⟨batch, hrun, by decide, (wellFormed_of_run hrun).1⟩

end Batch

end SaferRing
