import LightFlow.Task.BuildingSteps

/-!
# Building without memory

The building operations do not look at what the arena returns.  A run of them leaves the graph
intact exactly when all the memory that it asks for is granted: the first allocation that is denied
is used, or, for the callable that the chunks of a loop share, the loop is built without it.
-/

namespace LightFlow

namespace Construction

/-- A call of a building operation. -/
inductive BuildCall where
  | emplace (type : TaskType) (domain : TaskDomain) (closure : ClosureType)
  | parallelFor (count batchSize : Nat) (kind : LoopKind) (single : ClosureType)
      (domain : TaskDomain)
  | parallelForByChunk (count batchSize : Nat) (single : ClosureType) (domain : TaskDomain)
  | addEdge (source target : NodeId) (branch : Int)
  | addWaitPoint (node : NodeId) (syncPoint : Nat)
  deriving DecidableEq, Repr

/-- The call is made.  There is no result where a null result of the arena was used. -/
def perform (granted : Nat → Bool) (building : Construction) : BuildCall → Option Construction
  | .emplace type domain closure => (building.emplace granted type domain closure).map (·.1)
  | .parallelFor count batchSize kind single domain =>
      (building.parallelFor granted count batchSize kind single domain).map (·.1)
  | .parallelForByChunk count batchSize single domain =>
      (building.parallelForByChunk granted count batchSize single domain).map (·.1)
  | .addEdge source target branch => building.addEdge granted source target branch
  | .addWaitPoint node syncPoint => building.addWaitPoint granted node syncPoint

/-- Number of allocations that a loop asks for. -/
def loopNeeds (count batchSize : Nat) (single : ClosureType) : Nat :=
  let numChunks := TaskGraph.parallelForChunkCount count batchSize
  if count = 0 then 1
  else if numChunks = 1 then 1 + single.spilled + 1
  else 1 + (2 + if numChunks = 0 then 0 else 1 + 3 * numChunks)

/-- Number of allocations that a call asks for. -/
def BuildCall.needs : BuildCall → Nat
  | .emplace _ _ closure => 1 + closure.spilled
  | .parallelFor count batchSize _ single _ => loopNeeds count batchSize single
  | .parallelForByChunk count batchSize single _ => loopNeeds count batchSize single
  | .addEdge _ _ _ => 1
  | .addWaitPoint _ _ => 1

/-- The node list, the node count, the successor lists and the in-degrees are as they were. -/
structure Untouched (before after : Construction) : Prop where
  order : after.graph.order = before.graph.order
  m_nodeCount : after.graph.m_nodeCount = before.graph.m_nodeCount
  successors : ∀ node,
    (after.graph.node node).successors = (before.graph.node node).successors
  initialInDegree : ∀ node,
    (after.graph.node node).initialInDegree = (before.graph.node node).initialInDegree
  inDegree : ∀ node, (after.graph.node node).inDegree = (before.graph.node node).inDegree

/-- No null result is used in the calls, and a call that is denied some memory leaves the graph
untouched. -/
def StaysIntact (granted : Nat → Bool) : Construction → List BuildCall → Prop
  | _, [] => True
  | building, call :: calls =>
      ∃ built, building.perform granted call = some built ∧
        ((∃ allocation, building.allocations ≤ allocation ∧ allocation < built.allocations ∧
            granted allocation = false) → Untouched building built) ∧
        StaysIntact granted built calls

/-! ## What a call does without memory -/

variable {granted : Nat → Bool} {building : Construction}

/-- With the memory that it needs, a call does `built`; without, it uses a null result or does
`built` all the same, which adds nodes. -/
def Depends (granted : Nat → Bool) (building : Construction) (needs : Nat)
    (result : Option Construction) : Prop :=
  ∃ built, built.allocations = building.allocations + needs ∧
    (Granted granted building.allocations needs → result = some built) ∧
    (¬ Granted granted building.allocations needs →
      result = none ∨ result = some built ∧ built.graph.order ≠ building.graph.order)

/-- A call that uses all its memory at once. -/
theorem depends_of_eq {needs : Nat} (built : Construction) {result : Option Construction}
    (allocations : built.allocations = building.allocations + needs)
    (equal : result = if Granted granted building.allocations needs then some built else none) :
    Depends granted building needs result :=
  ⟨built, allocations, fun all => by rw [equal, if_pos all],
    fun denied => .inl (by rw [equal, if_neg denied])⟩

/-- The chunk loop appends the chunks to the node list. -/
theorem withChunks_order (make : Nat → NodeCallable) (domain : TaskDomain) (entry join : NodeId)
    (turns : Nat) : (building.withChunks make domain entry join turns).graph.order =
      building.graph.order ++ building.chunksFrom turns := by
  induction turns with
  | zero => simp [withChunks, chunksFrom]
  | succ turns ih =>
      change (building.withChunks make domain entry join turns).graph.order ++
        [.node (building.withChunks make domain entry join turns).created] = _
      rw [ih, withChunks_created, List.append_assoc]
      simp [chunksFrom, List.range_succ]

/-- A loop of several chunks adds nodes. -/
theorem withLoop_order (make : Nat → NodeCallable) (domain : TaskDomain) (numChunks : Nat) :
    (building.withLoop make domain numChunks).graph.order ≠ building.graph.order := by
  intro equal
  have appended : (building.withLoop make domain numChunks).graph.order =
      building.graph.order ++ [.node building.created] ++
        (building.withFrame numChunks domain).chunksFrom numChunks ++
          [.node (building.created + 1)] :=
    congrArg (· ++ _) (withChunks_order _ _ _ _ numChunks)
  have lengths := congrArg List.length (appended.symm.trans equal)
  simp at lengths

theorem withLoop_allocations (make : Nat → NodeCallable) (domain : TaskDomain)
    (numChunks : Nat) : (building.withLoop make domain numChunks).allocations =
      building.allocations + (1 + (2 + if numChunks = 0 then 0 else 1 + 3 * numChunks)) := by
  have frame : (building.withFrame numChunks domain).allocations =
      building.allocations + 3 + if numChunks = 0 then 0 else 1 := rfl
  change ((building.withFrame numChunks domain).withChunks make domain _ _ numChunks).allocations =
    _
  rw [withChunks_allocations, frame]
  split <;> omega

/-- A loop needs its memory. -/
theorem parallelForWith_depends (count batchSize : Nat) (make : ChunkRange → NodeCallable)
    (single : ClosureType) (domain : TaskDomain) :
    Depends granted building (loopNeeds count batchSize single)
      ((building.parallelForWith granted count batchSize make single domain).map (·.1)) := by
  rcases eq_or_ne count 0 with rfl | positive
  · refine depends_of_eq ((building.withEmpty .parallelForChunk domain).appendNode
      (.node building.created)) rfl ?_
    rw [parallelForWith_zero]
    exact apply_ite (Option.map Prod.fst) _ _ _
  · simp only [loopNeeds, if_neg positive]
    by_cases one : TaskGraph.parallelForChunkCount count batchSize = 1
    · rw [if_pos one]
      refine depends_of_eq ((building.withTask .parallelForChunk domain single
        (make ⟨0, count, 0, 1⟩)).skip 1) (by simp only [← Nat.add_assoc]; rfl) ?_
      rw [parallelForWith_one positive one]
      exact apply_ite (Option.map Prod.fst) _ _ _
    · rw [if_neg one]
      let numChunks := TaskGraph.parallelForChunkCount count batchSize
      let size := if batchSize = 0 then 1 else batchSize
      refine ⟨building.withLoop (fun c => make (chunkRange count size numChunks c)) domain
        numChunks, withLoop_allocations _ domain _, fun all => ?_, fun denied => ?_⟩
      · rw [parallelForWith_many positive one, if_pos ((Granted.add_iff _).mp all).2]
        rfl
      · rw [parallelForWith_many positive one]
        -- The callable that the chunks share may be the only thing that has no memory.
        by_cases others : Granted granted (building.allocations + 1)
            (2 + if TaskGraph.parallelForChunkCount count batchSize = 0 then 0
              else 1 + 3 * TaskGraph.parallelForChunkCount count batchSize)
        · rw [if_pos others]
          exact .inr ⟨rfl, withLoop_order _ _ _⟩
        · rw [if_neg others]
          exact .inl rfl

/-- Each call needs its memory. -/
theorem perform_depends (granted : Nat → Bool) (building : Construction) (call : BuildCall) :
    Depends granted building call.needs (building.perform granted call) := by
  cases call with
  | emplace type domain closure =>
      refine depends_of_eq (building.withTask type domain closure (.user closure))
        (Nat.add_assoc _ 1 _) ?_
      rw [perform, emplace_eq]
      exact apply_ite (Option.map Prod.fst) _ _ _
  | parallelFor count batchSize kind single domain =>
      exact parallelForWith_depends count batchSize _ single domain
  | parallelForByChunk count batchSize single domain =>
      exact parallelForWith_depends count batchSize _ single domain
  | addEdge source target branch =>
      exact depends_of_eq _ rfl (addEdge_eq source target branch)
  | addWaitPoint node syncPoint =>
      refine depends_of_eq (building.withWaitPoint node syncPoint) ?_
        (addWaitPoint_eq node syncPoint)
      simp only [withWaitPoint]
      split <;> rfl

/-! ## Runs of calls -/

/-- A run of building operations stays intact exactly when all the allocations that it asks for are
granted. -/
theorem staysIntact_iff (granted : Nat → Bool) (building : Construction)
    (calls : List BuildCall) :
    StaysIntact granted building calls ↔
      ∀ k < (calls.map BuildCall.needs).sum, granted (building.allocations + k) = true := by
  change _ ↔ Granted granted building.allocations (calls.map BuildCall.needs).sum
  induction calls generalizing building with
  | nil => simp [StaysIntact]
  | cons call calls ih =>
      obtain ⟨built, allocations, supplied, denied⟩ := perform_depends granted building call
      rw [List.map_cons, List.sum_cons, Granted.add_iff, ← allocations, ← ih built]
      constructor
      · rintro ⟨other, result, untouched, onward⟩
        by_cases all : Granted granted building.allocations call.needs
        · obtain rfl := Option.some.inj ((supplied all).symm.trans result)
          exact ⟨all, onward⟩
        · obtain missing | ⟨same, different⟩ := denied all
          · cases missing.symm.trans result
          · obtain rfl := Option.some.inj (same.symm.trans result)
            simp only [Granted, not_forall, Bool.not_eq_true] at all
            obtain ⟨k, few, refused⟩ := all
            refine absurd (untouched ⟨building.allocations + k, ?_, ?_, refused⟩).order different
            · omega
            · omega
      · rintro ⟨all, onward⟩
        refine ⟨built, supplied all, ?_, onward⟩
        rintro ⟨allocation, after, before, refused⟩
        have given := all (allocation - building.allocations) (by omega)
        rw [Nat.add_sub_of_le after, refused] at given
        cases given

/-- In an exhausted pool, already the first `emplace` writes through a null pointer. -/
theorem emplace_uses_null :
    ¬ ∀ (granted : Nat → Bool) (building : Construction) (calls : List BuildCall),
      StaysIntact granted building calls := by
  intro all
  obtain ⟨built, result, -, -⟩ := all (fun _ => false) {} [.emplace .static .worker ⟨0, 16, 8⟩]
  cases result

end Construction

end LightFlow
