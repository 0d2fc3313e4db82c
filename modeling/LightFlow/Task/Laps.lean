import LightFlow.Task.Rearm

/-!
# Steps of runs with loops

Whatever a call does next keeps the account, as long as the loop-back edges it takes are
allowed ones, and the counters that a skipped condition decrements are at rest.
-/

namespace LightFlow

/-- The counter cannot be decided by another decrement: nothing is left of its lower half,
or it was decremented beyond. -/
def AtRest (node : TaskNode) : Prop :=
  node.inDegree % 2 ^ 16 = 0 ∨
    node.initialInDegree < node.inDegree % 2 ^ 16 ∧ node.inDegree % 2 ^ 16 ≠ 1

instance (node : TaskNode) : Decidable (AtRest node) :=
  inferInstanceAs (Decidable (_ ∨ _))

/-- The frame takes only `allowed` loop-back edges, and skips only along those whose targets
are at rest. -/
def Frame.Guarded (allowed : NodeId → NodeId → Prop) (shared : Shared) : Frame → Prop
  | .completing node => ∀ target ∈ loopBack (shared.node node), allowed node target
  | .cascading _ (edge :: _) => edge.isLoopBack = true → AtRest (shared.node edge.target)
  | _ => True

instance (allowed : NodeId → NodeId → Prop) [DecidableRel allowed] (shared : Shared) :
    (frame : Frame) → Decidable (frame.Guarded allowed shared)
  | .completing _ => inferInstanceAs (Decidable (∀ _ ∈ _, _))
  | .cascading _ (_ :: _) => inferInstanceAs (Decidable (_ → _))
  | .cascading _ [] | .calling _ | .executing _ | .dispatching _ _ | .joining _
  | .unblocking _ _ _ _ | .handingOver _ _ _ _ _ | .finishing _ | .skipping _ | .skipped _
  | .scheduling _ | .resetting _ _ _ _ | .resettingState _ _ _ _ _ | .rescheduling _ _ =>
      inferInstanceAs (Decidable True)

theorem Frame.Guarded.mono {strong weak : NodeId → NodeId → Prop}
    (weaker : ∀ source target, strong source target → weak source target) {shared : Shared}
    {frame : Frame} (guarded : frame.Guarded strong shared) : frame.Guarded weak shared := by
  cases frame with
  | completing node => exact fun target loops => weaker node target (guarded target loops)
  | cascading node todo => cases todo <;> exact guarded
  | _ => exact guarded

variable {graph : TaskGraph} {callables : Callables} {tally : Tally} {shared : Shared}
  {ready : Multiset NodeId} {frame : Frame} {rest : Multiset Frame} {effect : Effect}

/-- A straight step changes counters of its next targets only, and starts no loop. -/
theorem Frame.fire_straight (allowed : NodeId → NodeId → Prop) {inlineFree : Bool}
    (straight : frame.Straight callables shared)
    (walks : frame.Walks graph)
    (fired : frame.fire callables inlineFree shared = some effect) :
    (∀ node, (effect.shared.node node).inDegree = (shared.node node).inDegree ∨
        0 < TaskGraph.forwardInto node frame.todo) ∧
      ∀ after ∈ effect.frames, ∀ store, after.Rearms graph allowed store := by
  -- A decrement changes the counter of its target.
  have decremented {edge : SuccessorEdge} (todo : List SuccessorEdge) (inDegree : Nat)
      (forward : edge.isLoopBack = false) (node : NodeId) :
      ((shared.setInDegree edge.target inDegree).node node).inDegree =
          (shared.node node).inDegree ∨ 0 < TaskGraph.forwardInto node (edge :: todo) := by
    by_cases same : edge.target = node
    · exact .inr (by simp [same, forward])
    · exact .inl (by simp [Shared.setInDegree_node, Ne.symm same])
  cases frame with
  | executing node =>
      cases fired
      simp [Shared.setState_node, Frame.Rearms]
  | calling node =>
      obtain ⟨frames, -, -, nodes⟩ := executeFn_of_callsNoSplice straight
      have called : effect = { shared := (executeFn callables shared node).1
                               frames := (executeFn callables shared node).2 } := by
        cases fired
        rfl
      subst called
      refine ⟨fun query => .inl ?_, by simp [frames, Frame.Rearms]⟩
      obtain ⟨userData, result, -⟩ := nodes query
      simp only [result]
  | dispatching node roots => exact absurd walks id
  | joining node => exact absurd walks id
  | completing node =>
      cases fired
      rw [unblockSuccessors_of_not_loopsBack straight]
      simp [Shared.setState_node, Frame.Rearms]
  | unblocking node branch todo unblockedCount =>
      cases todo with
      | nil =>
          cases fired
          refine ⟨fun query => .inl ?_, by simp [Frame.Rearms]⟩
          dsimp only
          split <;> rfl
      | cons edge todo =>
          simp only [Frame.fire] at fired
          split at fired
          next taken =>
            cases fired
            have forward : edge.isLoopBack = false := by
              by_contra isLoop
              simp [(walks edge (List.mem_cons_self ..)).2 (by simpa using isLoop)] at taken
            refine ⟨decremented todo _ forward, ?_⟩
            simp only [unblockActive]
            split <;> simp [Frame.Rearms]
          next =>
            split at fired
            next => cases fired; simp [Frame.Rearms]
            next forward =>
              cases fired
              refine ⟨decremented todo _ (by simpa using forward), ?_⟩
              simp only [unblockSkipped]
              split <;> simp [Frame.Rearms]
  | handingOver node branch succ todo unblockedCount =>
      cases fired
      simp only [handOver]
      split
      · simp [Frame.Rearms]
      · split <;> [split; skip] <;> simp [Frame.Rearms]
  | finishing node => cases fired; simp
  | skipping node =>
      cases fired
      simp [Shared.setState_node, Frame.Rearms]
  | skipped node =>
      cases fired
      refine ⟨fun _ => .inl rfl, ?_⟩
      cases successors : (shared.node node).successors <;> simp [cascade, Frame.Rearms]
  | cascading node todo =>
      cases todo with
      | nil => exact absurd rfl walks.1
      | cons edge todo =>
          cases fired
          refine ⟨decremented todo _ straight, ?_⟩
          simp only [unblockSkipped]
          split <;> cases todo <;> simp [cascade, Frame.Rearms]
  | scheduling node => cases fired; simp
  | resetting node target todo cycleCount => exact absurd straight id
  | resettingState node target curr todo cycleCount => exact absurd straight id
  | rescheduling node target => exact absurd straight id

/-- Nodes whose counters the frame changes although they do not wait. -/
def Frame.Touches : Frame → NodeId → Prop
  | .cascading _ (edge :: _), node => edge.isLoopBack = true ∧ edge.target = node
  | .resetting _ target (curr :: _) _, node => curr = node ∧ node ≠ target
  | _, _ => False

/-- What a step that rearms nothing does to the tally, apart from needs and gains. -/
structure Tally.Keeps (frame : Frame) (tally next : Tally) : Prop where
  rounds : next.rounds = tally.rounds
  dropped : next.dropped = tally.dropped
  extra : next.extra = tally.extra
  bonus : next.bonus = tally.bonus
  kept : ∀ node, tally.kept node → next.kept node ∨ frame.Touches node
  closed : ∀ node, tally.closed node ≤ next.closed node
  skipped : ∀ node, frame = .skipped node → next.closed node = 1

theorem Tally.Keeps.refl (other : ∀ node, frame ≠ .skipped node) : tally.Keeps frame tally :=
  ⟨rfl, rfl, rfl, rfl, fun _ => .inl, fun _ => le_rfl,
    fun node isSkipped => absurd isSkipped (other node)⟩

/-- What a guarded step does to the tally. -/
inductive Tally.Lap (graph : TaskGraph) (allowed : NodeId → NodeId → Prop) (tally : Tally) :
    Frame → Tally → Prop where
  | follows {frame : Frame} {next : Tally} : tally.Keeps frame next →
      (∀ source target cycleCount, frame ≠ .resetting source target [] cycleCount) →
      Tally.Lap graph allowed tally frame next
  | rearms {source target : NodeId} {body : List NodeId} {cycleCount : Nat} :
      allowed source target → (∀ node, node ∈ body ↔ graph.Body source target node) →
      Tally.Lap graph allowed tally (.resetting source target [] cycleCount)
        (tally.rearm graph target body)

/-- The frame is about to take a loop-back edge. -/
def Frame.Jumps (store : NodeStore) : Frame → Prop
  | .completing node => loopBack (store node) ≠ none
  | _ => False

namespace Account

variable {allowed : NodeId → NodeId → Prop}

/-- The counters of a loop that is being reset are left alone by other calls. -/
theorem rearms_rest (account : Account graph tally ⟨shared, ready, frame ::ₘ rest⟩)
    (looped : graph.Looped) (own : tally.Own) {other : Frame} (member : other ∈ rest)
    {store : NodeStore}
    (changes : ∀ node, (store node).inDegree = (shared.node node).inDegree ∨
      (store node).inDegree = (graph.node node).initialInDegree ∨ 0 < tally.need node ∨
        AtRest (shared.node node))
    (rearms : other.Rearms graph allowed shared.node) : other.Rearms graph allowed store := by
  have keeps {source target : NodeId} {done todo : List NodeId} {cycleCount : Nat}
      (carries : other.carries = [source])
      (rearming : Rearming graph shared.node source target done todo cycleCount) :
      Rearming graph store source target done todo cycleCount := by
    refine { rearming with reset := fun node isDone inside => ?_ }
    have reset := rearming.reset node isDone inside
    have inBody := (rearming.body node).mp (List.mem_append_left _ isDone)
    have free : tally.need source = 0 := by
      refine (account.need_eq_zero ?_ looped.distinct).2.2.2
      obtain ⟨others, rfl⟩ := Multiset.exists_cons_of_mem member
      simp only [Workload.amount, Multiset.map_cons, Multiset.sum_cons, Quantity.ofFrame, carries,
        List.count_singleton_self]
      omega
    rcases changes node with same | initial | waits | atRest
    · rw [same, reset]
    · exact initial
    · have none : tally.need node = 0 := by
        obtain same | path := Relation.reflTransGen_iff_eq_or_transGen.mp inBody.2
        · exact same ▸ free
        · exact (account.closed_before looped own free path).2
      omega
    · have positive := looped.degree_pos inBody inside
      have narrow := looped.narrow node
      rw [AtRest, reset, (account.shape node).2.1] at atRest
      omega
  cases other with
  | resetting => exact rearms.imp_right (Exists.imp fun _ => keeps rfl)
  | resettingState => exact rearms.imp_right (Exists.imp fun _ => keeps rfl)
  | _ => trivial

/-- A counter may be given up. -/
theorem forget {load : Workload} (account : Account graph tally load) (node : NodeId) :
    Account graph { tally with kept := fun other => tally.kept other ∧ other ≠ node } load :=
  { account with packed := fun other counts => account.packed other (counts.imp_right And.left) }

/-- A node at rest does not wait, and another decrement does not decide it. -/
theorem idle_of_atRest {load : Workload} (account : Account graph tally load)
    (looped : graph.Looped) {node : NodeId} (atRest : AtRest (load.shared.node node)) :
    tally.need node = 0 ∧ (decrementSkipped (load.shared.node node).inDegree).2 = .pending := by
  have narrow := looped.narrow node
  have bounded := account.bounded node
  rw [AtRest, (account.shape node).2.1] at atRest
  refine ⟨?_, ?_⟩
  · by_contra waits
    have packed := account.packed node (.inl (Nat.pos_of_ne_zero waits))
    simp only [Packed, u32] at packed
    omega
  · have notLast : (load.shared.node node).inDegree % 2 ^ 16 ≠ 1 := by omega
    rw [decrementSkipped, lower_eq_mod]
    exact congrArg Prod.snd (if_neg notLast)

theorem work_rearm (graph : TaskGraph) (tally : Tally) (target : NodeId) (body : List NodeId) :
    (tally.rearm graph target body).work graph ≤
      tally.work graph + (graph.order.map graph.cost).sum := by
  rw [Tally.work, Tally.work, ← List.sum_map_add]
  refine List.sum_le_sum fun node _ => ?_
  have single : waiting ((tally.rearm graph target body).need node) ≤ 1 := by
    rw [waiting]
    split <;> simp
  exact (Nat.mul_le_mul_right _ single).trans (by omega)

/-- A step that takes no loop-back edge and skips along none is a lap. -/
theorem lap_of_straight {inlineFree : Bool}
    (account : Account graph tally ⟨shared, ready, frame ::ₘ rest⟩) (looped : graph.Looped)
    (own : tally.Own) (rearms : ∀ other ∈ rest, other.Rearms graph allowed shared.node)
    (straight : frame.Straight callables shared)
    (fired : frame.fire callables inlineFree shared = some effect) :
    ∃ next, tally.Lap graph allowed frame next ∧ Account graph next (effect.load ready rest) ∧
      (∀ after ∈ (effect.load ready rest).frames, after.Rearms graph allowed effect.shared.node) ∧
      (effect.load ready rest).work graph next <
        Workload.work graph tally ⟨shared, ready, frame ::ₘ rest⟩ := by
  obtain ⟨next, follows, kept, less⟩ := account.fire straight
    (fun node => (looped.narrow node).trans (by decide)) looped.distinct fired
  obtain ⟨changes, starts⟩ :=
    frame.fire_straight allowed straight (account.walks _ (Multiset.mem_cons_self _ _)) fired
  refine ⟨next,
    .follows { follows with kept := fun node isKept => .inl (follows.kept ▸ isKept) } ?_,
    kept, fun after member => ?_, less⟩
  · rintro source target cycleCount rfl
    exact straight
  · rcases Multiset.mem_add.mp member with isNew | isOld
    · exact starts after isNew _
    · exact account.rearms_rest looped own isOld (fun node => (changes node).imp_right
        fun next => .inr (.inl (account.target_waits next))) (rearms after isOld)

/-- Nodes of a loop that is being reset do not wait. -/
theorem free_of_rearms (account : Account graph tally ⟨shared, ready, frame ::ₘ rest⟩)
    (looped : graph.Looped) (own : tally.Own) {source target node : NodeId}
    (carries : frame.carries = [source]) (inBody : graph.Body source target node) :
    tally.need node = 0 := by
  have free : tally.need source = 0 :=
    (account.of_carried (by rw [carries, List.count_singleton_self]; exact Nat.one_pos)
      looped.distinct).2.2.2
  obtain same | path := Relation.reflTransGen_iff_eq_or_transGen.mp inBody.2
  · exact same ▸ free
  · exact (account.closed_before looped own free path).2

/-- Every guarded step keeps the account, and uses up work unless it takes a loop-back
edge. -/
theorem lap {inlineFree : Bool}
    (account : Account graph tally ⟨shared, ready, frame ::ₘ rest⟩) (looped : graph.Looped)
    (sound : ∀ source target, allowed source target →
      graph.Collects source target ∧ graph.LeftAtSource source target)
    (own : tally.Own) (rearms : ∀ other ∈ frame ::ₘ rest, other.Rearms graph allowed shared.node)
    (guarded : frame.Guarded allowed shared)
    (fired : frame.fire callables inlineFree shared = some effect) :
    ∃ next, tally.Lap graph allowed frame next ∧ Account graph next (effect.load ready rest) ∧
      (∀ after ∈ (effect.load ready rest).frames, after.Rearms graph allowed effect.shared.node) ∧
      (¬ frame.Jumps shared.node → (effect.load ready rest).work graph next <
        Workload.work graph tally ⟨shared, ready, frame ::ₘ rest⟩) := by
  have here := rearms frame (Multiset.mem_cons_self _ _)
  have others : ∀ other ∈ rest, other.Rearms graph allowed shared.node :=
    fun other member => rearms other (Multiset.mem_cons_of_mem member)
  have straightLap (straight : frame.Straight callables shared) :
      ∃ next, tally.Lap graph allowed frame next ∧ Account graph next (effect.load ready rest) ∧
        (∀ after ∈ (effect.load ready rest).frames, after.Rearms graph allowed effect.shared.node) ∧
        (¬ frame.Jumps shared.node → (effect.load ready rest).work graph next <
          Workload.work graph tally ⟨shared, ready, frame ::ₘ rest⟩) := by
    obtain ⟨next, laps, kept, started, less⟩ :=
      account.lap_of_straight looped own others straight fired
    exact ⟨next, laps, kept, started, fun _ => less⟩
  -- What is left of the loops when the frame becomes `after`.
  have started {after : Frame} {store : NodeStore} (isNew : after.Rearms graph allowed store)
      (changes : ∀ node, (store node).inDegree = (shared.node node).inDegree ∨
        (store node).inDegree = (graph.node node).initialInDegree ∨ 0 < tally.need node ∨
          AtRest (shared.node node)) :
      ∀ other ∈ (↑[after] + rest : Multiset Frame), other.Rearms graph allowed store := by
    intro other member
    rcases Multiset.mem_add.mp member with isAfter | isOld
    · exact List.mem_singleton.mp (Multiset.mem_coe.mp isAfter) ▸ isNew
    · exact account.rearms_rest looped own isOld changes (others other isOld)
  cases frame with
  | calling node =>
      exact straightLap fun isSubflow =>
        absurd ((account.shape node).1 ▸ isSubflow) (looped.plain node)
  | completing node =>
      cases loops : loopBack (shared.node node) with
      | none =>
          refine straightLap (not_loopsBack ?_ loops)
          intro edge member isLoop
          rw [(account.shape node).2.2] at member
          rw [(account.shape node).1]
          exact looped.conditions node edge member isLoop
      | some target =>
          cases fired
          obtain ⟨collects, leaves⟩ := sound node target (guarded target loops)
          have kept := account.looping loops looped.distinct
          rw [unblockSuccessors_of_loopBack loops,
            cycleNodes_congr fun other => (account.shape other).2.2] at kept ⊢
          refine ⟨tally, .follows (.refl (by simp)) (by simp), kept, started ?_ ?_,
            fun straight => absurd (show loopBack (shared.node node) ≠ none by simp [loops])
              straight⟩
          · exact
              ⟨guarded target loops, [],
                { leaves
                  path := ((collects target).mp (mem_cycleNodes _ _ _)).2
                  distinct := cycleNodes_nodup _ _ _
                  body := collects
                  count := rfl
                  reset := by simp }⟩
          · exact fun query => .inl (by simp [Shared.setState_node])
  | cascading node todo =>
      cases todo with
      | nil => exact absurd rfl (account.walks _ (Multiset.mem_cons_self _ _)).1
      | cons edge todo =>
          by_cases isLoop : edge.isLoopBack = true
          · cases fired
            have atRest := guarded isLoop
            obtain ⟨idle, pending⟩ := account.idle_of_atRest looped atRest
            have frames : (unblockSkipped shared node edge.target (cascade node todo)).frames =
                cascade node todo := by
              simp [unblockSkipped, pending]
            let next := { tally with kept := fun other => tally.kept other ∧ other ≠ edge.target }
            have same : tally.Keeps (.cascading node (edge :: todo)) tally := .refl (by simp)
            have keeps : tally.Keeps (.cascading node (edge :: todo)) next :=
              { same with
                kept := fun other isKept => by
                  by_cases same : edge.target = other
                  · exact .inr ⟨isLoop, same⟩
                  · exact .inl ⟨isKept, Ne.symm same⟩ }
            refine ⟨next, .follows keeps (by simp),
              (account.forget edge.target).stray isLoop ⟨idle, by simp⟩ pending looped.distinct,
              ?_, fun _ => work_lt ?_⟩
            · intro other member
              rw [Effect.load, frames] at member
              rcases Multiset.mem_add.mp member with isNew | isOld
              · cases todo <;> simp [cascade] at isNew
                exact isNew ▸ trivial
              · refine account.rearms_rest looped own isOld (fun query => ?_) (others other isOld)
                by_cases same : query = edge.target
                · exact .inr (.inr (.inr (same ▸ atRest)))
                · exact .inl (by simp [unblockSkipped, Shared.setInDegree_node, same])
            · have left := work_cascade graph node todo
              have spent : Effect.work graph
                  (unblockSkipped shared node edge.target (cascade node todo)) ≤
                    todo.length + 1 := by
                rw [Effect.work, frames]
                simpa [unblockSkipped] using left
              have same : next.work graph = tally.work graph := rfl
              rw [Frame.work, List.length_cons]
              omega
          · exact straightLap (show edge.isLoopBack = false by simpa using isLoop)
  | resetting source target todo cycleCount =>
      obtain ⟨permitted, done, rearming⟩ := here
      cases todo with
      | nil =>
          cases fired
          have less := work_rearm graph tally target done
          exact ⟨_, .rearms permitted (by simpa using rearming.body),
            account.rearm looped own rearming,
            started trivial fun _ => .inl rfl,
            fun _ => work_lt (by simp [Effect.work]; omega)⟩
      | cons curr todo =>
          have inBody : graph.Body source target curr := (rearming.body curr).mp (by simp)
          simp only [Frame.fire] at fired
          split at fired
          next isTarget =>
            cases fired
            refine ⟨_, .follows (.refl (by simp)) (by simp),
              account.resettingState (.inl rfl) looped.distinct,
              started ⟨permitted, done ++ [curr], ?_⟩ ?_,
              fun _ => work_lt (by simp [Effect.work])⟩
            · refine
                { rearming with
                  distinct := by simpa using rearming.distinct
                  body := by simpa using rearming.body
                  count := by simpa using rearming.count
                  reset := fun node isDone inside => ?_ }
              have before : node ∈ done := by
                simpa [isTarget, inside] using isDone
              simpa [Shared.setState_node] using rearming.reset node before inside
            · exact fun query => .inl (by simp [Shared.setState_node])
          next inside =>
            cases fired
            have free := account.free_of_rearms looped own rfl inBody
            let next := { tally with kept := fun other => tally.kept other ∧ other ≠ curr }
            have same : tally.Keeps (.resetting source target (curr :: todo) cycleCount) tally :=
              .refl (by simp)
            have keeps : tally.Keeps (.resetting source target (curr :: todo) cycleCount) next :=
              { same with
                kept := fun other isKept => by
                  by_cases same : curr = other
                  · exact .inr ⟨same, same ▸ inside⟩
                  · exact .inl ⟨isKept, Ne.symm same⟩ }
            refine ⟨next, .follows keeps (by simp),
              (account.forget curr).resettingDegree ⟨free, by simp⟩ looped.distinct,
              started ⟨permitted, done, ?_⟩ ?_, fun _ =>
                work_lt (by simp [Effect.work, Tally.work, next]; omega)⟩
            · refine
                { rearming with
                  distinct := by simpa using rearming.distinct
                  body := by simpa using rearming.body
                  count := by simpa using rearming.count
                  reset := fun node isDone isInside => ?_ }
              rw [Shared.setInDegree_node]
              by_cases same : node = curr
              · rw [if_pos same, same]
                exact (account.shape curr).2.1
              · rw [if_neg same]
                exact rearming.reset node (by simpa [same] using isDone) isInside
            · intro query
              by_cases same : query = curr
              · exact .inr (.inl (by
                  simpa [Shared.setInDegree_node, same] using (account.shape curr).2.1))
              · exact .inl (by simp [Shared.setInDegree_node, same])
  | resettingState source target curr todo cycleCount =>
      obtain ⟨permitted, done, rearming⟩ := here
      cases fired
      refine ⟨_, .follows (.refl (by simp)) (by simp),
        account.resettingState (.inr rfl) looped.distinct,
        started ⟨permitted, done ++ [curr], ?_⟩ ?_,
        fun _ => work_lt (by simp [Effect.work])⟩
      · refine { rearming with reset := fun node isDone inside => ?_ }
        simpa [Shared.setState_node] using rearming.reset node isDone inside
      · exact fun query => .inl (by simp [Shared.setState_node])
  | rescheduling source target =>
      cases fired
      exact ⟨_, .follows (.refl (by simp)) (by simp),
        account.rescheduling looped.distinct, started trivial fun _ => .inl rfl,
        fun _ => work_lt (by simp [Effect.work, TaskGraph.readyWork])⟩
  | _ => exact straightLap trivial

end Account

end LightFlow
