import LightFlow.Task.Semantics
import LightFlow.Task.Walk

/-!
# The account of a run

A ledger for runs in which nodes come round again, or depend on something outside of the
graph.  The tally says where every node stands in its current round; the account says what
the calls, the counters and the history have to do with it.
-/

namespace LightFlow

/-! ## What calls are counted for -/

namespace Frame

/-- Activations the frame carries, from the decision until the successors are released. -/
@[simp] def carries : Frame → List NodeId
  | .executing node | .calling node | .completing node | .dispatching node _ | .joining node
  | .scheduling node | .skipping node | .skipped node | .resetting node _ _ _
  | .resettingState node _ _ _ _ => [node]
  | .handingOver _ _ succ _ _ => [succ]
  | .rescheduling _ target => [target]
  | _ => []

/-- Those that are neither executed nor skipped yet. -/
@[simp] def uncalled : Frame → List NodeId
  | .executing node | .calling node | .scheduling node | .skipping node => [node]
  | .handingOver _ _ succ _ _ => [succ]
  | .rescheduling _ target => [target]
  | _ => []

/-- Those that are skipped. -/
@[simp] def skips : Frame → List NodeId
  | .skipping node | .skipped node => [node]
  | _ => []

/-- Those that run. -/
def runs (frame : Frame) : List NodeId :=
  if frame.skips = [] then frame.carries else []

theorem carries_of_skips {frame : Frame} {node : NodeId}
    (skips : 0 < frame.skips.count node) : 0 < frame.carries.count node := by
  cases frame <;> simp_all

theorem carries_of_runs {frame : Frame} {node : NodeId} (runs : 0 < frame.runs.count node) :
    0 < frame.carries.count node := by
  rw [Frame.runs] at runs
  split at runs <;> simp_all

/-- The frame's own node, released but not finished. -/
@[simp] def late : Frame → List NodeId
  | .unblocking node _ _ _ | .handingOver node _ _ _ _ | .finishing node
  | .rescheduling node _ => [node]
  | _ => []

end Frame

/-- The event is a call of `onTaskCompleted`. -/
@[simp] def Event.finishes : Event → Bool
  | .finished _ => true
  | _ => false

/-- What is counted in calls and in the queues. -/
inductive Quantity where
  | carried (node : NodeId)
  | uncalled (node : NodeId)
  | running (node : NodeId)
  | skipping (node : NodeId)
  | late (node : NodeId)
  /-- Released activations of any node that are not finished. -/
  | unfinished
  /-- Decrements of `target` on their way, and the active ones among them. -/
  | flying (target : NodeId)
  | active (target : NodeId)
  /-- Decrements of `target` that calls of `source` have yet to make. -/
  | sending (source target : NodeId)

namespace Quantity

/-- What a frame contributes. -/
@[simp] def ofFrame (frame : Frame) : Quantity → Nat
  | .carried node => frame.carries.count node
  | .uncalled node => frame.uncalled.count node
  | .running node => frame.runs.count node
  | .skipping node => frame.skips.count node
  | .late node => frame.late.count node
  | .unfinished => frame.late.length
  | .flying target => TaskGraph.forwardInto target frame.todo
  | .active target => frame.activeInto target
  | .sending source target =>
      frame.walker.toList.count source * TaskGraph.forwardInto target frame.todo

/-- What a node contributes that waits to be executed. -/
@[simp] def ofReady (ready : NodeId) : Quantity → Nat
  | .carried node | .uncalled node | .running node => if ready = node then 1 else 0
  | _ => 0

/-- What a node adds that the decrement has decided. -/
@[simp] def ofDecision (target : NodeId) (decision : Resolution) : Quantity → Nat
  | .carried node | .uncalled node => if target = node ∧ decision ≠ .pending then 1 else 0
  | .running node => if target = node ∧ decision = .run then 1 else 0
  | .skipping node => if target = node ∧ decision = .skip then 1 else 0
  | _ => 0

/-- What an edge counts for that `node` has yet to decrement. -/
@[simp] def ofEdge (node : NodeId) (edge : SuccessorEdge) (call : Decrement) : Quantity → Nat
  | .flying target => if edge.target = target then 1 else 0
  | .active target => if edge.target = target ∧ call = .active then 1 else 0
  | .sending source target => [node].count source * if edge.target = target then 1 else 0
  | _ => 0

/-- Quantities that edges have no part in. -/
def isToken : Quantity → Bool
  | .flying _ | .active _ | .sending _ _ => false
  | _ => true

/-- What leaves the calls with the events of a step. -/
@[simp] def noted (events : List Event) : Quantity → Nat
  | .uncalled node => passed .called node events
  | .late node => passed .finished node events
  | .unfinished => events.countP Event.finishes
  | _ => 0

end Quantity

/-- The amount of a quantity in a workload. -/
def Workload.amount (load : Workload) (quantity : Quantity) : Nat :=
  (load.ready.map fun node => quantity.ofReady node).sum +
    (load.frames.map fun frame => quantity.ofFrame frame).sum

/-- The amount that a fired frame leaves. -/
def Effect.amount (effect : Effect) (quantity : Quantity) : Nat :=
  ((effect.staged.toList ++ effect.queued).map fun node => quantity.ofReady node).sum +
    (effect.frames.map fun frame => quantity.ofFrame frame).sum

theorem Effect.amount_eq {effect : Effect} {frames : List Frame} (queued : effect.queued = [])
    (staged : effect.staged = none) (left : effect.frames = frames) (quantity : Quantity) :
    effect.amount quantity = (frames.map fun frame => quantity.ofFrame frame).sum := by
  simp [amount, queued, staged, left]

theorem amount_cons (shared : Shared) (ready : Multiset NodeId) (frame : Frame)
    (rest : Multiset Frame) (quantity : Quantity) :
    Workload.amount ⟨shared, ready, frame ::ₘ rest⟩ quantity =
      quantity.ofFrame frame + Workload.amount ⟨shared, ready, rest⟩ quantity := by
  simp only [Workload.amount, Multiset.map_cons, Multiset.sum_cons]
  omega

theorem amount_load (effect : Effect) (shared : Shared) (ready : Multiset NodeId)
    (rest : Multiset Frame) (quantity : Quantity) :
    (effect.load ready rest).amount quantity =
      effect.amount quantity + Workload.amount ⟨shared, ready, rest⟩ quantity := by
  simp only [Workload.amount, Effect.amount, Multiset.map_add, Multiset.sum_add,
    Multiset.map_coe, Multiset.sum_coe, List.map_append, List.sum_append]
  omega

theorem Workload.uncalled_le_carried (load : Workload) (node : NodeId) :
    load.amount (.uncalled node) ≤ load.amount (.carried node) := by
  refine Nat.add_le_add le_rfl (Multiset.sum_map_le_sum_map _ _ fun frame _ => ?_)
  cases frame <;> simp

/-! ## The tally -/

/-- Where the nodes of a run stand. -/
structure Tally where
  /-- Dependencies left, and active decrements received, in the current round. -/
  need : NodeId → Nat
  got : NodeId → Nat
  /-- 1 after the node has been released in its current round. -/
  closed : NodeId → Nat
  /-- 1 after a timeout has let the successors go. -/
  dropped : NodeId → Nat := fun _ => 0
  /-- How often the node was made pending again. -/
  rounds : NodeId → Nat := fun _ => 0
  /-- Dependencies that no node of the graph is going to decrement. -/
  extra : NodeId → Nat := fun _ => 0
  /-- Active decrements that came from no node of the graph. -/
  bonus : NodeId → Nat := fun _ => 0
  /-- How often the node began to decrement its successors. -/
  sends : NodeId → Nat := fun _ => 0
  /-- Active decrements that `source` makes or has made in `target`. -/
  chosen : NodeId → NodeId → Nat := fun _ _ => 0
  /-- Nodes whose counters are known also when they do not wait. -/
  kept : NodeId → Prop := fun _ => False

namespace Tally

/-- The node has yet to let its successors go. -/
def isOpen (tally : Tally) (node : NodeId) : Nat :=
  if tally.closed node + tally.dropped node = 0 then 1 else 0

/-- The node lets its successors go; `chosen` counts those it lets run. -/
def release (tally : Tally) (node : NodeId) (chosen : NodeId → Nat) : Tally :=
  { tally with
    closed := Function.update tally.closed node 1
    sends := Function.update tally.sends node (tally.sends node + 1)
    chosen := Function.update tally.chosen node chosen }

/-- A dependency less, paid for by `extra` and `bonus` when no node of the graph did it. -/
def decrement (tally : Tally) (target : NodeId) (call : Decrement) (extra bonus : NodeId → Nat) :
    Tally :=
  { tally with
    need := Function.update tally.need target (tally.need target - 1)
    got := Function.update tally.got target
      (tally.got target + if call = .active then 1 else 0)
    extra, bonus }

variable (tally : Tally) {node other : NodeId} (chosen : NodeId → Nat) (call : Decrement)
  (extra bonus : NodeId → Nat)

@[simp] theorem decrement_need_self :
    (tally.decrement node call extra bonus).need node = tally.need node - 1 :=
  Function.update_self ..

theorem decrement_need_of_ne (different : other ≠ node) :
    (tally.decrement node call extra bonus).need other = tally.need other :=
  Function.update_of_ne different ..

@[simp] theorem decrement_got_self : (tally.decrement node call extra bonus).got node =
    tally.got node + if call = .active then 1 else 0 :=
  Function.update_self ..

theorem decrement_got_of_ne (different : other ≠ node) :
    (tally.decrement node call extra bonus).got other = tally.got other :=
  Function.update_of_ne different ..

@[simp] theorem release_need : (tally.release node chosen).need = tally.need := rfl

@[simp] theorem release_got : (tally.release node chosen).got = tally.got := rfl

@[simp] theorem release_dropped : (tally.release node chosen).dropped = tally.dropped := rfl

@[simp] theorem release_rounds : (tally.release node chosen).rounds = tally.rounds := rfl

@[simp] theorem release_extra : (tally.release node chosen).extra = tally.extra := rfl

@[simp] theorem release_bonus : (tally.release node chosen).bonus = tally.bonus := rfl

@[simp] theorem release_closed_self : (tally.release node chosen).closed node = 1 :=
  Function.update_self ..

theorem release_closed_of_ne (different : other ≠ node) :
    (tally.release node chosen).closed other = tally.closed other :=
  Function.update_of_ne different ..

@[simp] theorem release_sends_self :
    (tally.release node chosen).sends node = tally.sends node + 1 :=
  Function.update_self ..

theorem release_sends_of_ne (different : other ≠ node) :
    (tally.release node chosen).sends other = tally.sends other :=
  Function.update_of_ne different ..

@[simp] theorem release_chosen_self : (tally.release node chosen).chosen node = chosen :=
  Function.update_self ..

theorem release_chosen_of_ne (different : other ≠ node) :
    (tally.release node chosen).chosen other = tally.chosen other :=
  Function.update_of_ne different ..

theorem release_isOpen_self : (tally.release node chosen).isOpen node = 0 := by
  simp [isOpen]

theorem release_isOpen_of_ne (different : other ≠ node) :
    (tally.release node chosen).isOpen other = tally.isOpen other := by
  rw [isOpen, tally.release_closed_of_ne chosen different]
  rfl

end Tally

/-- The latest call of the node executed it. -/
def Ran (node : NodeId) (log : List Event) : Prop :=
  log.find? (fun event => event.passes .called node) = some (.executed node)

instance (node : NodeId) (log : List Event) : Decidable (Ran node log) :=
  inferInstanceAs (Decidable (_ = _))

/-- Events that are no calls of the node do not change whether it ran. -/
theorem ran_append {node : NodeId} {newer : List Event} (older : List Event)
    (noCall : passed .called node newer = 0) : Ran node (newer ++ older) ↔ Ran node older := by
  have skipped : newer.find? (fun event => event.passes .called node) = none := by
    rw [List.find?_eq_none]
    intro event member passes
    have some : 0 < passed .called node newer := List.countP_pos_iff.mpr ⟨event, member, passes⟩
    omega
  rw [Ran, Ran, List.find?_append, skipped, Option.none_or]

/-- The node runs when it is decided: it has no dependencies, or received an active
decrement. -/
def TaskGraph.Runs (graph : TaskGraph) (tally : Tally) (node : NodeId) : Prop :=
  (graph.node node).initialInDegree = 0 ∨ 0 < tally.got node

/-- No edge from `source` to `target` is loop-back. -/
def TaskGraph.NoLoopBack (graph : TaskGraph) (source target : NodeId) : Prop :=
  ∀ edge ∈ (graph.node source).successors, edge.target = target → edge.isLoopBack = false

/-- The frame comes from a graph without subflows, and takes no loop-back edge. -/
def Frame.Walks (graph : TaskGraph) : Frame → Prop
  | .dispatching _ _ | .joining _ => False
  | .unblocking node branch todo _ | .handingOver node branch _ todo _ =>
      ∀ edge ∈ todo, edge ∈ (graph.node node).successors ∧
        (edge.isLoopBack = true → takes branch edge = false)
  | .cascading node todo => todo ≠ [] ∧ ∀ edge ∈ todo, edge ∈ (graph.node node).successors
  | _ => True

/-- The frame goes on with what the latest call of its node decided. -/
def Frame.Told (log : List Event) : Frame → Prop
  | .completing node => Ran node log
  | .skipped node => ¬ Ran node log ∧ .skipped node ∈ log
  | _ => True

theorem Frame.Told.append {older newer : List Event} {frame : Frame} (told : frame.Told older)
    (noCall : ∀ node ∈ frame.carries, passed .called node newer = 0) :
    frame.Told (newer ++ older) := by
  cases frame with
  | completing node => exact (ran_append older (noCall node (by simp))).mpr told
  | skipped node =>
      exact ⟨mt (ran_append older (noCall node (by simp))).mp told.1,
        List.mem_append_right _ told.2⟩
  | _ => trivial

/-- What calls, counters and history have to do with the tally. -/
structure Account (graph : TaskGraph) (tally : Tally) (load : Workload) : Prop where
  /-- Every node waits, is carried by a call, or is released. -/
  passage : ∀ node, waiting (tally.need node) + load.amount (.carried node) +
    tally.closed node = graph.order.count node
  /-- It is called once a round. -/
  called : ∀ node, waiting (tally.need node) + load.amount (.uncalled node) +
    passed .called node load.shared.log = graph.order.count node + tally.rounds node
  finished : ∀ node, passed .finished node load.shared.log + load.amount (.late node) =
    tally.closed node + tally.dropped node + tally.rounds node
  /-- A released node was executed to its end, or skipped. -/
  settled : ∀ node, tally.closed node = 1 →
    .completed node ∈ load.shared.log ∨ .skipped node ∈ load.shared.log
  /-- Dependencies are edges of open nodes, edges in a loop over successors, or extra. -/
  edges : ∀ target, tally.need target =
    (graph.order.map fun source => tally.isOpen source *
      TaskGraph.forwardInto target (graph.node source).successors).sum +
    load.amount (.flying target) + tally.extra target
  active : ∀ target, tally.got target + load.amount (.active target) =
    (graph.order.map fun source => tally.chosen source target).sum + tally.bonus target
  /-- Counters hold what the tally says, above all those of waiting nodes. -/
  packed : ∀ node, 0 < tally.need node ∨ tally.kept node →
    Packed (load.shared.node node).inDegree (tally.need node) (tally.got node)
  stuck : ∀ node, tally.dropped node ≤ tally.extra node
  bounded : ∀ node, tally.need node + tally.got node ≤ (graph.node node).initialInDegree
  willRun : ∀ node, tally.rounds node = 0 →
    0 < load.amount (.running node) + load.shared.log.count (.executed node) →
      graph.Runs tally node
  willSkip : ∀ node, tally.rounds node = 0 →
    0 < load.amount (.skipping node) + load.shared.log.count (.skipped node) →
      ¬ graph.Runs tally node
  told : ∀ frame ∈ load.frames, frame.Told load.shared.log
  /-- Only released nodes have chosen, among their forward edges. -/
  chosen : ∀ source target, tally.chosen source target ≤
    tally.closed source * TaskGraph.forwardInto target (graph.node source).successors
  /-- A node that ran and was released took the edges of its branch. -/
  choice : ∀ source target, tally.closed source = 1 → tally.rounds target = 0 →
    tally.chosen source target = if Ran source load.shared.log then
      Frame.taken (chosenBranch (load.shared.node source)) target (graph.node source).successors
    else 0
  sent : ∀ source target, graph.NoLoopBack source target →
    decrements source target load.shared.log + load.amount (.sending source target) =
      tally.sends source * TaskGraph.forwardInto target (graph.node source).successors
  once : ∀ node, tally.rounds node = 0 →
    tally.sends node = tally.closed node + tally.dropped node
  shape : ∀ node, (load.shared.node node).type = (graph.node node).type ∧
    (load.shared.node node).initialInDegree = (graph.node node).initialInDegree ∧
    (load.shared.node node).successors = (graph.node node).successors
  walks : ∀ frame ∈ load.frames, frame.Walks graph
  pending : load.shared.m_pendingTasks =
    u32 ((graph.order.map tally.isOpen).sum + load.amount .unfinished)

namespace Account

variable {graph : TaskGraph} {callables : Callables} {tally : Tally} {shared : Shared}
  {ready : Multiset NodeId} {frame : Frame} {rest : Multiset Frame} {effect : Effect}
  {events : List Event}

/-- A frame that carries a node has a part of the amount. -/
theorem ofFrame_le (shared : Shared) (ready : Multiset NodeId) (frame : Frame)
    (rest : Multiset Frame) (quantity : Quantity) :
    quantity.ofFrame frame ≤ Workload.amount ⟨shared, ready, frame ::ₘ rest⟩ quantity := by
  rw [amount_cons]
  exact Nat.le_add_right _ _

theorem need_eq_zero {load : Workload} (account : Account graph tally load) {node : NodeId}
    (carried : 0 < load.amount (.carried node)) (distinct : graph.order.Nodup) :
    node ∈ graph.order ∧ tally.closed node = 0 ∧ tally.dropped node = 0 ∧
      tally.need node = 0 := by
  have law := account.passage node
  have single := List.nodup_iff_count_le_one.mp distinct node
  have edges := account.edges node
  have stuck := account.stuck node
  have none : tally.need node = 0 := waiting_eq_zero.mp (by omega)
  exact ⟨List.count_pos_iff.mp (by omega), by omega, by omega, none⟩

theorem closed_le_one {load : Workload} (account : Account graph tally load)
    (distinct : graph.order.Nodup) (node : NodeId) : tally.closed node ≤ 1 := by
  have law := account.passage node
  have single := List.nodup_iff_count_le_one.mp distinct node
  omega

/-- A carried node is not closed, waits for nothing, and is a node of the graph. -/
theorem of_carried (account : Account graph tally ⟨shared, ready, frame ::ₘ rest⟩)
    {node : NodeId} (carries : 0 < frame.carries.count node) (distinct : graph.order.Nodup) :
    node ∈ graph.order ∧ tally.closed node = 0 ∧ tally.dropped node = 0 ∧
      tally.need node = 0 :=
  account.need_eq_zero (carries.trans_le (ofFrame_le _ _ _ _ (.carried node))) distinct

/-- While a frame carries a node no other frame does. -/
theorem carries_eq_zero (account : Account graph tally ⟨shared, ready, frame ::ₘ rest⟩)
    {node : NodeId} (carries : 0 < frame.carries.count node) (distinct : graph.order.Nodup)
    {other : Frame} (member : other ∈ rest) : other.carries.count node = 0 := by
  obtain ⟨others, rfl⟩ := Multiset.exists_cons_of_mem member
  have law := account.passage node
  have single := List.nodup_iff_count_le_one.mp distinct node
  simp only [Workload.amount, Multiset.map_cons, Multiset.sum_cons, Quantity.ofFrame] at law
  omega

end Account

end LightFlow
