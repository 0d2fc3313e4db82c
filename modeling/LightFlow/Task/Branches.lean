import LightFlow.Task.Run

/-!
# The edges of the chosen branch

`unblockSuccessors` of a condition follows every edge of the chosen branch when none of them is a
loop-back edge.  Otherwise it re-runs the target of the first loop-back edge of the branch and
returns, so it follows all of them only when there are no others.
-/

namespace LightFlow

/-- Steps of one thread inside its calls, each in the state that the other threads have left by
then: the stack before, the frames that fired, and the stack after. -/
inductive Fires (callables : Callables) : List Frame → List Frame → List Frame → Prop where
  | stop (stack : List Frame) : Fires callables stack [] stack
  | step {frame : Frame} {below fired stack : List Frame} {effect : Effect} (inlineFree : Bool)
      (shared : Shared) :
      frame.fire callables inlineFree shared = some effect →
      Fires callables (effect.frames ++ below) fired stack →
      Fires callables (frame :: below) (frame :: fired) stack

/-- In a run, the innermost call of a thread stays where it is or makes a step of this kind, unless
it waits in `helpUntil`. -/
theorem RunState.stack_step {threads : Nat} {graph : TaskGraph} {callables : Callables}
    {state next : RunState threads} {action : RunAction threads}
    (step : state.step graph callables action = some next) {index : Fin threads} {frame : Frame}
    {below : List Frame} (inside : (state.thread index).stack = frame :: below)
    (busy : ∀ node, frame ≠ .joining node) :
    (next.thread index).stack = frame :: below ∨
      ∃ inlineFree effect, frame.fire callables inlineFree state.shared = some effect ∧
        (next.thread index).stack = effect.frames ++ below := by
  have occupied : (state.thread index).looking = false := by
    simp only [Thread.looking, inside]
    cases frame with
    | joining node => exact absurd rfl (busy node)
    | _ => rfl
  cases action with
  | prepareRun =>
      simp only [RunState.step, Option.ite_none_right_eq_some, Option.some.injEq] at step
      obtain ⟨-, rfl⟩ := step
      exact .inl inside
  | dispatchRoot =>
      simp only [RunState.step, RunState.dispatchRoot] at step
      split at step <;> cases step <;> exact .inl inside
  | setCanInline other canInline =>
      simp only [RunState.step, Option.some.injEq] at step
      subst step
      refine .inl ?_
      by_cases same : index = other
      · subst same
        simpa [RunState.setThread] using inside
      · simpa [RunState.setThread, same] using inside
  | take other taken =>
      simp only [RunState.step, Option.ite_none_right_eq_some, Option.some.injEq] at step
      obtain ⟨⟨looking, -⟩, rfl⟩ := step
      have different : index ≠ other := by
        rintro rfl
        rw [occupied] at looking
        cases looking
      exact .inl (by simpa [RunState.setThread, different] using inside)
  | takeInline other =>
      simp only [RunState.step] at step
      split at step
      next => cases step
      next =>
        simp only [Option.ite_none_right_eq_some, Option.some.injEq] at step
        obtain ⟨looking, rfl⟩ := step
        have different : index ≠ other := by
          rintro rfl
          rw [occupied] at looking
          cases looking
        exact .inl (by simpa [RunState.setThread, different] using inside)
  | fire other =>
      simp only [RunState.step, RunState.fire] at step
      split at step
      next => cases step
      next top rest stack =>
        obtain ⟨effect, fires, rfl⟩ := Option.map_eq_some_iff.mp step
        by_cases same : index = other
        · subst same
          obtain ⟨rfl, rfl⟩ := List.cons.inj (inside.symm.trans stack)
          exact .inr ⟨_, effect, fires, by simp [RunState.setThread]⟩
        · exact .inl (by simpa [RunState.setThread, same] using inside)

/-- The edge carries the chosen branch, or none. -/
def SuccessorEdge.matches (edge : SuccessorEdge) (chosenBranch : Int) : Bool :=
  edge.branch = -1 ∨ edge.branch = chosenBranch

/-- The target that a frame of `node` decrements as active. -/
def Frame.activates (node : NodeId) : Frame → Option NodeId
  | .unblocking source branch (edge :: _) _ =>
      if source = node ∧ takes branch edge then some edge.target else none
  | _ => none

/-- The loop-back target that a frame of `node` re-runs. -/
def Frame.reruns (node : NodeId) : Frame → Option NodeId
  | .rescheduling source target => if source = node then some target else none
  | _ => none

/-- Decrementing as active is seen in the log. -/
theorem Frame.fire_activates {callables : Callables} {inlineFree : Bool} {shared : Shared}
    {frame : Frame} {effect : Effect} {node target : NodeId}
    (fires : frame.fire callables inlineFree shared = some effect)
    (activates : frame.activates node = some target) :
    effect.shared.log = .decremented node target true :: shared.log := by
  unfold Frame.activates at activates
  split at activates
  next source branch edge todo unblockedCount =>
    simp only [Option.ite_none_right_eq_some, Option.some.injEq] at activates
    obtain ⟨⟨rfl, taken⟩, rfl⟩ := activates
    simp only [Frame.fire, taken, ↓reduceIte, Option.some.injEq] at fires
    subst fires
    rfl
  next => cases activates

/-- The edges of a condition that carry the branch that its callable returned. -/
def chosenEdges (store : NodeStore) (node : NodeId) : List SuccessorEdge :=
  (store node).successors.filter (·.matches (store node).userData)

/-- Each chosen edge was followed exactly once: a forward target was decremented as active, and a
loop-back target was re-run. -/
structure FollowsAll (store : NodeStore) (node : NodeId) (fired : List Frame) : Prop where
  forward : (fired.filterMap (·.activates node)).Perm
    (((chosenEdges store node).filter (!·.isLoopBack)).map (·.target))
  loopBack : (fired.filterMap (·.reruns node)).Perm
    (((chosenEdges store node).filter (·.isLoopBack)).map (·.target))

/-! ## The walk over the edges -/

/-- A frame of a cascade, or of scheduling a node that a cascade unblocked. -/
def Frame.Cascades : Frame → Prop
  | .skipping _ | .skipped _ | .cascading _ _ | .scheduling _ => True
  | _ => False

/-- Handing over goes on with the walk. -/
theorem handOver_frames (shared : Shared) (inlineFree : Bool) (node succ : NodeId)
    (branch : Option Int) (todo : List SuccessorEdge) (unblockedCount : Nat) :
    ∃ count, (handOver shared inlineFree node branch succ todo unblockedCount).frames =
      [.unblocking node branch todo count] := by
  simp only [handOver]
  split
  · exact ⟨_, rfl⟩
  · split
    · split <;> exact ⟨_, rfl⟩
    · exact ⟨_, rfl⟩

variable {callables : Callables} {node : NodeId} {branch : Int}

/-- Cascades go on as cascades. -/
theorem Frame.Cascades.fire {inlineFree : Bool} {shared : Shared} {frame : Frame}
    {effect : Effect} (cascades : frame.Cascades)
    (fires : frame.fire callables inlineFree shared = some effect) :
    ∀ other ∈ effect.frames, other.Cascades := by
  have onward (source : NodeId) (todo : List SuccessorEdge) :
      ∀ other ∈ cascade source todo, other.Cascades := by
    cases todo with
    | nil => nofun
    | cons edge todo =>
        intro other member
        obtain rfl := List.mem_singleton.mp member
        trivial
  cases frame with
  | skipping source =>
      cases fires
      intro other member
      obtain rfl := List.mem_singleton.mp member
      trivial
  | skipped source =>
      cases fires
      exact onward _ _
  | cascading source todo =>
      cases todo with
      | nil =>
          cases fires
          nofun
      | cons edge todo =>
          cases fires
          intro other member
          simp only [unblockSkipped] at member
          split at member
          next => exact onward _ _ other member
          all_goals
            rcases List.mem_cons.mp member with rfl | member
            · trivial
            · exact onward _ _ other member
  | scheduling source =>
      cases fires
      nofun
  | _ => exact cascades.elim

/-- The targets of the edges that carry the branch. -/
def followed (branch : Int) (edges : List SuccessorEdge) : List NodeId :=
  (edges.filter (·.matches branch)).map (·.target)

/-- The bottom frame of the call, with the targets that it has still to decrement as active, and
those that it has still to re-run. -/
inductive Following (node : NodeId) (branch : Int) : List NodeId → List NodeId → Frame → Prop where
  | unblocking (todo : List SuccessorEdge) (unblockedCount : Nat) :
      Following node branch (followed branch todo) []
        (.unblocking node (some branch) todo unblockedCount)
  | handingOver (succ : NodeId) (todo : List SuccessorEdge) (unblockedCount : Nat) :
      Following node branch (followed branch todo) []
        (.handingOver node (some branch) succ todo unblockedCount)
  | resetting (target : NodeId) (todo : List NodeId) (cycleCount : Nat) :
      Following node branch [] [target] (.resetting node target todo cycleCount)
  | resettingState (target curr : NodeId) (todo : List NodeId) (cycleCount : Nat) :
      Following node branch [] [target] (.resettingState node target curr todo cycleCount)
  | rescheduling (target : NodeId) : Following node branch [] [target] (.rescheduling node target)
  | finishing : Following node branch [] [] (.finishing node)

namespace Following

/-- A step of the walk over the edges: an edge is followed or passed over, with a cascade above
the walk where it is skipped. -/
theorem unblocking_fire {edge : SuccessorEdge} {todo : List SuccessorEdge} {unblockedCount : Nat}
    {inlineFree : Bool} {shared : Shared} {effect : Effect}
    (fires : (Frame.unblocking node (some branch) (edge :: todo) unblockedCount).fire callables
      inlineFree shared = some effect) :
    ∃ above bottom, effect.frames = above ++ [bottom] ∧ (∀ other ∈ above, other.Cascades) ∧
      Following node branch (followed branch todo) [] bottom := by
  by_cases taken : takes (some branch) edge = true
  · simp only [Frame.fire, taken, ↓reduceIte, Option.some.injEq] at fires
    subst fires
    cases unblocked : (decrementActive (shared.node edge.target).inDegree).2 with
    | true =>
        refine ⟨[], _, ?_, nofun, .handingOver edge.target todo unblockedCount⟩
        simp [unblockActive, unblocked]
    | false =>
        refine ⟨[], _, ?_, nofun, .unblocking todo unblockedCount⟩
        simp [unblockActive, unblocked]
  · simp only [Frame.fire, if_neg taken] at fires
    by_cases isLoopBack : edge.isLoopBack = true
    · rw [if_pos isLoopBack] at fires
      cases fires
      exact ⟨[], _, rfl, nofun, .unblocking todo unblockedCount⟩
    · rw [if_neg isLoopBack] at fires
      cases fires
      simp only [unblockSkipped]
      split
      next => exact ⟨[], _, rfl, nofun, .unblocking todo unblockedCount⟩
      next => exact ⟨[.scheduling _], _, rfl, by simp [Frame.Cascades], .unblocking _ _⟩
      next => exact ⟨[.skipping _], _, rfl, by simp [Frame.Cascades], .unblocking _ _⟩

/-- A step of the call. -/
theorem fire {active again : List NodeId} {frame : Frame}
    (following : Following node branch active again frame) {inlineFree : Bool} {shared : Shared}
    {effect : Effect} (fires : frame.fire callables inlineFree shared = some effect)
    (unfinished : frame ≠ .finishing node) :
    ∃ above bottom active' again', effect.frames = above ++ [bottom] ∧
      (∀ other ∈ above, other.Cascades) ∧ Following node branch active' again' bottom ∧
      active = (frame.activates node).toList ++ active' ∧
      again = (frame.reruns node).toList ++ again' := by
  cases following with
  | unblocking todo unblockedCount =>
      cases todo with
      | nil =>
          cases fires
          exact ⟨[], _, [], [], rfl, nofun, .finishing, rfl, rfl⟩
      | cons edge todo =>
          obtain ⟨above, bottom, frames, cascades, onward⟩ := unblocking_fire fires
          refine ⟨above, bottom, _, _, frames, cascades, onward, ?_, rfl⟩
          by_cases isMatch : edge.matches branch = true
          · have taken : takes (some branch) edge = true := isMatch
            simp [followed, isMatch, Frame.activates, taken]
          · have passed : ¬ takes (some branch) edge = true := isMatch
            simp [followed, isMatch, Frame.activates, passed]
  | handingOver succ todo unblockedCount =>
      cases fires
      obtain ⟨count, frames⟩ := handOver_frames shared inlineFree node succ _ todo unblockedCount
      exact ⟨[], _, _, [], frames, nofun, .unblocking todo count, rfl, rfl⟩
  | resetting target todo cycleCount =>
      cases todo with
      | nil =>
          cases fires
          exact ⟨[], _, [], _, rfl, nofun, .rescheduling target, rfl, rfl⟩
      | cons curr todo =>
          simp only [Frame.fire] at fires
          split at fires <;> cases fires
          · exact ⟨[], _, [], _, rfl, nofun, .resetting target todo cycleCount, rfl, rfl⟩
          · exact ⟨[], _, [], _, rfl, nofun, .resettingState target curr todo cycleCount, rfl, rfl⟩
  | resettingState target curr todo cycleCount =>
      cases fires
      exact ⟨[], _, [], _, rfl, nofun, .resetting target todo cycleCount, rfl, rfl⟩
  | rescheduling target =>
      cases fires
      exact ⟨[], _, [], [], rfl, nofun, .finishing, rfl, by simp [Frame.reruns]⟩
  | finishing => exact absurd rfl unfinished

/-- The whole call follows what it had to follow. -/
theorem fires {stack fired final : List Frame} (fires : Fires callables stack fired final) :
    ∀ {active again : List NodeId} {above : List Frame} {bottom : Frame},
      stack = above ++ [bottom] → final = [.finishing node] →
      (∀ other ∈ above, other.Cascades) → Following node branch active again bottom →
      fired.filterMap (·.activates node) = active ∧ fired.filterMap (·.reruns node) = again := by
  induction fires with
  | stop stack =>
      rintro active again above bottom rfl finished cascades following
      obtain ⟨rfl, rfl⟩ : above = [] ∧ bottom = .finishing node := by
        cases above with
        | nil => exact ⟨rfl, List.head_eq_of_cons_eq finished⟩
        | cons frame above => simp at finished
      cases following
      exact ⟨rfl, rfl⟩
  | @step frame below fired stack effect inlineFree shared fires onward ih =>
      rintro active again above bottom equal finished cascades following
      cases above with
      | nil =>
          obtain ⟨rfl, rfl⟩ := List.cons.inj equal
          have unfinished : frame ≠ .finishing node := by
            rintro rfl
            cases fires
            subst finished
            cases onward
          obtain ⟨above, bottom, active', again', frames, cascades, following', rfl, rfl⟩ :=
            following.fire fires unfinished
          obtain ⟨rfl, rfl⟩ := ih (by rw [frames, List.append_nil]) finished cascades following'
          constructor
          · cases activated : frame.activates node <;> simp [activated]
          · cases rerun : frame.reruns node <;> simp [rerun]
      | cons other above =>
          obtain ⟨rfl, rfl⟩ := List.cons.inj equal
          have isCascade := cascades frame List.mem_cons_self
          have quiet : frame.activates node = none ∧ frame.reruns node = none := by
            cases frame <;> first | exact ⟨rfl, rfl⟩ | exact isCascade.elim
          rw [List.filterMap_cons, List.filterMap_cons, quiet.1, quiet.2]
          refine @ih _ _ (effect.frames ++ above) _ (List.append_assoc _ _ _).symm finished
            (fun next member => ?_) following
          rcases List.mem_append.mp member with new | old
          · exact isCascade.fire fires next new
          · exact cascades next (List.mem_cons_of_mem _ old)

end Following

/-! ## The choice of the loop edge -/

/-- The first loop-back edge that carries the branch of the result. -/
def chosenLoopEdge (store : NodeStore) (node : NodeId) : Option SuccessorEdge :=
  (chosenEdges store node).find? (·.isLoopBack)

/-- The call begins with the targets of all chosen edges, or with one target to re-run. -/
theorem following_unblockSuccessors {store : NodeStore} {node : NodeId}
    (isCondition : (store node).type = .condition) :
    match chosenLoopEdge store node with
    | some edge =>
        Following node (store node).userData [] [edge.target] (unblockSuccessors store node)
    | none =>
        Following node (store node).userData ((chosenEdges store node).map (·.target)) []
          (unblockSuccessors store node) := by
  have same : chosenLoopEdge store node = (store node).successors.find? fun edge =>
      (edge.branch = -1 ∨ edge.branch = (store node).userData) && edge.isLoopBack := by
    rw [chosenLoopEdge, chosenEdges, List.find?_filter]
    refine congrArg (List.find? · _) (funext fun edge => ?_)
    simp [SuccessorEdge.matches]
  simp only [unblockSuccessors, isCondition, ← same]
  cases chosenLoopEdge store node with
  | some edge => exact .resetting _ _ _
  | none => exact .unblocking _ _

/-- A shared state in which no decrement is the last one. -/
def unresolved : Shared := { node := fun _ => { inDegree := 2 } }

theorem unblockActive_unresolved (node : NodeId) (branch : Option Int) (succ : NodeId)
    (todo : List SuccessorEdge) (unblockedCount : Nat) :
    (unblockActive unresolved node branch succ todo unblockedCount).frames =
      [.unblocking node branch todo unblockedCount] := by
  have pending : (decrementActive 2).2 = false := by decide
  simp [unblockActive, unresolved, pending]

theorem unblockSkipped_unresolved (node succ : NodeId) (rest : List Frame) :
    (unblockSkipped unresolved node succ rest).frames = rest := by
  have pending : (decrementSkipped 2).2 = .pending := by decide
  simp [unblockSkipped, unresolved, pending]

/-- The walk over the edges can come to its end. -/
theorem exists_fires_unblocking (callables : Callables) (node : NodeId) (branch : Option Int)
    (todo : List SuccessorEdge) (unblockedCount : Nat) :
    ∃ fired, Fires callables [.unblocking node branch todo unblockedCount] fired
      [.finishing node] := by
  induction todo with
  | nil => exact ⟨_, .step false unresolved rfl (.stop _)⟩
  | cons edge todo ih =>
      obtain ⟨fired, onward⟩ := ih
      by_cases taken : takes branch edge = true
      · refine ⟨_ :: fired, .step false unresolved (if_pos taken) ?_⟩
        rw [unblockActive_unresolved]
        exact onward
      · by_cases isLoopBack : edge.isLoopBack = true
        · exact ⟨_, .step false unresolved ((if_neg taken).trans (if_pos isLoopBack)) onward⟩
        · refine ⟨_ :: fired,
            .step false unresolved ((if_neg taken).trans (if_neg isLoopBack)) ?_⟩
          rw [unblockSkipped_unresolved]
          exact onward

/-- The loop over the cycle nodes can come to its end. -/
theorem exists_fires_resetting (callables : Callables) (node target : NodeId)
    (todo : List NodeId) (cycleCount : Nat) :
    ∃ fired, Fires callables [.resetting node target todo cycleCount] fired [.finishing node] := by
  induction todo with
  | nil => exact ⟨_, .step false unresolved rfl (.step false unresolved rfl (.stop _))⟩
  | cons curr todo ih =>
      obtain ⟨fired, onward⟩ := ih
      by_cases same : curr = target
      · exact ⟨_, .step false unresolved (if_pos same) onward⟩
      · exact ⟨_, .step false unresolved (if_neg same) (.step false unresolved rfl onward)⟩

/-- A call can come to its end. -/
theorem exists_fires (callables : Callables) (store : NodeStore) (node : NodeId) :
    ∃ fired, Fires callables [unblockSuccessors store node] fired [.finishing node] := by
  simp only [unblockSuccessors]
  split
  · split
    · exact exists_fires_resetting callables node _ _ _
    · exact exists_fires_unblocking callables node _ _ _
  · exact exists_fires_unblocking callables node _ _ _

/-! ## All the edges -/

/-- A chosen loop-back edge is followed alone. -/
theorem followsAll_iff_of_loop {store : NodeStore} {node : NodeId} {edge : SuccessorEdge}
    {fired : List Frame} (chosen : chosenLoopEdge store node = some edge)
    (active : fired.filterMap (·.activates node) = [])
    (again : fired.filterMap (·.reruns node) = [edge.target]) :
    FollowsAll store node fired ↔ (chosenEdges store node).length = 1 := by
  have member : edge ∈ chosenEdges store node := List.mem_of_find?_eq_some chosen
  have isLoopBack : edge.isLoopBack = true := List.find?_some chosen
  constructor
  · rintro ⟨forward, loopBack⟩
    rw [active] at forward
    rw [again] at loopBack
    have parts := List.length_eq_length_filter_add (l := chosenEdges store node) (·.isLoopBack)
    have forwards := forward.length_eq
    have loops := loopBack.length_eq
    simp only [List.length_nil, List.length_cons, List.length_map] at forwards loops
    omega
  · intro single
    obtain ⟨only, chosenIs⟩ := List.length_eq_one_iff.mp single
    rw [chosenIs, List.mem_singleton] at member
    subst member
    constructor
    · rw [active, chosenIs]
      simp [isLoopBack]
    · rw [again, chosenIs]
      simp [isLoopBack]

/-- A condition follows all the edges of the branch that its callable returned exactly when none of
them is a loop-back edge, or there is only one.  A call of `unblockSuccessors` that comes to its end
is meant, in whatever states the other threads leave between its steps; there is such a call. -/
theorem followsAll_iff (callables : Callables) (store : NodeStore) (node : NodeId)
    (isCondition : (store node).type = .condition) :
    (∃ fired, Fires callables [unblockSuccessors store node] fired [.finishing node]) ∧
      ∀ fired, Fires callables [unblockSuccessors store node] fired [.finishing node] →
        (FollowsAll store node fired ↔
          (∀ edge ∈ chosenEdges store node, edge.isLoopBack = false) ∨
            (chosenEdges store node).length = 1) := by
  refine ⟨exists_fires callables store node, fun fired fires => ?_⟩
  have following := following_unblockSuccessors isCondition
  cases chosen : chosenLoopEdge store node with
  | some edge =>
      rw [chosen] at following
      obtain ⟨active, again⟩ := @Following.fires _ _ _ _ _ _ fires _ _ [] _ rfl rfl nofun following
      rw [followsAll_iff_of_loop chosen active again, or_iff_right]
      intro forward
      have isLoopBack : edge.isLoopBack = true := List.find?_some chosen
      rw [forward edge (List.mem_of_find?_eq_some chosen)] at isLoopBack
      cases isLoopBack
  | none =>
      rw [chosen] at following
      obtain ⟨active, again⟩ := @Following.fires _ _ _ _ _ _ fires _ _ [] _ rfl rfl nofun following
      have forward : ∀ edge ∈ chosenEdges store node, edge.isLoopBack = false := by
        simpa [chosenLoopEdge] using chosen
      refine iff_of_true ⟨?_, ?_⟩ (.inl forward)
      · rw [active, List.filter_eq_self.mpr fun edge member => by simp [forward edge member]]
      · rw [again, List.filter_eq_nil_iff.mpr fun edge member => by simp [forward edge member]]
        exact .nil

/-- Callables that return branch 0 and build no subflow. -/
def firstBranch : Callables := { result := fun _ _ => 0, subflow := fun _ => {} }

/-- Two roots, a condition behind both of them, and edges of one branch back to each root. -/
def twoHeads : TaskGraph :=
  let heads := ({} : TaskGraph).emplace .static .worker |>.emplace .static .worker
  let body := heads.emplace .condition .worker |>.addEdge (.node 0) (.node 2)
    |>.addEdge (.node 1) (.node 2)
  body.addEdge (.node 2) (.node 0) 0 |>.addEdge (.node 2) (.node 1) 0

/-- A condition with an edge to itself for its result follows this edge. -/
theorem followsAll_self :
    let graph := (({} : TaskGraph).emplace .condition .worker).addEdge (.node 0) (.node 0) 0
    (graph.node (.node 0)).type = .condition ∧
      ∃ fired, Fires firstBranch [unblockSuccessors graph.node (.node 0)] fired
        [.finishing (.node 0)] ∧ FollowsAll graph.node (.node 0) fired := by
  intro graph
  obtain ⟨⟨fired, fires⟩, all⟩ := followsAll_iff firstBranch graph.node (.node 0) (by decide)
  exact ⟨by decide, fired, fires, (all fired fires).mpr (.inr (by decide))⟩

/-- A branch that leads back to two heads re-runs only one of them. -/
theorem second_head_is_missed :
    ¬ ∀ (callables : Callables) (store : NodeStore) (node : NodeId) (fired : List Frame),
      (store node).type = .condition →
      Fires callables [unblockSuccessors store node] fired [.finishing node] →
      FollowsAll store node fired := by
  intro all
  obtain ⟨fired, fires⟩ := exists_fires firstBranch twoHeads.node (.node 2)
  have follows := all firstBranch twoHeads.node (.node 2) fired (by decide) fires
  have isCondition : (twoHeads.node (.node 2)).type = .condition := by decide
  have following := following_unblockSuccessors isCondition
  have chosen : chosenLoopEdge twoHeads.node (.node 2) =
      some { target := .node 1, branch := 0, isLoopBack := true } := by decide
  rw [chosen] at following
  obtain ⟨active, again⟩ := @Following.fires _ _ _ _ _ _ fires _ _ [] _ rfl rfl nofun following
  have single := (followsAll_iff_of_loop chosen active again).mp follows
  revert single
  decide

end LightFlow
