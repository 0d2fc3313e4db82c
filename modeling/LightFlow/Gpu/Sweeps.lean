import LightFlow.Gpu.Signals

/-!
# The wait-set as a list

Registering puts wait nodes in front of the list, `reset` drops it, and sweeps leave it as it
is.  A sweep returns whenever the list is finite.
-/

namespace LightFlow

namespace TimelineReactor

/-- `registerWait(node)`, with nothing else at `m_head` meanwhile. -/
def registerWait (reactor : TimelineReactor) (node : WaitId) : TimelineReactor :=
  { reactor.setWait node { reactor.wait node with nextInReactor := reactor.m_head } with
    m_head := some node
    m_pendingCount := u32 (reactor.m_pendingCount + 1) }

/-- The loop of `prepareRun` over the wait nodes of a graph. -/
def registerWaits (now : Int) : TimelineReactor → List WaitId → TimelineReactor
  | reactor, [] => reactor
  | reactor, node :: nodes =>
      registerWaits now
        ((reactor.setWait node
          { reactor.wait node with satisfied := false, registeredTime := now }).registerWait node)
        nodes

/-- `resetTimeout`. -/
def resetTimeout (reactor : TimelineReactor) : TimelineReactor :=
  { reactor with m_hasTimeout := false }

/-- `reset`. -/
def reset (reactor : TimelineReactor) : TimelineReactor :=
  { reactor with m_head := none, m_pendingCount := 0, m_hasTimeout := false }

variable {reactor : TimelineReactor} {node : WaitId} {nodes listed : List WaitId}

/-- The three accesses of `registerWait`, one after the other. -/
theorem registerWait_fires :
    ((ReactorCall.registering node).fire reactor {}).bind (fun loaded =>
      (loaded.call.fire loaded.reactor {}).bind fun linked =>
        (linked.call.fire linked.reactor {}).map ReactorEffect.reactor) =
      some (reactor.registerWait node) := by
  simp [ReactorCall.fire, registerWait, setWait]

theorem registerWait_next (other : WaitId) : (reactor.registerWait node).next other =
    if other = node then reactor.m_head else reactor.next other := by
  simp only [next, registerWait, setWait, Function.update_apply]
  split <;> rfl

/-- `satisfied` and `registeredTime` are no pointers. -/
theorem setWait_next (reactor : TimelineReactor) (node : WaitId) (satisfied : Bool)
    (registeredTime : Int) :
    (reactor.setWait node { reactor.wait node with satisfied, registeredTime }).next =
      reactor.next := by
  funext other
  simp only [next, setWait, Function.update_apply]
  split
  next isNode => rw [isNode]
  next => rfl

/-- A registration of a node that is not in the list. -/
theorem registerWait_segment (segment : Segment reactor.next reactor.m_head listed)
    (fresh : node ∉ listed) :
    Segment (reactor.registerWait node).next (reactor.registerWait node).m_head
      (node :: listed) := by
  refine .cons ?_
  rw [registerWait_next, if_pos rfl]
  refine segment.congr fun other member => ?_
  rw [registerWait_next, if_neg]
  rintro rfl
  exact fresh member

/-- Registrations of different nodes that are not in the list. -/
theorem registerWaits_segment {now : Int} (segment : Segment reactor.next reactor.m_head listed)
    (distinct : nodes.Nodup) (fresh : ∀ node ∈ nodes, node ∉ listed) :
    Segment (reactor.registerWaits now nodes).next (reactor.registerWaits now nodes).m_head
      (nodes.reverse ++ listed) := by
  induction nodes generalizing reactor listed with
  | nil => exact segment
  | cons node nodes ih =>
      obtain ⟨isNew, distinct⟩ := List.nodup_cons.mp distinct
      rw [List.reverse_cons, List.append_assoc]
      refine ih (registerWait_segment (setWait_next reactor node false now ▸ segment)
        (fresh node (List.mem_cons_self ..))) distinct fun other member listed => ?_
      rcases List.mem_cons.mp listed with rfl | listed
      · exact isNew member
      · exact fresh other (List.mem_cons_of_mem _ member) listed

/-- `prepareRun` makes its wait nodes unsatisfied, and keeps what they wait for. -/
theorem registerWaits_wait {now : Int} (other : WaitId) :
    ((reactor.registerWaits now nodes).wait other).task = (reactor.wait other).task ∧
      ((reactor.registerWaits now nodes).wait other).satisfied =
        if other ∈ nodes then false else (reactor.wait other).satisfied := by
  induction nodes generalizing reactor with
  | nil => simp [registerWaits]
  | cons node nodes ih =>
      obtain ⟨task, satisfied⟩ := @ih ((reactor.setWait node
        { reactor.wait node with satisfied := false, registeredTime := now }).registerWait node)
      rw [registerWaits, task, satisfied]
      by_cases isNode : other = node
      · simp [isNode, registerWait, setWait]
      · simp [isNode, registerWait, setWait]

/-- The pointers from `m_head` on never come to an end. -/
def Endless (reactor : TimelineReactor) : Prop :=
  ∃ inside : Set WaitId, (∃ first ∈ inside, reactor.m_head = some first) ∧
    ∀ node ∈ inside, ∃ other ∈ inside, reactor.next node = some other

theorem Endless.not_segment (endless : reactor.Endless) :
    ¬ ∃ nodes, Segment reactor.next reactor.m_head nodes := by
  obtain ⟨inside, ⟨first, isInside, isHead⟩, closed⟩ := endless
  rintro ⟨nodes, segment⟩
  rw [isHead] at segment
  clear isHead
  induction nodes generalizing first with
  | nil => cases segment
  | cons node nodes ih =>
      cases segment with
      | cons rest =>
          obtain ⟨other, otherInside, isNext⟩ := closed node isInside
          rw [isNext] at rest
          exact ih other otherInside rest

/-- Registering a node that is in the list already makes the list endless. -/
theorem registerWait_endless (segment : Segment reactor.next reactor.m_head listed)
    (member : node ∈ listed) : (reactor.registerWait node).Endless := by
  obtain ⟨first, isHead⟩ := segment.start_of_mem member
  rw [isHead] at segment
  -- the nodes from which the pointers lead to `node`, as they were before
  refine ⟨{other | ∃ ahead, Segment reactor.next (some other) ahead ∧ node ∈ ahead},
    ⟨node, ?_, rfl⟩, ?_⟩
  · obtain ⟨ahead, leads⟩ := segment.from_mem member
    exact ⟨_, leads, List.mem_cons_self ..⟩
  · rintro other ⟨ahead, leads, isAhead⟩
    rw [registerWait_next]
    split
    next => exact ⟨first, ⟨listed, segment, member⟩, isHead⟩
    next different =>
      obtain ⟨rest, rfl, onward⟩ := leads.of_some
      have inRest := List.mem_of_ne_of_mem (Ne.symm different) isAhead
      obtain ⟨second, isNext⟩ := onward.start_of_mem inRest
      exact ⟨second, ⟨rest, isNext ▸ onward, inRest⟩, isNext⟩

/-- Further registrations do not bring the end back. -/
theorem Endless.registerWait (endless : reactor.Endless) : (reactor.registerWait node).Endless := by
  obtain ⟨inside, ⟨first, isInside, isHead⟩, closed⟩ := endless
  refine ⟨insert node inside, ⟨node, Set.mem_insert .., rfl⟩, fun other member => ?_⟩
  rw [registerWait_next]
  split
  next => exact ⟨first, Set.mem_insert_of_mem _ isInside, isHead⟩
  next different =>
    obtain ⟨second, secondInside, isNext⟩ :=
      closed other (Set.mem_of_mem_insert_of_ne member different)
    exact ⟨second, Set.mem_insert_of_mem _ secondInside, isNext⟩

theorem Endless.registerWaits {now : Int} (endless : reactor.Endless) :
    (reactor.registerWaits now nodes).Endless := by
  induction nodes generalizing reactor with
  | nil => exact endless
  | cons node nodes ih =>
      refine ih (Endless.registerWait ?_)
      rw [Endless, setWait_next]
      exact endless

/-- `prepareRun` makes the list endless when one of its wait nodes is in it. -/
theorem registerWaits_endless {now : Int}
    (segment : Segment reactor.next reactor.m_head listed)
    (relinked : ∃ node ∈ nodes, node ∈ listed) : (reactor.registerWaits now nodes).Endless := by
  induction nodes generalizing reactor listed with
  | nil => simp at relinked
  | cons node nodes ih =>
      have kept := setWait_next reactor node false now
      by_cases isLinked : node ∈ listed
      · exact (registerWait_endless (kept ▸ segment) isLinked).registerWaits
      · refine ih (registerWait_segment (kept ▸ segment) isLinked) ?_
        obtain ⟨other, member, otherLinked⟩ := relinked
        rcases List.mem_cons.mp member with rfl | member
        · exact absurd otherLinked isLinked
        · exact ⟨other, member, List.mem_cons_of_mem _ otherLinked⟩

end TimelineReactor

namespace ReactorCall

variable {reactor : TimelineReactor} {call : ReactorCall} {effect : ReactorEffect}

/-- The call is not a registration. -/
def isSweep : ReactorCall → Bool
  | .registering _ | .pushing _ _ | .counting _ => false
  | _ => true

/-- A sweep leaves the list and the tasks of its nodes as they are. -/
theorem sweep_keeps {answers : Answers} (sweeps : call.isSweep = true)
    (fired : call.fire reactor answers = some effect) :
    effect.call.isSweep = true ∧ effect.reactor.m_head = reactor.m_head ∧
      effect.reactor.next = reactor.next ∧
      ∀ node, (effect.reactor.wait node).task = (reactor.wait node).task := by
  have step := ReactorStep.of_fire fired
  have task (node : WaitId) := (ReactorLaw.wait_step step node).1
  cases step
  case request => cases fired
  case load | link | retry | count => cases sweeps
  case claim curr _ _ _ _ _ _ =>
    exact ⟨rfl, rfl, reactor.setWait_next curr true (reactor.wait curr).registeredTime, task⟩
  all_goals exact ⟨rfl, rfl, rfl, task⟩

/-- The call is at the store of `m_hasTimeout`. -/
def isFlagging : ReactorCall → Bool
  | .flagging _ _ => true
  | _ => false

/-- A sweep makes no wait node unsatisfied, and sets the timeout flag where it says so. -/
theorem sweep_sets {answers : Answers} (sweeps : call.isSweep = true)
    (fired : call.fire reactor answers = some effect) :
    (∀ node, (reactor.wait node).satisfied = true → (effect.reactor.wait node).satisfied = true) ∧
      effect.reactor.m_hasTimeout = (call.isFlagging || reactor.m_hasTimeout) := by
  have step := ReactorStep.of_fire fired
  cases step
  case request => cases fired
  case load | link | retry | count => cases sweeps
  case skip _ here =>
      refine ⟨fun _ satisfied => satisfied, ?_⟩
      rcases here with rfl | rfl <;> rfl
  case claim curr _ _ _ _ _ here =>
      refine ⟨fun node satisfied => ?_, ?_⟩
      · simp only [TimelineReactor.setWait, Function.update_apply]
        split
        next => rfl
        next => exact satisfied
      · rcases here with rfl | rfl <;> rfl
  all_goals exact ⟨fun _ satisfied => satisfied, rfl⟩

/-- Left alone, the call returns, whatever the environment answers. -/
inductive Returns : TimelineReactor → ReactorCall → Prop where
  | idle {reactor : TimelineReactor} : Returns reactor .idle
  | step {reactor : TimelineReactor} {call : ReactorCall}
      (moves : ∀ answers, (call.fire reactor answers).isSome = true)
      (onward : ∀ answers effect, call.fire reactor answers = some effect →
        Returns effect.reactor effect.call) : Returns reactor call

namespace Returns

variable {sweep : Sweep} {now : Int} {curr : WaitId} {result : Nat}

theorem onward (returns : Returns reactor call) (answers : Answers)
    (fired : call.fire reactor answers = some effect) : Returns effect.reactor effect.call := by
  cases returns with
  | idle => cases fired
  | step _ onward => exact onward answers effect fired

theorem of_calling (onward : ∀ result,
    Returns reactor (.visiting sweep now (reactor.next curr) result)) :
    Returns reactor (.calling sweep now curr result) := by
  refine .step (fun answers => ?_) fun answers effect fired => ?_
  · simp only [fire]
    split
    · rfl
    · split <;> rfl
  · simp only [fire] at fired
    split at fired
    · cases fired
      exact onward _
    · split at fired <;> cases fired <;> exact onward _

theorem of_releasing (onward : ∀ moved : TimelineReactor, moved.next = reactor.next →
      ∀ result, Returns moved (.visiting sweep now (reactor.next curr) result)) :
    Returns reactor (.releasing sweep now curr result) := by
  have calls (moved : TimelineReactor) (kept : moved.next = reactor.next) (result : Nat) :
      Returns moved (.calling sweep now curr result) :=
    of_calling fun result => by
      rw [kept]
      exact onward moved kept result
  refine .step (fun answers => ?_) fun answers effect fired => ?_
  · simp only [fire]
    split <;> rfl
  · simp only [fire] at fired
    split at fired
    next isTimeouts =>
      cases fired
      subst isTimeouts
      refine .step (fun answers => rfl) fun answers effect fired => ?_
      cases fired
      exact calls { reactor with
        m_pendingCount := u32Sub reactor.m_pendingCount 1, m_hasTimeout := true } rfl _
    next =>
      cases fired
      exact calls { reactor with m_pendingCount := u32Sub reactor.m_pendingCount 1 } rfl _

theorem of_claim {cause : Cause} (onward : ∀ moved : TimelineReactor, moved.next = reactor.next →
      ∀ result, Returns moved (.visiting sweep now (reactor.next curr) result)) :
    Returns (claim reactor sweep now curr result cause).reactor
      (claim reactor sweep now curr result cause).call := by
  simp only [claim]
  split
  next => exact onward reactor rfl result
  next =>
    have kept := reactor.setWait_next curr true (reactor.wait curr).registeredTime
    refine of_releasing fun moved same result => ?_
    have onward := onward moved (same.trans kept) result
    rwa [← kept] at onward

/-- A sweep in its loop returns when the list in front of it is finite. -/
theorem of_visiting {start : Option WaitId} {nodes : List WaitId}
    (segment : Segment reactor.next start nodes) :
    Returns reactor (.visiting sweep now start result) := by
  induction nodes generalizing reactor start result with
  | nil =>
      cases segment
      refine .step (fun answers => rfl) fun answers effect fired => ?_
      cases fired
      exact .idle
  | cons curr nodes ih =>
      cases segment with
      | cons rest =>
          have onward (moved : TimelineReactor) (kept : moved.next = reactor.next) (result : Nat) :
              Returns moved (.visiting sweep now (reactor.next curr) result) :=
            ih (kept ▸ rest)
          cases sweep with
          | notifyTimelineAdvanced handle completedValue =>
              refine .step (fun answers => ?_) fun answers effect fired => ?_
              · simp only [fire]
                split <;> rfl
              · simp only [fire] at fired
                split at fired <;> cases fired
                · exact of_claim onward
                · exact onward reactor rfl result
          | pollDevice =>
              refine .step (fun answers => ?_) fun answers effect fired => ?_
              · simp only [fire]
                split <;> rfl
              · simp only [fire] at fired
                split at fired <;> cases fired
                · exact onward reactor rfl result
                · refine .step (fun answers => ?_) fun answers effect fired => ?_
                  · simp only [fire]
                    split <;> rfl
                  · simp only [fire] at fired
                    split at fired <;> cases fired
                    · exact of_claim onward
                    · exact onward reactor rfl result
          | checkTimeouts =>
              refine .step (fun answers => ?_) fun answers effect fired => ?_
              · simp only [fire]
                split <;> rfl
              · simp only [fire] at fired
                split at fired <;> cases fired
                · refine .step (fun answers => rfl) fun answers effect fired => ?_
                  cases fired
                  exact of_claim onward
                · exact onward reactor rfl result

/-- A sweep over a finite list returns. -/
theorem of_segment {nodes : List WaitId} (sweep : Sweep)
    (segment : Segment reactor.next reactor.m_head nodes) : Returns reactor (.testing sweep) := by
  refine .step (fun answers => ?_) fun answers effect fired => ?_
  · simp only [fire]
    split <;> rfl
  · simp only [fire] at fired
    split at fired <;> cases fired
    · refine .step (fun answers => rfl) fun answers effect fired => ?_
      cases fired
      exact of_visiting segment
    · exact .idle

end Returns

end ReactorCall

/-! ## Threads that sweep -/

/-- What a thread may do with the reactor: begin a sweep, or go on with it. -/
inductive SweepChoice where
  | sweep (sweep : Sweep)
  | go (answers : Answers)
  deriving DecidableEq, Repr

/-- One step of a sweep. -/
def TimelineReactor.fireSweep (reactor : TimelineReactor) : ReactorCall → SweepChoice →
    Option (TimelineReactor × ReactorCall)
  | .idle, .sweep sweep => some (reactor, .testing sweep)
  | call, .go answers =>
      (call.fire reactor answers).map fun effect => (effect.reactor, effect.call)
  | _, _ => none

theorem TimelineReactor.exists_of_fireSweep {reactor next : TimelineReactor}
    {call moved : ReactorCall} {answers : Answers}
    (fired : reactor.fireSweep call (.go answers) = some (next, moved)) :
    ∃ effect, call.fire reactor answers = some effect ∧ effect.reactor = next ∧
      effect.call = moved := by
  cases call <;> simpa [fireSweep] using fired

/-- A sweep leaves the list and the tasks of its nodes as they are. -/
theorem TimelineReactor.fireSweep_keeps {reactor next : TimelineReactor}
    {call moved : ReactorCall} {choice : SweepChoice} (sweeps : call.isSweep = true)
    (fired : reactor.fireSweep call choice = some (next, moved)) :
    moved.isSweep = true ∧ next.m_head = reactor.m_head ∧ next.next = reactor.next ∧
      ∀ node, (next.wait node).task = (reactor.wait node).task := by
  cases choice with
  | sweep sweep =>
      cases call <;> cases fired
      exact ⟨rfl, rfl, rfl, fun _ => rfl⟩
  | go answers =>
      obtain ⟨effect, performed, rfl, rfl⟩ := exists_of_fireSweep fired
      exact ReactorCall.sweep_keeps sweeps performed

/-- A sweep makes no wait node unsatisfied, and sets the timeout flag where it says so. -/
theorem TimelineReactor.fireSweep_sets {reactor next : TimelineReactor}
    {call moved : ReactorCall} {choice : SweepChoice} (sweeps : call.isSweep = true)
    (fired : reactor.fireSweep call choice = some (next, moved)) :
    (∀ node, (reactor.wait node).satisfied = true → (next.wait node).satisfied = true) ∧
      next.m_hasTimeout = (call.isFlagging || reactor.m_hasTimeout) := by
  cases choice with
  | sweep sweep =>
      cases call <;> cases fired
      exact ⟨fun _ satisfied => satisfied, rfl⟩
  | go answers =>
      obtain ⟨effect, performed, rfl, rfl⟩ := exists_of_fireSweep fired
      exact ReactorCall.sweep_sets sweeps performed

end LightFlow
