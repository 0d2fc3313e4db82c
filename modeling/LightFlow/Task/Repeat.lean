import LightFlow.Task.Nesting

/-!
# Running a graph again

Runs of a graph with subflows, however they are scheduled and however often the graph ran
before, execute the same nodes.
-/

namespace LightFlow

section Repeat

variable {graph : TaskGraph} {callables : Callables}

theorem mem_live_iff {node : NodeId} {log : List Event} :
    node ∈ live graph callables log ↔ node ∈ graph.order ∨
      ∃ parent, .spliced parent ∈ log ∧ node ∈ (callables.subflow parent).members parent := by
  constructor
  · intro inRun
    induction log with
    | nil => exact .inl inRun
    | cons event log ih =>
        have later : node ∈ live graph callables log → node ∈ graph.order ∨
            ∃ parent, .spliced parent ∈ event :: log ∧
              node ∈ (callables.subflow parent).members parent := fun isOld =>
          (ih isOld).imp_right fun ⟨parent, spliced, isMember⟩ =>
            ⟨parent, List.mem_cons_of_mem _ spliced, isMember⟩
        cases event with
        | spliced parent =>
            rcases List.mem_append.mp inRun with isMember | isOld
            · exact .inr ⟨parent, List.mem_cons_self .., isMember⟩
            · exact later isOld
        | _ => exact later inRun
  · rintro (inOrder | ⟨parent, spliced, isMember⟩)
    · exact mem_live_of_mem_order inOrder log
    · exact mem_live_of_spliced spliced isMember

/-- What is known of a workload at the end of a run. -/
structure Final (graph : TaskGraph) (callables : Callables) (load : Workload) : Prop where
  balanced : ∃ need got, Ledger graph callables need got load
  calls : Calls graph callables load
  answered : Answered callables load.shared
  done : load.shared.m_pendingTasks = 0

namespace Final

variable {load other : Workload}

theorem spliced_iff (final : Final graph callables load) {node : NodeId} :
    .spliced node ∈ load.shared.log ↔
      .executed node ∈ load.shared.log ∧ Grows graph callables node := by
  obtain ⟨need, got, ledger⟩ := final.balanced
  constructor
  · intro spliced
    obtain ⟨executed, isSubflow⟩ := ledger.splices node spliced
    exact ⟨executed, isSubflow, final.calls.nonempty node spliced⟩
  · rintro ⟨executed, grows⟩
    exact final.calls.spliced node executed grows

/-- What comes before a node in the tree of subflows and along edges. -/
abbrev Before (graph : TaskGraph) (callables : Callables) (source target : NodeId) : Prop :=
  Leads graph callables source target ∨
    (∃ index, target = .child source index) ∨ target = .exit source

/-- The two ends agree on the nodes before `node`. -/
def Agree (graph : TaskGraph) (callables : Callables) (load other : Workload) (node : NodeId) :
    Prop :=
  ∀ source ∈ live graph callables load.shared.log, Before graph callables source node →
    source ∈ live graph callables other.shared.log ∧
      (.executed source ∈ load.shared.log ↔ .executed source ∈ other.shared.log)

theorem mem_live_of_agree (final : Final graph callables load)
    (final' : Final graph callables other)
    {node : NodeId} (agree : Agree graph callables load other node)
    (inRun : node ∈ live graph callables load.shared.log) :
    node ∈ live graph callables other.shared.log := by
  obtain ⟨need, got, ledger⟩ := final.balanced
  rcases mem_live_iff.mp inRun with inOrder | ⟨parent, spliced, isMember⟩
  · exact mem_live_of_mem_order inOrder _
  · obtain ⟨executed, grows⟩ := final.spliced_iff.mp spliced
    have above : Before graph callables parent node := by
      rcases ChildGraph.mem_members.mp isMember with ⟨index, -, rfl⟩ | ⟨-, rfl⟩
      · exact .inr (.inl ⟨index, rfl⟩)
      · exact .inr (.inr rfl)
    have same := (agree parent (ledger.mem_live_of_executed executed) above).2
    exact mem_live_of_spliced (final'.spliced_iff.mpr ⟨same.mp executed, grows⟩) isMember

theorem executed_of_agree (steady : ∀ node first second,
      callables.result node first = callables.result node second)
    (final : Final graph callables load) (final' : Final graph callables other) {node : NodeId}
    (agree : Agree graph callables load other node)
    (inRun : node ∈ live graph callables other.shared.log)
    (executed : .executed node ∈ load.shared.log) : .executed node ∈ other.shared.log := by
  obtain ⟨need, got, ledger⟩ := final.balanced
  obtain ⟨need', got', ledger'⟩ := final'.balanced
  refine (ledger'.executed_iff final'.done inRun).mpr ?_
  refine ((ledger.executed_iff final.done (ledger.mem_live_of_executed executed)).mp
    executed).imp_right ?_
  rintro ⟨source, sourceInRun, sourceExecuted, edge, inEdges, isTarget, taken⟩
  obtain ⟨sameType, -, successors⟩ := ledger.shape source sourceInRun
  rw [successors] at inEdges
  split at inEdges
  next => simp at inEdges
  next unmoved =>
    obtain ⟨sourceInOther, same⟩ := agree source sourceInRun (.inl ⟨edge, inEdges, isTarget⟩)
    obtain ⟨sameType', -, successors'⟩ := ledger'.shape source sourceInOther
    have unmoved' : ¬ Moved callables other.shared.log source := fun moved => by
      obtain ⟨executed', grows⟩ := final'.spliced_iff.mp moved.1
      exact unmoved ⟨final.spliced_iff.mpr ⟨same.mpr executed', grows⟩, moved.2⟩
    refine ⟨source, sourceInOther, same.mp sourceExecuted, edge, ?_, isTarget, ?_⟩
    · rw [successors', if_neg unmoved']
      exact inEdges
    · rw [chosenBranch, sameType']
      rw [chosenBranch, sameType] at taken
      split at taken
      next isCondition =>
        rw [final.answered source sourceExecuted (sameType.trans isCondition)] at taken
        rw [if_pos isCondition,
          final'.answered source (same.mp sourceExecuted) (sameType'.trans isCondition),
          steady source _ (load.shared.calls source - 1)]
        exact taken
      next notCondition => exact if_neg notCondition ▸ taken

/-- Any two runs of a graph execute the same nodes. -/
theorem executed_iff (sound : graph.Sound) (childSound : ∀ parent, (callables.subflow parent).Sound)
    (steady : ∀ node first second, callables.result node first = callables.result node second)
    (final : Final graph callables load) (final' : Final graph callables other) (node : NodeId) :
    .executed node ∈ load.shared.log ↔ .executed node ∈ other.shared.log := by
  obtain ⟨need, got, ledger⟩ := final.balanced
  obtain ⟨need', got', ledger'⟩ := final'.balanced
  have along := (nesting_cycleless sound childSound).induction_on
    (live graph callables load.shared.log ++ live graph callables other.shared.log).toFinset
    (motive := fun node => (node ∈ live graph callables load.shared.log ↔
        node ∈ live graph callables other.shared.log) ∧
      (.executed node ∈ load.shared.log ↔ .executed node ∈ other.shared.log)) ?_
  · by_cases inRuns : node ∈
        (live graph callables load.shared.log ++ live graph callables other.shared.log).toFinset
    · exact (along node inRuns).2
    · rw [List.mem_toFinset, List.mem_append, not_or] at inRuns
      exact ⟨fun executed => absurd (ledger.mem_live_of_executed executed) inRuns.1,
        fun executed => absurd (ledger'.mem_live_of_executed executed) inRuns.2⟩
  intro node _ before
  simp only [List.mem_toFinset, List.mem_append] at before
  have agree : Agree graph callables load other node := fun source inRun above =>
    ⟨(before source (.inl inRun) above).1.mp inRun, (before source (.inl inRun) above).2⟩
  have agree' : Agree graph callables other load node := fun source inRun above =>
    ⟨(before source (.inr inRun) above).1.mpr inRun, (before source (.inr inRun) above).2.symm⟩
  refine ⟨⟨final.mem_live_of_agree final' agree, final'.mem_live_of_agree final agree'⟩,
    fun executed => ?_, fun executed => ?_⟩
  · exact executed_of_agree steady final final' agree
      (final.mem_live_of_agree final' agree (ledger.mem_live_of_executed executed)) executed
  · exact executed_of_agree steady final' final agree'
      (final'.mem_live_of_agree final agree' (ledger'.mem_live_of_executed executed)) executed

end Final

end Repeat

end LightFlow
