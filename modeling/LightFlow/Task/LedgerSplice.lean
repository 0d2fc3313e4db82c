import LightFlow.Task.LedgerStep

/-!
# Splicing keeps the ledger

`splice` adds nodes to the run: the children and the exit barrier, each waiting for its
child edges.  The successors the subflow node gives away are the ones its exit takes
over, so no other node's dependencies change.
-/

namespace LightFlow

section Splice

variable {graph : TaskGraph} {callables : Callables} {need got : NodeId → Nat}
  {shared : Shared} {ready : Multiset NodeId} {rest : Multiset Frame} {node : NodeId}

/-- A node that `splice` made is in the run only after its subflow was spliced. -/
theorem spliced_of_mem_live (sound : graph.Sound) {log : List Event} {parent member : NodeId}
    (inRun : member ∈ live graph callables log)
    (made : (∃ index, member = .child parent index) ∨ member = .exit parent) :
    .spliced parent ∈ log ∧ member ∈ (callables.subflow parent).members parent := by
  induction log with
  | nil =>
      obtain ⟨id, equal⟩ := sound.named member inRun
      rcases made with ⟨index, rfl⟩ | rfl <;> simp at equal
  | cons event log ih =>
      cases event with
      | spliced other =>
          rcases List.mem_append.mp inRun with isNew | isOld
          · have same : other = parent := by
              rcases ChildGraph.mem_members.mp isNew with ⟨index, -, rfl⟩ | ⟨-, rfl⟩
              · rcases made with ⟨index, equal⟩ | equal <;> simp_all
              · rcases made with ⟨index, equal⟩ | equal <;> simp_all
            subst same
            exact ⟨List.mem_cons_self .., isNew⟩
          · obtain ⟨earlier, member⟩ := ih isOld
            exact ⟨List.mem_cons_of_mem _ earlier, member⟩
      | _ =>
          obtain ⟨earlier, member⟩ := ih inRun
          exact ⟨List.mem_cons_of_mem _ earlier, member⟩

theorem Ledger.not_called
    (ledger : Ledger graph callables need got ⟨shared, ready, .calling node ::ₘ rest⟩) :
    .executed node ∉ shared.log ∧ .spliced node ∉ shared.log := by
  have notExecuted : .executed node ∉ shared.log := fun executed => by
    have past : 0 < passed .called node shared.log :=
      List.countP_pos_iff.mpr ⟨_, executed, by simp [Event.passes]⟩
    simpa using ledger.count_owes_eq_zero_of_passed past
  exact ⟨notExecuted, fun spliced => notExecuted (ledger.splices node spliced).1⟩

/-- The members are new to the run. -/
theorem Ledger.members_fresh (sound : graph.Sound)
    (ledger : Ledger graph callables need got ⟨shared, ready, .calling node ::ₘ rest⟩)
    {member : NodeId} (isMember : member ∈ (callables.subflow node).members node) :
    member ∉ live graph callables shared.log := by
  intro inRun
  refine ledger.not_called.2 (spliced_of_mem_live sound inRun ?_).1
  rcases ChildGraph.mem_members.mp isMember with ⟨index, -, rfl⟩ | ⟨-, rfl⟩
  · exact .inl ⟨index, rfl⟩
  · exact .inr rfl

/-- Nobody has any business with a node outside the run. -/
theorem Ledger.outside {load : Workload} (ledger : Ledger graph callables need got load)
    {outsider : NodeId} (outside : outsider ∉ live graph callables load.shared.log) :
    need outsider = 0 ∧ got outsider = 0 ∧ ∀ milestone,
      load.awaiting milestone outsider = 0 ∧ passed milestone outsider load.shared.log = 0 := by
  have law (milestone : Milestone) := ledger.passage milestone outsider
  rw [List.count_eq_zero_of_not_mem outside] at law
  refine ⟨waiting_eq_zero.mp (by have := law .called; omega), ?_, fun milestone => ?_⟩
  · have active := ledger.active outsider
    have none : completedActive graph callables load.shared outsider = 0 := by
      refine Counting.sum_map_eq_zero fun source inRun => ?_
      have noEdge : Frame.taken (chosenBranch (load.shared.node source)) outsider
          (load.shared.node source).successors = 0 := by
        rw [Frame.taken, List.countP_eq_zero]
        intro edge inEdges
        rw [(ledger.shape source inRun).2.2] at inEdges
        split at inEdges
        · simp at inEdges
        · have := ledger.targets source inRun edge inEdges
          simp only [Bool.and_eq_true, decide_eq_true_eq, not_and]
          rintro rfl
          exact absurd this outside
      rw [noEdge, Nat.mul_zero]
    omega
  · have := law milestone
    omega

theorem Ledger.mem_live_of_executed {load : Workload}
    (ledger : Ledger graph callables need got load) {executed : NodeId}
    (inLog : .executed executed ∈ load.shared.log) :
    executed ∈ live graph callables load.shared.log := by
  by_contra outside
  have none := ((ledger.outside outside).2.2 .called).2
  rw [passed_called] at none
  have := List.count_pos_iff.mpr inLog
  omega

/-! ## The store after a splice -/

theorem Ledger.store_of_live (sound : graph.Sound)
    (ledger : Ledger graph callables need got ⟨shared, ready, .calling node ::ₘ rest⟩)
    {other : NodeId} (inRun : other ∈ live graph callables shared.log) (notSelf : other ≠ node) :
    Subflow.spliceStore shared.node node (callables.subflow node) other = shared.node other := by
  refine Subflow.spliceStore_of_ne _ _ _ notSelf
    (fun isMember => ledger.members_fresh sound isMember inRun) fun index equal => ?_
  exact ledger.not_called.2 (spliced_of_mem_live sound inRun (.inl ⟨index, equal⟩)).1

/-- Successors of the new nodes, counted together: child edges, and the edges that the
exit takes over. -/
theorem sum_members (store : NodeStore) {children : ChildGraph} (valid : children.Valid)
    (target : NodeId) :
    ((children.members node).map fun member =>
        edgesInto target (Subflow.spliceStore store node children member).successors).sum =
      (if target ∈ children.members node then children.memberNeed target else 0) +
        if children.mode = .spliced then edgesInto target (store node).successors else 0 := by
  have ofChildren : ((children.childIds node).map fun member =>
        edgesInto target (Subflow.spliceStore store node children member).successors).sum =
      if target ∈ children.members node then children.memberNeed target else 0 := by
    rw [← ChildGraph.sum_childSuccessors valid, ChildGraph.childIds, List.map_map]
    refine Counting.sum_map_congr fun index member => ?_
    simp [Subflow.spliceStore_child store node children (List.mem_range.mp member)]
  conv_lhs => rw [ChildGraph.members, List.map_append, List.sum_append, ofChildren]
  cases mode : children.mode with
  | detached => simp
  | spliced => simp [Subflow.spliceStore_exit store node children, mode]
  | joined => simp [Subflow.spliceStore_exit store node children, mode]

theorem Ledger.splice_remaining (sound : graph.Sound)
    (ledger : Ledger graph callables need got ⟨shared, ready, .calling node ::ₘ rest⟩)
    {children : ChildGraph} (built : callables.subflow node = children)
    (valid : children.Valid) (target : NodeId) :
    remaining graph callables .released (.spliced node :: .executed node :: shared.log)
        (fun source =>
          edgesInto target (Subflow.spliceStore shared.node node children source).successors) =
      remaining graph callables .released shared.log
          (fun source => edgesInto target (shared.node source).successors) +
        if target ∈ children.members node then children.memberNeed target else 0 := by
  subst built
  have inRun : node ∈ live graph callables shared.log :=
    ledger.mem_live_of_owes (show 0 < List.count node (Frame.owes .called _) by simp)
  have unreleased : passed .released node shared.log = 0 := by
    by_contra past
    simpa using ledger.count_owes_eq_zero_of_passed (Nat.pos_of_ne_zero past)
  have sameHistory (other : NodeId) :
      passed .released other (.spliced node :: .executed node :: shared.log) =
        passed .released other shared.log := by simp [Event.passes]
  -- The new nodes are unreleased, and among the others only the subflow node changed.
  have ofMembers : (((callables.subflow node).members node).map fun source =>
        if passed .released source shared.log = 0 then edgesInto target (Subflow.spliceStore
          shared.node node (callables.subflow node) source).successors else 0).sum =
      (((callables.subflow node).members node).map fun source => edgesInto target
        (Subflow.spliceStore shared.node node (callables.subflow node) source).successors).sum :=
    Counting.sum_map_congr fun member isMember => by
      rw [((ledger.outside (ledger.members_fresh sound isMember)).2.2 .released).2, if_pos rfl]
  have replaced := Counting.sum_map_replace (live graph callables shared.log) node
    (fun other isLive notSelf => by rw [ledger.store_of_live sound isLive notSelf] :
      ∀ other ∈ live graph callables shared.log, other ≠ node →
        (if passed .released other shared.log = 0 then edgesInto target (Subflow.spliceStore
          shared.node node (callables.subflow node) other).successors else 0) =
        if passed .released other shared.log = 0 then
          edgesInto target (shared.node other).successors else 0)
  rw [List.count_eq_one_of_mem ledger.distinct inRun, unreleased, if_pos rfl, if_pos rfl,
    Subflow.spliceStore_parent] at replaced
  simp only [remaining, sameHistory]
  simp only [live, List.map_append, List.sum_append, ofMembers, sum_members shared.node valid]
  by_cases moved : (callables.subflow node).mode = .spliced <;>
    simp [moved] at replaced ⊢ <;> omega

theorem Ledger.splice_completed (sound : graph.Sound)
    (ledger : Ledger graph callables need got ⟨shared, ready, .calling node ::ₘ rest⟩)
    {after : Shared} (log : after.log = .spliced node :: .executed node :: shared.log)
    (store : after.node = Subflow.spliceStore shared.node node (callables.subflow node))
    (target : NodeId) :
    completedActive graph callables after target =
      completedActive graph callables shared target := by
  have neverCompleted {other : NodeId} (past : passed .settled other shared.log = 0) :
      shared.log.count (.completed other) = 0 :=
    List.count_eq_zero_of_not_mem fun completed =>
      absurd past (Nat.ne_of_gt (passed_settled_of_completed completed))
  have ofSelf : shared.log.count (.completed node) = 0 := by
    refine neverCompleted ?_
    by_contra past
    simpa using ledger.count_owes_eq_zero_of_passed (Nat.pos_of_ne_zero past)
  simp only [completedActive, log, store, live, List.map_append, List.sum_append,
    List.count_cons, beq_iff_eq, reduceCtorEq, ↓reduceIte, Nat.add_zero]
  rw [Counting.sum_map_eq_zero, Nat.zero_add]
  · refine Counting.sum_map_congr fun other isLive => ?_
    by_cases isSelf : other = node
    · rw [isSelf, ofSelf, Nat.zero_mul, Nat.zero_mul]
    · rw [ledger.store_of_live sound isLive isSelf]
  · intro member isMember
    rw [neverCompleted ((ledger.outside (ledger.members_fresh sound isMember)).2.2 .settled).2,
      Nat.zero_mul]

theorem length_spliceRoots_le (store : NodeStore) (parent : NodeId) (children : ChildGraph) :
    (spliceRoots store parent children).length ≤ (children.members parent).length := by
  refine (List.length_filter_le _ _).trans ?_
  rw [ChildGraph.members, List.length_append]
  exact Nat.le_add_right _ _

theorem mem_spliceRoots {store : NodeStore} {children : ChildGraph} {root : NodeId} :
    root ∈ spliceRoots (Subflow.spliceStore store node children) node children ↔
      ∃ index < children.nodes.length,
        root = .child node index ∧ u32 (children.childInDegree index) = 0 := by
  simp only [spliceRoots, List.mem_filter, ChildGraph.mem_childIds, decide_eq_true_eq]
  constructor
  · rintro ⟨⟨index, inBounds, rfl⟩, free⟩
    rw [Subflow.spliceStore_child store node children inBounds] at free
    exact ⟨index, inBounds, rfl, free⟩
  · rintro ⟨index, inBounds, rfl, free⟩
    refine ⟨⟨index, inBounds, rfl⟩, ?_⟩
    rw [Subflow.spliceStore_child store node children inBounds]
    exact free

theorem spliceRoots_nodup (store : NodeStore) (children : ChildGraph) :
    (spliceRoots store node children).Nodup :=
  (children.childIds_nodup node).filter _

/-- A new node is one of the roots or waits, exactly one of the two. -/
theorem waiting_memberNeed (store : NodeStore) {children : ChildGraph} (sound : children.Sound)
    (nonempty : children.nodes ≠ []) {member : NodeId}
    (isMember : member ∈ children.members node) :
    waiting (children.memberNeed member) +
      (spliceRoots (Subflow.spliceStore store node children) node children).count member = 1 := by
  rcases ChildGraph.mem_members.mp isMember with ⟨index, inBounds, rfl⟩ | ⟨attached, rfl⟩
  · have narrow := sound.narrow index
    have exact : u32 (children.childInDegree index) = children.childInDegree index :=
      u32_of_lt (by omega)
    by_cases free : children.childInDegree index = 0
    · have isRoot : .child node index ∈
          spliceRoots (Subflow.spliceStore store node children) node children :=
        mem_spliceRoots.mpr ⟨index, inBounds, rfl, by rw [exact, free]⟩
      rw [List.count_eq_one_of_mem (spliceRoots_nodup _ _) isRoot]
      simp [ChildGraph.memberNeed, free]
    · have notRoot : .child node index ∉
          spliceRoots (Subflow.spliceStore store node children) node children := fun isRoot => by
        obtain ⟨other, -, equal, zero⟩ := mem_spliceRoots.mp isRoot
        cases equal
        exact free (exact ▸ zero)
      rw [List.count_eq_zero_of_not_mem notRoot]
      simp [ChildGraph.memberNeed, waiting, free]
  · have notRoot : .exit node ∉
        spliceRoots (Subflow.spliceStore store node children) node children := fun isRoot => by
      obtain ⟨other, -, equal, -⟩ := mem_spliceRoots.mp isRoot
      cases equal
    rw [List.count_eq_zero_of_not_mem notRoot]
    simp [ChildGraph.memberNeed, waiting_of_pos (ChildGraph.sinkCount_pos sound nonempty)]

theorem declared_degree {member : NodeId}
    (isMember : member ∈ (callables.subflow node).members node) :
    (declared graph callables member).initialInDegree =
      u32 ((callables.subflow node).memberNeed member) := by
  rcases ChildGraph.mem_members.mp isMember with ⟨index, -, rfl⟩ | ⟨-, rfl⟩ <;> rfl

/-- A spliced member is stored the way it is declared. -/
theorem spliceStore_declared (graph : TaskGraph) (store : NodeStore) {member : NodeId}
    (isMember : member ∈ (callables.subflow node).members node) :
    let stored := Subflow.spliceStore store node (callables.subflow node) member
    stored.type = (declared graph callables member).type ∧
      stored.initialInDegree = (declared graph callables member).initialInDegree ∧
      stored.inDegree = u32 ((callables.subflow node).memberNeed member) ∧
      ((store node).successors = (declared graph callables node).successors →
        stored.successors = (declared graph callables member).successors) := by
  rcases ChildGraph.mem_members.mp isMember with ⟨index, inBounds, rfl⟩ | ⟨attached, rfl⟩
  · simp [Subflow.spliceStore_child store node _ inBounds, declared, inBounds,
      ChildGraph.memberNeed]
  · simp only [Subflow.spliceStore_exit store node _ attached, declared, ChildGraph.memberNeed,
      true_and]
    intro same
    rw [same]

theorem ChildGraph.memberNeed_le {children : ChildGraph} (sound : children.Sound)
    (member : NodeId) :
    children.memberNeed member ≤ 2 ^ 16 := by
  cases member with
  | child parent index => exact sound.narrow index
  | _ => exact sound.narrowExit

/-- Splicing a sound child graph keeps the ledger. -/
theorem Ledger.splice (sound : graph.Sound)
    (ledger : Ledger graph callables need got ⟨shared, ready, .calling node ::ₘ rest⟩)
    (isSubflow : (shared.node node).type = .subflow)
    (childSound : (callables.subflow node).Sound)
    (nonempty : (callables.subflow node).nodes ≠ [])
    (fits : shared.m_pendingTasks + (callables.subflow node).nodes.length + 1 < 2 ^ 32) :
    Ledger graph callables
      (fun query => if query ∈ (callables.subflow node).members node then
        (callables.subflow node).memberNeed query else need query) got
      (Effect.load
        { shared := (executeFn callables shared node).1
          frames := (executeFn callables shared node).2 } ready rest) := by
  obtain ⟨frames, log, store, pending⟩ := executeFn_of_splices isSubflow nonempty fits
  generalize (executeFn callables shared node).1 = after at *
  generalize (executeFn callables shared node).2 = afterFrames at *
  subst frames
  have inRun : node ∈ live graph callables shared.log :=
    ledger.mem_live_of_owes (show 0 < List.count node (Frame.owes .called _) by simp)
  have fresh {member : NodeId} (isMember : member ∈ (callables.subflow node).members node) :=
    ledger.members_fresh sound isMember
  have nowLive : live graph callables after.log =
      (callables.subflow node).members node ++ live graph callables shared.log := by
    rw [log]
    rfl
  have notMember {other : NodeId} (isLive : other ∈ live graph callables shared.log) :
      other ∉ (callables.subflow node).members node := fun isMember => fresh isMember isLive
  have unmoved : (shared.node node).successors = (declared graph callables node).successors := by
    rw [(ledger.shape node inRun).2.2, if_neg fun moved => ledger.not_called.2 moved.1]
  refine
    { distinct := ?distinct
      passage := fun milestone query => ?passage
      edges := fun target => ?edges
      active := fun target => ?active
      packed := fun query isLive => ?packed
      fits := fun query => ?fits
      free := fun query isLive isFree => ?free
      willRun := fun query some => ?willRun
      willSkip := fun query some => ?willSkip
      status := fun query => ?status
      shape := fun query isLive => ?shape
      targets := fun query isLive edge inEdges => ?targets
      forward := fun frame inFrames => ?forward
      within := fun frame inFrames query within => ?within
      pending := ?pending
      splices := fun query spliced => ?splices }
  case distinct =>
    rw [nowLive]
    exact List.nodup_append.mpr ⟨(callables.subflow node).members_nodup node, ledger.distinct,
      fun member isMember other isLive equal => fresh isMember (equal ▸ isLive)⟩
  case passage =>
    have before := ledger.passage milestone query
    rw [awaiting_cons] at before
    rw [awaiting_load _ ready rest shared, nowLive, List.count_append, log]
    by_cases isMember : query ∈ (callables.subflow node).members node
    · have single := List.count_eq_one_of_mem ((callables.subflow node).members_nodup node) isMember
      have waits := waiting_memberNeed shared.node childSound nonempty isMember
      obtain ⟨none, -, nobody⟩ := ledger.outside (fresh isMember)
      have notSelf : node ≠ query := fun equal => fresh (equal ▸ isMember) inRun
      have nobodyHere := nobody milestone
      rw [awaiting_cons] at nobodyHere
      rw [List.count_eq_zero_of_not_mem (fresh isMember)] at before ⊢
      dsimp only at nobodyHere
      cases milestone <;> simp [isMember, single, Event.passes, notSelf] at * <;> omega
    · rw [List.count_eq_zero_of_not_mem isMember]
      have notRoot : query ∉ spliceRoots (Subflow.spliceStore shared.node node
          (callables.subflow node)) node (callables.subflow node) := fun isRoot => by
        obtain ⟨index, inBounds, rfl, -⟩ := mem_spliceRoots.mp isRoot
        exact isMember (ChildGraph.mem_members.mpr (.inl ⟨index, inBounds, rfl⟩))
      cases milestone <;>
        simp [isMember, List.count_eq_zero_of_not_mem notRoot, Event.passes,
          List.count_singleton] at before ⊢ <;> omega
  case edges =>
    have before := ledger.edges target
    have change := ledger.splice_remaining sound rfl childSound.valid target
    simp only [Multiset.map_cons, Multiset.sum_cons] at before
    simp only [log, store, change, Multiset.map_add, Multiset.sum_add, Multiset.map_coe,
      Multiset.sum_coe]
    by_cases isMember : target ∈ (callables.subflow node).members node
    · have none := (ledger.outside (fresh isMember)).1
      simp [isMember] at before ⊢
      omega
    · simp [isMember] at before ⊢
      omega
  case active =>
    have before := ledger.active target
    rw [ledger.splice_completed sound log store target]
    simpa using before
  case packed =>
    rw [nowLive] at isLive
    rcases List.mem_append.mp isLive with isMember | isOld
    · obtain ⟨-, -, inDegree, -⟩ :=
        spliceStore_declared graph shared.node isMember
      simp only [store, isMember, ↓reduceIte, (ledger.outside (fresh isMember)).2.1]
      rw [Packed, inDegree, Nat.mul_zero, Nat.add_zero]
    · simp only [store, notMember isOld, ↓reduceIte]
      by_cases isSelf : query = node
      · rw [isSelf, Subflow.spliceStore_parent]
        exact ledger.packed node inRun
      · rw [ledger.store_of_live sound isOld isSelf]
        exact ledger.packed query isOld
  case fits =>
    by_cases isMember : query ∈ (callables.subflow node).members node
    · simp only [isMember, ↓reduceIte, (ledger.outside (fresh isMember)).2.1, Nat.add_zero]
      exact ChildGraph.memberNeed_le childSound query
    · simpa only [isMember, ↓reduceIte] using ledger.fits query
  case free =>
    rw [nowLive] at isLive
    rcases List.mem_append.mp isLive with isMember | isOld
    · have narrow := ChildGraph.memberNeed_le childSound query
      rw [declared_degree isMember, u32_of_lt (by omega)] at isFree
      simp only [isMember, ↓reduceIte, isFree]
    · simp only [notMember isOld, ↓reduceIte]
      exact ledger.free query isOld isFree
  case willRun =>
    have before := ledger.willRun query
    by_cases isRoot : query ∈ spliceRoots (Subflow.spliceStore shared.node node
        (callables.subflow node)) node (callables.subflow node)
    · obtain ⟨index, inBounds, rfl, free⟩ := mem_spliceRoots.mp isRoot
      exact .inl free
    · refine before ?_
      simp [log, isRoot] at some ⊢
      grind
  case willSkip =>
    refine ledger.willSkip query ?_
    simpa [log, List.count_cons] using some
  case status =>
    have before := ledger.status query
    have unsettled (settled : 0 < passed .settled query shared.log) :
        query ∈ live graph callables shared.log ∧ query ≠ node := by
      constructor
      · by_contra outside
        exact absurd ((ledger.outside outside).2.2 .settled).2 (Nat.ne_of_gt settled)
      · rintro rfl
        simpa using ledger.count_owes_eq_zero_of_passed settled
    simp only [log, store, List.mem_cons, reduceCtorEq, false_or]
    constructor
    · intro completed
      obtain ⟨isOld, notSelf⟩ := unsettled (passed_settled_of_completed completed)
      rw [ledger.store_of_live sound isOld notSelf]
      exact before.1 completed
    · intro skipped
      obtain ⟨isOld, notSelf⟩ := unsettled (passed_settled_of_skipped skipped)
      rw [ledger.store_of_live sound isOld notSelf]
      exact before.2 skipped
  case shape =>
    have sameMoved (other : NodeId) (notSelf : other ≠ node) :
        Moved callables after.log other ↔ Moved callables shared.log other := by
      simp [Moved, log, notSelf]
    rw [nowLive] at isLive
    rcases List.mem_append.mp isLive with isMember | isOld
    · have notSelf : query ≠ node := fun equal => fresh isMember (equal ▸ inRun)
      obtain ⟨sameType, degree, -, successors⟩ :=
        spliceStore_declared graph shared.node isMember
      have unmovedMember : ¬ Moved callables shared.log query := fun moved =>
        fresh isMember (ledger.mem_live_of_executed (ledger.splices query moved.1).1)
      simp only [store, sameMoved query notSelf, unmovedMember, ↓reduceIte]
      exact ⟨sameType, degree, successors unmoved⟩
    · by_cases isSelf : query = node
      · subst isSelf
        obtain ⟨sameType, degree, -⟩ := ledger.shape query inRun
        simp only [store, Subflow.spliceStore_parent, unmoved, Moved, log, List.mem_cons,
          true_or, true_and]
        exact ⟨sameType, degree, trivial⟩
      · simp only [store, sameMoved query isSelf, ledger.store_of_live sound isOld isSelf]
        exact ledger.shape query isOld
  case targets =>
    dsimp only at isLive ⊢
    rw [nowLive] at isLive ⊢
    rcases List.mem_append.mp isLive with isMember | isOld
    · rcases ChildGraph.mem_members.mp isMember with ⟨index, -, rfl⟩ | ⟨-, rfl⟩
      · exact List.mem_append_left _ (ChildGraph.childSuccessors_target childSound.valid inEdges)
      · simp only [declared] at inEdges
        split at inEdges
        · simp at inEdges
        · exact List.mem_append_right _ (ledger.targets node inRun edge inEdges)
    · exact List.mem_append_right _ (ledger.targets query isOld edge inEdges)
  case forward =>
    rcases Multiset.mem_add.mp inFrames with isNew | isOld
    · simp only [Multiset.mem_coe, List.mem_singleton] at isNew
      subst isNew
      simp [Frame.Forward]
    · exact ledger.forward frame (Multiset.mem_cons_of_mem isOld)
  case within =>
    simp only [log, List.mem_cons, reduceCtorEq, Event.spliced.injEq, false_or]
    rcases Multiset.mem_add.mp inFrames with isNew | isOld
    · simp only [Multiset.mem_coe, List.mem_singleton] at isNew
      subst isNew
      simp only [Frame.splicing, Option.some.injEq] at within
      exact .inl within.symm
    · exact .inr (ledger.within frame (Multiset.mem_cons_of_mem isOld) query within)
  case pending =>
    have before := ledger.pending
    have sameHistory (other : NodeId) : passed .finished other after.log =
        passed .finished other shared.log := by
      simp [log, Event.passes]
    have ofMembers : (((callables.subflow node).members node).map fun member =>
        if passed .finished member shared.log = 0 then 1 else 0).sum =
          ((callables.subflow node).members node).length := by
      rw [Counting.sum_map_congr fun member isMember => by
        rw [((ledger.outside (fresh isMember)).2.2 .finished).2, if_pos rfl]]
      simp
    dsimp only at before ⊢
    rw [pending, before]
    simp only [remaining, sameHistory, nowLive, List.map_append, List.sum_append, ofMembers]
    omega
  case splices =>
    simp only [log, List.mem_cons, reduceCtorEq, Event.spliced.injEq, Event.executed.injEq,
      false_or] at spliced ⊢
    rcases spliced with rfl | earlier
    · exact ⟨.inl rfl, (ledger.shape query inRun).1 ▸ isSubflow⟩
    · exact (ledger.splices query earlier).imp_left .inr

end Splice

end LightFlow
