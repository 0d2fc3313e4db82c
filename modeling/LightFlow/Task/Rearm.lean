import LightFlow.Task.Loop

/-!
# A loop is pending again

`addPendingTasks` closes the loop-back branch: the nodes of the body start a new round, and
from now on they are pending.
-/

namespace LightFlow

namespace Account

variable {graph : TaskGraph} {tally : Tally} {shared : Shared} {ready : Multiset NodeId}
  {rest : Multiset Frame} {source target : NodeId}

/-- What is known of a loop when all of it is about to become pending. -/
structure Closing (graph : TaskGraph) (tally : Tally) (load : Workload) (source target : NodeId)
    (body : List NodeId) : Prop where
  member : source ∈ body ∧ target ∈ body
  free : ∀ node ∈ body, tally.need node = 0 ∧ tally.extra node = 0 ∧
    load.amount (.flying node) = 0 ∧ load.amount (.active node) = 0
  closed : ∀ node ∈ body, node ≠ source → tally.closed node = 1
  isOpen : tally.closed source = 0
  entering : ∀ node ∈ body, ∀ previous, previous ∉ body →
    tally.isOpen previous * TaskGraph.forwardInto node (graph.node previous).successors = 0
  leaving : ∀ node ∈ body, node ≠ source → ∀ next, next ∉ body →
    TaskGraph.forwardInto next (graph.node node).successors = 0
  back : ∀ node ∈ body, TaskGraph.forwardInto target (graph.node node).successors = 0
  listed : ∀ node ∈ body, node ∈ graph.order

theorem closing {body : List NodeId} {cycleCount : Nat}
    (account : Account graph tally
      ⟨shared, ready, .resetting source target [] cycleCount ::ₘ rest⟩)
    (looped : graph.Looped) (own : tally.Own)
    (rearming : Rearming graph shared.node source target body [] cycleCount) :
    Closing graph tally ⟨shared, ready, .resetting source target [] cycleCount ::ₘ rest⟩
      source target body := by
  have inBody (node : NodeId) : node ∈ body ↔ graph.Body source target node := by
    simpa using rearming.body node
  obtain ⟨inOrder, isOpen, -, free⟩ :=
    account.of_carried (show 0 < List.count source _ by simp) looped.distinct
  have before {node : NodeId} (member : node ∈ body) (inside : node ≠ source) :
      tally.closed node = 1 ∧ tally.need node = 0 := by
    refine account.closed_before looped own free ?_
    obtain same | path := Relation.reflTransGen_iff_eq_or_transGen.mp ((inBody node).mp member).2
    · exact absurd same.symm inside
    · exact path
  have needsNothing {node : NodeId} (member : node ∈ body) : tally.need node = 0 := by
    by_cases same : node = source
    · exact same ▸ free
    · exact (before member same).2
  have listed {node : NodeId} (member : node ∈ body) : node ∈ graph.order := by
    by_cases same : node = source
    · exact same ▸ inOrder
    · have law := account.passage node
      have closed := (before member same).1
      exact List.count_pos_iff.mp (by omega)
  exact
    { member := ⟨(inBody _).mpr ⟨rearming.path, .refl⟩, (inBody _).mpr ⟨.refl, rearming.path⟩⟩
      free := fun node member => by
        have law := account.edges node
        have active := account.amount_active_le node
        have none := needsNothing member
        omega
      closed := fun node member inside => (before member inside).1
      isOpen := isOpen
      entering := fun node member previous _ => by
        by_contra some
        have law := account.edges node
        have none := needsNothing member
        have fromOrder : previous ∈ graph.order := by
          by_contra stray
          simp [looped.strays previous stray] at some
        have part := Counting.le_sum_map fromOrder fun source => tally.isOpen source *
          TaskGraph.forwardInto node (graph.node source).successors
        omega
      leaving := fun node member inside next outside => by
        by_contra some
        have edge := TaskGraph.forwardInto_pos.mp (Nat.pos_of_ne_zero some)
        exact outside ((inBody next).mpr
          (rearming.leaves node ((inBody node).mp member) inside next edge))
      back := fun node member => by
        by_contra some
        exact looped.not_forward_back ((inBody node).mp member).1
          (TaskGraph.forwardInto_pos.mp (Nat.pos_of_ne_zero some))
      listed := fun node member => listed member }

theorem rearm {body : List NodeId} {cycleCount : Nat}
    (account : Account graph tally
      ⟨shared, ready, .resetting source target [] cycleCount ::ₘ rest⟩)
    (looped : graph.Looped) (own : tally.Own)
    (rearming : Rearming graph shared.node source target body [] cycleCount) :
    Account graph (tally.rearm graph target body)
      (Effect.load
        { shared := shared.addPendingTasks (u32 cycleCount)
          frames := [.rescheduling source target] } ready rest) := by
  have closing := account.closing looped own rearming
  have distinct := looped.distinct
  have amount (quantity : Quantity) :
      (Effect.load
        { shared := shared.addPendingTasks (u32 cycleCount)
          frames := [.rescheduling source target] } ready rest).amount quantity +
        quantity.ofFrame (.resetting source target [] cycleCount) =
      Workload.amount ⟨shared, ready, .resetting source target [] cycleCount ::ₘ rest⟩ quantity +
        quantity.ofFrame (.rescheduling source target) := by
    rw [amount_load _ shared, amount_cons, Effect.amount_eq rfl rfl rfl]
    simp only [List.map_singleton, List.sum_singleton]
    omega
  have kept (quantity : Quantity)
      (same : quantity.ofFrame (.resetting source target [] cycleCount) =
        quantity.ofFrame (.rescheduling source target)) :
      (Effect.load
        { shared := shared.addPendingTasks (u32 cycleCount)
          frames := [.rescheduling source target] } ready rest).amount quantity =
      Workload.amount ⟨shared, ready, .resetting source target [] cycleCount ::ₘ rest⟩
        quantity := by
    have change := amount quantity
    omega
  have inBody (node : NodeId) : node ∈ body ↔ graph.Body source target node := by
    simpa using rearming.body node
  have standing {node : NodeId} (member : node ∈ body) : tally.need node = 0 ∧
      (node ≠ source → tally.closed node = 1) ∧ (node = source → tally.closed node = 0) ∧
      graph.order.count node = 1 :=
    ⟨(closing.free node member).1, closing.closed node member, fun same => same ▸ closing.isOpen,
      List.count_eq_one_of_mem distinct (closing.listed node member)⟩
  have firstRound {node : NodeId} (first : (tally.rearm graph target body).rounds node = 0) :
      tally.rounds node = 0 := by
    simp only [Tally.rearm] at first
    omega
  have outside {node : NodeId} (first : (tally.rearm graph target body).rounds node = 0) :
      node ∉ body := by
    intro member
    simp [Tally.rearm, member] at first
  have runs {node : NodeId} (outside : node ∉ body) :
      graph.Runs (tally.rearm graph target body) node ↔ graph.Runs tally node := by
    simp [TaskGraph.Runs, Tally.rearm, outside]
  refine
    { passage := fun node => ?passage
      called := fun node => ?called
      finished := fun node => ?finished
      settled := fun node closed => ?settled
      edges := fun node => ?edges
      active := fun node => ?gains
      packed := fun node counts => ?packed
      stuck := fun node => (own node).1.symm ▸ Nat.zero_le _
      bounded := fun node => ?bounded
      willRun := fun node first some => ?willRun
      willSkip := fun node first some => ?willSkip
      told := fun after member => ?told
      chosen := fun first second => ?chosen
      choice := fun first second closed firstTime => ?choice
      sent := fun first second forward => ?sent
      once := fun node first => ?once
      shape := account.shape
      walks := fun after member => ?walks
      pending := ?pending }
  case passage =>
    have before := account.passage node
    have change := amount (.carried node)
    simp only [Quantity.ofFrame, Frame.carries, List.count_singleton, beq_iff_eq] at change
    simp only [Tally.rearm]
    by_cases member : node ∈ body
    · obtain ⟨free, closed, isOpen, single⟩ := standing member
      rw [free, waiting_zero] at before
      by_cases isTarget : node = target
      · subst isTarget
        simp only [member, ne_eq, not_true, and_false, ↓reduceIte, free, waiting_zero]
        by_cases isSource : node = source
        · have := isOpen isSource
          subst isSource
          simp only [↓reduceIte] at change
          omega
        · have := closed isSource
          simp only [Ne.symm isSource, ↓reduceIte] at change
          omega
      · have positive : 0 < (graph.node node).initialInDegree :=
          looped.degree_pos ((inBody node).mp member) isTarget
        simp only [Ne.symm isTarget, ↓reduceIte, Nat.add_zero] at change
        simp only [member, ne_eq, isTarget, not_false_eq_true, and_self, ↓reduceIte,
          waiting_of_pos positive]
        by_cases isSource : node = source
        · have := isOpen isSource
          subst isSource
          simp only [↓reduceIte] at change
          omega
        · have := closed isSource
          simp only [Ne.symm isSource, ↓reduceIte, Nat.add_zero] at change
          omega
    · have notSource : source ≠ node := fun same => member (same ▸ closing.member.1)
      have notTarget : target ≠ node := fun same => member (same ▸ closing.member.2)
      simp only [notSource, notTarget, ↓reduceIte, Nat.add_zero] at change
      simpa only [member, false_and, ↓reduceIte, change] using before
  case called =>
    have before := account.called node
    have change := amount (.uncalled node)
    simp only [Quantity.ofFrame, Frame.uncalled, List.count_singleton, List.count_nil, Nat.add_zero,
      beq_iff_eq] at change
    change _ + _ + passed .called node shared.log = _ + (tally.rounds node + _)
    dsimp only at before
    simp only [Tally.rearm]
    by_cases member : node ∈ body
    · have free := (standing member).1
      rw [free, waiting_zero] at before
      by_cases isTarget : node = target
      · subst isTarget
        simp only [↓reduceIte] at change
        simp only [member, ne_eq, not_true, and_false, ↓reduceIte, free, waiting_zero]
        omega
      · have positive : 0 < (graph.node node).initialInDegree :=
          looped.degree_pos ((inBody node).mp member) isTarget
        simp only [Ne.symm isTarget, ↓reduceIte, Nat.add_zero] at change
        simp only [member, ne_eq, isTarget, not_false_eq_true, and_self, ↓reduceIte,
          waiting_of_pos positive]
        omega
    · have notTarget : target ≠ node := fun same => member (same ▸ closing.member.2)
      simp only [notTarget, ↓reduceIte, Nat.add_zero] at change
      simp only [member, false_and, ↓reduceIte, change]
      exact before
  case finished =>
    have before := account.finished node
    have change := amount (.late node)
    simp only [Quantity.ofFrame, Frame.late, List.count_singleton, List.count_nil, Nat.add_zero,
      beq_iff_eq] at change
    change passed .finished node shared.log + _ = _ + tally.dropped node + (tally.rounds node + _)
    dsimp only at before
    simp only [Tally.rearm]
    by_cases member : node ∈ body
    · obtain ⟨-, closed, isOpen, -⟩ := standing member
      simp only [member, ↓reduceIte]
      by_cases isSource : node = source
      · have := isOpen isSource
        subst isSource
        simp only [↓reduceIte] at change
        omega
      · have := closed isSource
        simp only [Ne.symm isSource, ↓reduceIte, Nat.add_zero] at change
        omega
    · have notSource : source ≠ node := fun same => member (same ▸ closing.member.1)
      simp only [notSource, ↓reduceIte, Nat.add_zero] at change
      simp only [member, ↓reduceIte]
      omega
  case settled =>
    simp only [Tally.rearm] at closed
    split at closed
    · simp at closed
    · exact account.settled node closed
  case edges =>
    have before := account.edges node
    have same := kept (.flying node) rfl
    rw [same]
    -- Sources outside of the body are as before, those inside are open now.
    have openNow (previous : NodeId) : (tally.rearm graph target body).isOpen previous =
        if previous ∈ body then 1 else tally.isOpen previous := by
      simp only [Tally.rearm, Tally.isOpen, (own previous).1]
      split <;> simp
    simp only [openNow]
    simp only [Tally.rearm]
    by_cases inside : node ∈ body ∧ node ≠ target
    · obtain ⟨-, -, flying, -⟩ := closing.free node inside.1
      rw [if_pos inside, if_pos inside, flying, Nat.add_zero, looped.degree, ← List.sum_map_add]
      refine Counting.sum_map_congr fun previous _ => ?_
      by_cases member : previous ∈ body
      · simp [member]
      · simp [member, closing.entering node inside.1 previous member]
    · rw [if_neg inside, if_neg inside, before]
      congr 2
      refine Counting.sum_map_congr fun previous _ => ?_
      by_cases member : previous ∈ body
      · simp only [member, ↓reduceIte, Nat.one_mul]
        by_cases isSource : previous = source
        · rw [isSource, Tally.isOpen, closing.isOpen, (own source).1]
          simp
        · have closed : tally.isOpen previous = 0 := by
            simp [Tally.isOpen, closing.closed previous member isSource]
          rw [closed, Nat.zero_mul]
          by_cases inBody' : node ∈ body
          · have isTarget : node = target := by_contra fun other => inside ⟨inBody', other⟩
            exact (isTarget ▸ closing.back previous member).symm
          · exact (closing.leaving previous member isSource node inBody').symm
      · simp only [member, ↓reduceIte]
  case gains =>
    have before := account.active node
    rw [kept (.active node) rfl]
    simp only [Tally.rearm]
    by_cases inside : node ∈ body ∧ node ≠ target
    · obtain ⟨-, -, -, none⟩ := closing.free node inside.1
      simp [inside, none, (own node).2]
    · simpa only [inside, ↓reduceIte] using before
  case packed =>
    change Packed (shared.node node).inDegree _ _
    simp only [Tally.rearm] at counts ⊢
    by_cases inside : node ∈ body ∧ node ≠ target
    · have narrow := looped.narrow node
      rw [if_pos inside, if_pos inside, rearming.reset node inside.1 inside.2]
      exact Packed.of_initial (by omega)
    · rw [if_neg inside] at counts ⊢
      rw [if_neg inside]
      exact account.packed node counts
  case bounded =>
    simp only [Tally.rearm]
    by_cases inside : node ∈ body ∧ node ≠ target
    · rw [if_pos inside, if_pos inside, Nat.add_zero]
    · rw [if_neg inside, if_neg inside]
      exact account.bounded node
  case willRun =>
    have outside := outside first
    rw [runs outside]
    refine account.willRun node (firstRound first) ?_
    have notSource : source ≠ node := fun same => outside (same ▸ closing.member.1)
    have notTarget : target ≠ node := fun same => outside (same ▸ closing.member.2)
    rwa [kept (.running node) (by simp [Frame.runs, notSource, notTarget])] at some
  case willSkip =>
    rw [runs (outside first)]
    refine account.willSkip node (firstRound first) ?_
    rwa [kept (.skipping node) rfl] at some
  case told =>
    rcases Multiset.mem_add.mp member with isNew | isOld
    · rw [List.mem_singleton.mp (Multiset.mem_coe.mp isNew)]
      trivial
    · exact account.told after (Multiset.mem_cons_of_mem isOld)
  case chosen =>
    have before := account.chosen first second
    simp only [Tally.rearm]
    by_cases inside : second ∈ body ∧ second ≠ target
    · rw [if_pos inside]
      exact Nat.zero_le _
    · rw [if_neg inside]
      by_cases member : first ∈ body
      · rw [if_pos member, Nat.zero_mul]
        refine before.trans (Nat.le_of_eq ?_)
        by_cases isSource : first = source
        · rw [isSource, closing.isOpen, Nat.zero_mul]
        · by_cases inBody' : second ∈ body
          · have isTarget : second = target := by_contra fun other => inside ⟨inBody', other⟩
            rw [isTarget, closing.back first member, Nat.mul_zero]
          · rw [closing.leaving first member isSource second inBody', Nat.mul_zero]
      · rw [if_neg member]
        exact before
  case choice =>
    simp only [Tally.rearm] at closed ⊢
    split at closed
    · simp at closed
    · rw [if_neg fun inside => outside firstTime inside.1]
      exact account.choice first second closed (firstRound firstTime)
  case sent =>
    rw [kept (.sending first second) rfl]
    exact account.sent first second forward
  case once =>
    have notInside := outside first
    simp only [Tally.rearm, notInside, ↓reduceIte]
    exact account.once node (firstRound first)
  case walks =>
    rcases Multiset.mem_add.mp member with isNew | isOld
    · rw [List.mem_singleton.mp (Multiset.mem_coe.mp isNew)]
      trivial
    · exact account.walks after (Multiset.mem_cons_of_mem isOld)
  case pending =>
    have change := amount .unfinished
    have opened : (graph.order.map (tally.rearm graph target body).isOpen).sum + 1 =
        (graph.order.map tally.isOpen).sum + body.length := by
      have size : body.length = graph.order.countP (· ∈ body) := by
        rw [List.countP_eq_length_filter]
        refine (List.Perm.length_eq ?_).symm
        rw [List.perm_ext_iff_of_nodup (distinct.filter _) (by simpa using rearming.distinct)]
        intro node
        simpa using closing.listed node
      have single := Counting.sum_map_single distinct (closing.listed _ closing.member.1)
        fun _ => 1
      have each : (graph.order.map fun node => (tally.rearm graph target body).isOpen node +
            if source = node then 1 else 0).sum =
          (graph.order.map fun node => tally.isOpen node + if node ∈ body then 1 else 0).sum := by
        refine Counting.sum_map_congr fun node _ => ?_
        simp only [Tally.isOpen, Tally.rearm, (own node).1]
        by_cases member : node ∈ body
        · by_cases isSource : source = node
          · simp [← isSource, closing.member.1, closing.isOpen]
          · simp [member, isSource, closing.closed node member (Ne.symm isSource)]
        · have notSource : source ≠ node := fun same => member (same ▸ closing.member.1)
          simp [member, notSource]
      rwa [List.sum_map_add, List.sum_map_add, single, Counting.sum_map_indicator, ← size] at each
    have count : cycleCount = body.length := by simpa using rearming.count
    simp only [Quantity.ofFrame, Frame.late, List.length_nil, List.length_singleton] at change
    have before := account.pending
    dsimp only at before
    change u32 (shared.m_pendingTasks + u32 cycleCount) = u32 (_ + _)
    generalize Workload.amount _ Quantity.unfinished = unfinished at before change
    generalize Workload.amount _ Quantity.unfinished = unfinished' at change ⊢
    rw [before, count]
    simp only [u32]
    omega

end Account

end LightFlow
