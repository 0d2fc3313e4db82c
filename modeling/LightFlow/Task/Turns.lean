import LightFlow.Task.Account

/-!
# Calls keep the account

A call that goes on does one of three things: it leaves the counters alone, it releases the
node it carries, or it decrements a successor.
-/

namespace LightFlow

namespace Account

variable {graph : TaskGraph} {callables : Callables} {tally : Tally} {shared : Shared}
  {ready : Multiset NodeId} {frame : Frame} {rest : Multiset Frame} {effect : Effect}
  {events : List Event}

/-! ## Steps that leave counters alone -/

theorem quiet (account : Account graph tally ⟨shared, ready, frame ::ₘ rest⟩)
    (log : effect.shared.log = events ++ shared.log)
    (silent : ∀ source target, graph.NoLoopBack source target →
      decrements source target events = 0)
    (amounts : ∀ quantity : Quantity,
      effect.amount quantity + quantity.noted events = quantity.ofFrame frame)
    (calls : ∀ node, (.executed node ∈ events → 0 < frame.runs.count node) ∧
      (.skipped node ∈ events → 0 < frame.skips.count node))
    (nodes : ∀ node, (effect.shared.node node).type = (shared.node node).type ∧
      (effect.shared.node node).initialInDegree = (shared.node node).initialInDegree ∧
      (effect.shared.node node).successors = (shared.node node).successors ∧
      (0 < tally.need node ∨ tally.kept node →
        (effect.shared.node node).inDegree = (shared.node node).inDegree) ∧
      (frame.carries.count node = 0 →
        (effect.shared.node node).userData = (shared.node node).userData))
    (told : ∀ after ∈ effect.frames, after.Told effect.shared.log)
    (walks : ∀ after ∈ effect.frames, after.Walks graph)
    (pending : ∀ others, shared.m_pendingTasks = u32 (others + frame.late.length) →
      effect.shared.m_pendingTasks = u32 (others + effect.amount .unfinished))
    (distinct : graph.order.Nodup) :
    Account graph tally (effect.load ready rest) := by
  have amount (quantity : Quantity) : (effect.load ready rest).amount quantity +
      quantity.noted events = Workload.amount ⟨shared, ready, frame ::ₘ rest⟩ quantity := by
    have here := amounts quantity
    rw [amount_load effect shared, amount_cons]
    omega
  have kept (quantity : Quantity) (unnoted : quantity.noted events = 0) :
      (effect.load ready rest).amount quantity =
        Workload.amount ⟨shared, ready, frame ::ₘ rest⟩ quantity := by
    rw [← amount quantity, unnoted, Nat.add_zero]
  have carries_of_called {node : NodeId} (called : passed .called node events ≠ 0) :
      0 < frame.carries.count node := by
    rw [passed_called] at called
    by_cases executed : .executed node ∈ events
    · exact frame.carries_of_runs ((calls node).1 executed)
    · refine frame.carries_of_skips ((calls node).2 (List.count_pos_iff.mp ?_))
      have := List.count_eq_zero_of_not_mem executed
      omega
  have notCalled {node : NodeId} (notCarried : frame.carries.count node = 0) :
      passed .called node events = 0 := by
    by_contra called
    have carries := carries_of_called called
    omega
  refine
    { passage := fun node => (kept (.carried node) rfl).symm ▸ account.passage node
      called := fun node => ?called
      finished := fun node => ?finished
      settled := fun node closed => ?settled
      edges := fun target => (kept (.flying target) rfl).symm ▸ account.edges target
      active := fun target => (kept (.active target) rfl).symm ▸ account.active target
      packed := fun node waits => ?packed
      stuck := account.stuck
      bounded := account.bounded
      willRun := fun node first some => ?willRun
      willSkip := fun node first some => ?willSkip
      told := fun after member => ?told
      chosen := account.chosen
      choice := fun source target closed first => ?choice
      sent := fun source target forward => ?sent
      once := account.once
      shape := fun node => ?shape
      walks := fun after member => ?walks
      pending := ?pending }
  case called =>
    have before := account.called node
    have change := amount (.uncalled node)
    simp only [Quantity.noted] at change
    rw [log, passed_append]
    dsimp only at before
    omega
  case finished =>
    have before := account.finished node
    have change := amount (.late node)
    simp only [Quantity.noted] at change
    rw [log, passed_append]
    dsimp only at before
    omega
  case settled =>
    rw [log]
    exact (account.settled node closed).imp (List.mem_append_right _) (List.mem_append_right _)
  case packed =>
    rw [(nodes node).2.2.2.1 waits]
    exact account.packed node waits
  case willRun =>
    refine account.willRun node first ?_
    rw [log, List.count_append, kept (.running node) rfl] at some
    by_cases isNew : .executed node ∈ events
    · have part : frame.runs.count node ≤ _ :=
        ofFrame_le shared ready frame rest (.running node)
      have runs := (calls node).1 isNew
      omega
    · rwa [List.count_eq_zero_of_not_mem isNew, Nat.zero_add] at some
  case willSkip =>
    refine account.willSkip node first ?_
    rw [log, List.count_append, kept (.skipping node) rfl] at some
    by_cases isNew : .skipped node ∈ events
    · have part : frame.skips.count node ≤ _ :=
        ofFrame_le shared ready frame rest (.skipping node)
      have skips := (calls node).2 isNew
      omega
    · rwa [List.count_eq_zero_of_not_mem isNew, Nat.zero_add] at some
  case told =>
    rcases Multiset.mem_add.mp member with isNew | isOld
    · exact told after isNew
    · rw [log]
      refine (account.told after (Multiset.mem_cons_of_mem isOld)).append fun node carried => ?_
      refine notCalled ?_
      by_contra isCarried
      have alone := account.carries_eq_zero (Nat.pos_of_ne_zero isCarried) distinct isOld
      exact Nat.ne_of_gt (List.count_pos_iff.mpr carried) alone
  case choice =>
    have notCarried : frame.carries.count source = 0 := by
      by_contra carries
      have isOpen := (account.of_carried (Nat.pos_of_ne_zero carries) distinct).2.1
      omega
    rw [account.choice source target closed first, log]
    simp only [chosenBranch, (nodes source).1, (nodes source).2.2.2.2 notCarried,
      ran_append shared.log (notCalled notCarried)]
  case sent =>
    rw [log, decrements_append, silent source target forward, Nat.zero_add,
      kept (.sending source target) rfl]
    exact account.sent source target forward
  case shape =>
    obtain ⟨sameType, sameDegree, sameSuccessors, -, -⟩ := nodes node
    simp only [sameType, sameDegree, sameSuccessors]
    exact account.shape node
  case walks =>
    rcases Multiset.mem_add.mp member with isNew | isOld
    · exact walks after isNew
    · exact account.walks after (Multiset.mem_cons_of_mem isOld)
  case pending =>
    have before := account.pending
    rw [amount_cons] at before
    rw [amount_load effect shared]
    have after := pending ((graph.order.map tally.isOpen).sum +
      Workload.amount ⟨shared, ready, rest⟩ .unfinished) (by
        rw [before]
        congr 1
        simp only [Quantity.ofFrame]
        omega)
    rw [after]
    congr 1
    omega

/-! ## Steps that release a node -/

/-- Edges into `target` that the walk over the successors of `node` takes. -/
def choices (graph : TaskGraph) (shared : Shared) (node target : NodeId) : Nat :=
  if Ran node shared.log then
    Frame.taken (chosenBranch (shared.node node)) target (graph.node node).successors
  else 0

/-- What a released node adds to the amounts. -/
@[simp] def ofRelease (graph : TaskGraph) (shared : Shared) (node : NodeId) : Quantity → Nat
  | .flying target => TaskGraph.forwardInto target (graph.node node).successors
  | .active target => choices graph shared node target
  | .sending source target =>
      if node = source then TaskGraph.forwardInto target (graph.node node).successors else 0
  | .late other => if node = other then 1 else 0
  | .unfinished => 1
  | _ => 0

/-- What is open goes down by a node that is released. -/
theorem sum_isOpen (weight : NodeId → Nat) {after : Tally} {node : NodeId}
    (distinct : graph.order.Nodup) (member : node ∈ graph.order)
    (wasOpen : tally.isOpen node = 1) (isClosed : after.isOpen node = 0)
    (others : ∀ other ≠ node, after.isOpen other = tally.isOpen other) :
    (graph.order.map fun source => after.isOpen source * weight source).sum + weight node =
      (graph.order.map fun source => tally.isOpen source * weight source).sum := by
  have replaced := Counting.sum_map_replace graph.order node
    (fun other _ different => congrArg (· * weight other) (others other different) :
      ∀ other ∈ graph.order, other ≠ node →
        after.isOpen other * weight other = tally.isOpen other * weight other)
  rw [List.count_eq_one_of_mem distinct member] at replaced
  simp only [wasOpen, isClosed, Nat.zero_mul, Nat.one_mul, Nat.add_zero] at replaced
  exact replaced

theorem release {node : NodeId}
    (account : Account graph tally ⟨shared, ready, frame ::ₘ rest⟩)
    (log : effect.shared.log = events ++ shared.log)
    (carries : frame.carries = [node])
    (amounts : ∀ quantity : Quantity, effect.amount quantity + quantity.noted events =
      ofRelease graph shared node quantity)
    (before : ∀ target, frame.uncalled = [] ∧ frame.late = [] ∧ frame.todo = [] ∧
      frame.activeInto target = 0)
    (forward : ∀ target, choices graph shared node target ≤
      TaskGraph.forwardInto target (graph.node node).successors)
    (settled : .completed node ∈ effect.shared.log ∨ .skipped node ∈ effect.shared.log)
    (silent : ∀ source target, decrements source target events = 0)
    (noCalls : ∀ other, passed .called other events = 0)
    (nodes : ∀ other, (effect.shared.node other).type = (shared.node other).type ∧
      (effect.shared.node other).initialInDegree = (shared.node other).initialInDegree ∧
      (effect.shared.node other).successors = (shared.node other).successors ∧
      (effect.shared.node other).inDegree = (shared.node other).inDegree ∧
      (effect.shared.node other).userData = (shared.node other).userData)
    (told : ∀ after ∈ effect.frames, after.Told effect.shared.log)
    (walks : ∀ after ∈ effect.frames, after.Walks graph)
    (pending : ∀ others, shared.m_pendingTasks = u32 (others + 1) →
      effect.shared.m_pendingTasks = u32 (others + effect.amount .unfinished))
    (distinct : graph.order.Nodup) :
    Account graph (tally.release node (choices graph shared node)) (effect.load ready rest) := by
  have once : frame.carries.count node = 1 := by rw [carries, List.count_singleton_self]
  obtain ⟨member, notClosed, notDropped, noNeed⟩ :=
    account.of_carried (once.symm ▸ Nat.one_pos) distinct
  obtain ⟨noUncalled, noLate, noTodo, -⟩ := before node
  have noActive (target : NodeId) : frame.activeInto target = 0 := (before target).2.2.2
  have wasOpen : tally.isOpen node = 1 := by simp [Tally.isOpen, notClosed, notDropped]
  have amount (quantity : Quantity) : (effect.load ready rest).amount quantity +
        quantity.noted events + quantity.ofFrame frame =
      Workload.amount ⟨shared, ready, frame ::ₘ rest⟩ quantity +
        ofRelease graph shared node quantity := by
    rw [amount_load effect shared, amount_cons, ← amounts]
    omega
  refine
    { passage := fun other => ?passage
      called := fun other => ?called
      finished := fun other => ?finished
      settled := fun other closed => ?settled
      edges := fun target => ?edges
      active := fun target => ?active
      packed := fun other waits => ?packed
      stuck := account.stuck
      bounded := account.bounded
      willRun := fun other first some => ?willRun
      willSkip := fun other first some => ?willSkip
      told := fun after member => ?told
      chosen := fun source target => ?chosen
      choice := fun source target closed first => ?choice
      sent := fun source target forward => ?sent
      once := fun other first => ?once
      shape := fun other => ?shape
      walks := fun after member => ?walks
      pending := ?pending }
  case passage =>
    have before := account.passage other
    have change := amount (.carried other)
    simp only [Quantity.noted, Quantity.ofFrame, carries, ofRelease] at change
    by_cases same : other = node
    · subst same
      simp only [Tally.release_closed_self, Tally.release_need, List.count_singleton_self]
        at change ⊢
      omega
    · rw [List.count_eq_zero_of_not_mem (by simpa using same)] at change
      rw [tally.release_closed_of_ne _ same, Tally.release_need]
      omega
  case called =>
    have before := account.called other
    have change := amount (.uncalled other)
    have none := noCalls other
    simp only [Quantity.noted, Quantity.ofFrame, noUncalled, List.count_nil, ofRelease] at change
    simp only [Tally.release_need, Tally.release_rounds, log, passed_append]
    dsimp only at before
    omega
  case finished =>
    have before := account.finished other
    have change := amount (.late other)
    simp only [Quantity.noted, Quantity.ofFrame, noLate, List.count_nil, ofRelease] at change
    simp only [Tally.release_dropped, Tally.release_rounds, log, passed_append]
    dsimp only at before
    by_cases same : other = node
    · subst same
      simp only [Tally.release_closed_self, ↓reduceIte] at change ⊢
      omega
    · rw [if_neg (Ne.symm same)] at change
      rw [tally.release_closed_of_ne _ same]
      omega
  case settled =>
    by_cases same : other = node
    · exact same ▸ settled
    · rw [tally.release_closed_of_ne _ same] at closed
      rw [log]
      exact (account.settled other closed).imp (List.mem_append_right _) (List.mem_append_right _)
  case edges =>
    have before := account.edges target
    have change := amount (.flying target)
    have sum := sum_isOpen (fun source =>
      TaskGraph.forwardInto target (graph.node source).successors) distinct member wasOpen
      (tally.release_isOpen_self (choices graph shared node))
      fun other different => tally.release_isOpen_of_ne _ different
    simp only [Quantity.noted, Quantity.ofFrame, noTodo, TaskGraph.forwardInto_nil, ofRelease]
      at change
    simp only [Tally.release_need, Tally.release_extra]
    omega
  case active =>
    have before := account.active target
    have change := amount (.active target)
    have sum := Counting.sum_map_replace graph.order node
      (fun other _ different => congrFun (tally.release_chosen_of_ne _ different) target :
        ∀ other ∈ graph.order, other ≠ node →
          (tally.release node (choices graph shared node)).chosen other target =
            tally.chosen other target)
    rw [List.count_eq_one_of_mem distinct member, Tally.release_chosen_self] at sum
    simp only [Quantity.noted, Quantity.ofFrame, noActive, ofRelease] at change
    have none := account.chosen node target
    rw [notClosed, Nat.zero_mul] at none
    simp only [Tally.release_got, Tally.release_bonus]
    omega
  case packed =>
    rw [(nodes other).2.2.2.1]
    exact account.packed other waits
  case willRun =>
    refine account.willRun other first ?_
    have change := amount (.running other)
    have none := noCalls other
    rw [passed_called] at none
    rw [log, List.count_append] at some
    simp only [Quantity.noted, ofRelease] at change
    dsimp only
    omega
  case willSkip =>
    refine account.willSkip other first ?_
    have change := amount (.skipping other)
    have none := noCalls other
    rw [passed_called] at none
    rw [log, List.count_append] at some
    simp only [Quantity.noted, ofRelease] at change
    dsimp only
    omega
  case told =>
    rcases Multiset.mem_add.mp member with isNew | isOld
    · exact told after isNew
    · rw [log]
      exact (account.told after (Multiset.mem_cons_of_mem isOld)).append fun _ _ => noCalls _
  case chosen =>
    by_cases same : source = node
    · subst same
      simpa using forward target
    · rw [tally.release_chosen_of_ne _ same, tally.release_closed_of_ne _ same]
      exact account.chosen source target
  case choice =>
    have userData := (nodes source).2.2.2.2
    simp only [chosenBranch, (nodes source).1, (nodes source).2.2.2.2, log,
      ran_append shared.log (noCalls source)]
    by_cases same : source = node
    · subst same
      rw [Tally.release_chosen_self]
      rfl
    · rw [tally.release_chosen_of_ne _ same]
      rw [tally.release_closed_of_ne _ same] at closed
      exact account.choice source target closed first
  case sent =>
    have before := account.sent source target forward
    have change := amount (.sending source target)
    simp only [Quantity.noted, Quantity.ofFrame, noTodo, TaskGraph.forwardInto_nil, Nat.mul_zero,
      ofRelease] at change
    rw [log, decrements_append, silent, Nat.zero_add]
    dsimp only at before
    by_cases same : source = node
    · subst same
      simp only [Tally.release_sends_self, Nat.add_mul, Nat.one_mul, ↓reduceIte] at change ⊢
      omega
    · rw [if_neg (Ne.symm same)] at change
      rw [tally.release_sends_of_ne _ same]
      omega
  case once =>
    have before := account.once other first
    by_cases same : other = node
    · subst same
      simp only [Tally.release_sends_self, Tally.release_closed_self, Tally.release_dropped]
      omega
    · rw [tally.release_sends_of_ne _ same, tally.release_closed_of_ne _ same]
      exact before
  case shape =>
    obtain ⟨sameType, sameDegree, sameSuccessors, -, -⟩ := nodes other
    simp only [sameType, sameDegree, sameSuccessors]
    exact account.shape other
  case walks =>
    rcases Multiset.mem_add.mp member with isNew | isOld
    · exact walks after isNew
    · exact account.walks after (Multiset.mem_cons_of_mem isOld)
  case pending =>
    have before := account.pending
    rw [amount_cons] at before
    rw [amount_load effect shared]
    have sum : (graph.order.map (tally.release node (choices graph shared node)).isOpen).sum + 1 =
        (graph.order.map tally.isOpen).sum := by
      simpa using sum_isOpen (fun _ => 1) distinct member wasOpen
        (tally.release_isOpen_self (choices graph shared node))
        fun other different => tally.release_isOpen_of_ne _ different
    have after := pending ((graph.order.map
        (tally.release node (choices graph shared node)).isOpen).sum +
      Workload.amount ⟨shared, ready, rest⟩ .unfinished) (by
        rw [before]
        congr 1
        simp only [Quantity.ofFrame, noLate, List.length_nil]
        omega)
    rw [after]
    congr 1
    omega

/-! ## Steps that decrement a node -/

theorem amount_skipping_le (load : Workload) (node : NodeId) :
    load.amount (.skipping node) ≤ load.amount (.carried node) := by
  refine Nat.add_le_add ?_ ?_
  · exact Multiset.sum_map_le_sum_map _ _ fun ready _ => Nat.zero_le _
  · refine Multiset.sum_map_le_sum_map _ _ fun frame _ => ?_
    cases frame <;> simp

/-- A node with dependencies left was not called in its current round. -/
theorem not_decided {load : Workload} (account : Account graph tally load) {node : NodeId}
    (waits : 0 < tally.need node) (first : tally.rounds node = 0) (distinct : graph.order.Nodup) :
    load.amount (.skipping node) = 0 ∧ passed .called node load.shared.log = 0 := by
  have passage := account.passage node
  have called := account.called node
  have single := List.nodup_iff_count_le_one.mp distinct node
  have skipping := amount_skipping_le load node
  rw [waiting_of_pos waits] at passage called
  omega

/-- What a decrement decides. -/
def decision (tally : Tally) (target : NodeId) (call : Decrement) : Resolution :=
  if tally.need target = 1 then
    if 0 < tally.got target ∨ call = .active then .run else .skip
  else .pending

/-- A node stops waiting when it is decided. -/
theorem waiting_decrement {target : NodeId} (call : Decrement) (extra bonus : NodeId → Nat)
    (waits : 0 < tally.need target) (node : NodeId) :
    waiting ((tally.decrement target call extra bonus).need node) +
        (if target = node ∧ decision tally target call ≠ .pending then 1 else 0) =
      waiting (tally.need node) := by
  by_cases same : node = target
  · subst same
    rw [Tally.decrement_need_self, waiting_of_pos waits, decision]
    by_cases last : tally.need node = 1
    · have resolved : (if 0 < tally.got node ∨ call = .active then Resolution.run
          else .skip) ≠ .pending := by split <;> simp
      simp [last, resolved]
    · simp [last, waiting_of_pos (show 0 < tally.need node - 1 by omega)]
  · simp [tally.decrement_need_of_ne call extra bonus same, Ne.symm same]

theorem decrement {load next : Workload} {target : NodeId} {call : Decrement}
    {extra bonus : NodeId → Nat} (account : Account graph tally load)
    (waits : 0 < tally.need target) (narrow : (graph.node target).initialInDegree ≤ 2 ^ 16)
    (log : next.shared.log = events ++ load.shared.log)
    (noEvents : ∀ node, passed .called node events = 0 ∧ passed .finished node events = 0)
    (tokens : ∀ quantity : Quantity, quantity.isToken = true → next.amount quantity =
      load.amount quantity + quantity.ofDecision target (decision tally target call))
    (flying : ∀ node, next.amount (.flying node) + extra node +
      (if node = target then 1 else 0) = load.amount (.flying node) + tally.extra node)
    (active : ∀ node, next.amount (.active node) + tally.bonus node +
        (if node = target ∧ call = .active then 1 else 0) =
      load.amount (.active node) + bonus node)
    (stuck : ∀ node, tally.dropped node ≤ extra node)
    (sending : ∀ source node, graph.NoLoopBack source node → decrements source node events +
      next.amount (.sending source node) = load.amount (.sending source node))
    (nodes : ∀ node, (next.shared.node node).type = (load.shared.node node).type ∧
      (next.shared.node node).initialInDegree = (load.shared.node node).initialInDegree ∧
      (next.shared.node node).successors = (load.shared.node node).successors ∧
      (next.shared.node node).userData = (load.shared.node node).userData ∧
      (next.shared.node node).inDegree = if node = target then
        (call.apply (load.shared.node target).inDegree).1 else (load.shared.node node).inDegree)
    (frames : ∀ after ∈ next.frames, after ∈ load.frames ∨
      after.Told next.shared.log ∧ after.Walks graph)
    (pending : next.shared.m_pendingTasks = load.shared.m_pendingTasks)
    (distinct : graph.order.Nodup) :
    Account graph (tally.decrement target call extra bonus) next := by
  have noCalls (node : NodeId) := (noEvents node).1
  have bounded := account.bounded target
  obtain ⟨left, needEq⟩ : ∃ left, tally.need target = left + 1 :=
    ⟨_, (Nat.succ_pred_eq_of_pos waits).symm⟩
  have packed := account.packed target (.inl waits)
  rw [needEq] at packed
  obtain ⟨nextPacked, -⟩ := Decrement.apply_packed call packed (by omega)
  refine
    { passage := fun node => ?passage
      called := fun node => ?called
      finished := fun node => ?finished
      settled := fun node closed => log ▸ (account.settled node closed).imp
        (List.mem_append_right _) (List.mem_append_right _)
      edges := fun node => ?edges
      active := fun node => ?gains
      packed := fun node needs => ?packed
      stuck := stuck
      bounded := fun node => ?bounded
      willRun := fun node first some => ?willRun
      willSkip := fun node first some => ?willSkip
      told := fun after member => ?told
      chosen := account.chosen
      choice := fun source node closed first => ?choice
      sent := fun source node forward => ?sent
      once := account.once
      shape := fun node => ?shape
      walks := fun after member => ?walks
      pending := ?pending }
  case passage =>
    have before := account.passage node
    have change := tokens (.carried node) rfl
    have turn := waiting_decrement call extra bonus waits node
    change _ + _ + tally.closed node = _
    simp only [Quantity.ofDecision] at change
    omega
  case called =>
    have before := account.called node
    have change := tokens (.uncalled node) rfl
    have turn := waiting_decrement call extra bonus waits node
    rw [log, passed_append, noCalls, Nat.zero_add]
    change _ + _ + _ = _ + tally.rounds node
    simp only [Quantity.ofDecision] at change
    omega
  case finished =>
    have before := account.finished node
    have change := tokens (.late node) rfl
    simp only [Quantity.ofDecision] at change
    rw [log, passed_append, (noEvents node).2, Nat.zero_add, change]
    exact before
  case edges =>
    have before := account.edges node
    have change := flying node
    change _ = List.sum (graph.order.map fun source => tally.isOpen source * _) + _ + extra node
    by_cases same : node = target
    · subst same
      rw [if_pos rfl] at change
      rw [Tally.decrement_need_self]
      omega
    · rw [if_neg same] at change
      rw [tally.decrement_need_of_ne _ _ _ same]
      omega
  case gains =>
    have before := account.active node
    have change := active node
    change _ + _ = List.sum (graph.order.map fun source => tally.chosen source node) + bonus node
    by_cases same : node = target
    · subst same
      simp only [true_and] at change
      rw [Tally.decrement_got_self]
      omega
    · simp only [same, false_and, ↓reduceIte] at change
      rw [tally.decrement_got_of_ne _ _ _ same]
      omega
  case packed =>
    rw [(nodes node).2.2.2.2]
    by_cases same : node = target
    · subst same
      rw [if_pos rfl, Tally.decrement_need_self, Tally.decrement_got_self, needEq]
      exact nextPacked
    · rw [tally.decrement_need_of_ne _ _ _ same] at needs ⊢
      rw [if_neg same, tally.decrement_got_of_ne _ _ _ same]
      exact account.packed node needs
  case bounded =>
    by_cases same : node = target
    · subst same
      rw [Tally.decrement_need_self, Tally.decrement_got_self]
      split <;> omega
    · rw [tally.decrement_need_of_ne _ _ _ same, tally.decrement_got_of_ne _ _ _ same]
      exact account.bounded node
  case willRun =>
    have change := tokens (.running node) rfl
    have noCall := noCalls node
    rw [passed_called] at noCall
    rw [log, List.count_append, change] at some
    by_cases decided : target = node ∧ decision tally target call = .run
    · obtain ⟨rfl, run⟩ := decided
      refine .inr ?_
      rw [Tally.decrement_got_self]
      simp only [decision] at run
      split at run <;> [split at run; skip] <;> simp at run
      next active =>
        rcases active with earlier | now
        · omega
        · simp [now]
    · simp only [Quantity.ofDecision, decided, ↓reduceIte] at some
      refine (account.willRun node first (by omega)).imp_right fun positive => ?_
      by_cases same : node = target
      · subst same
        rw [Tally.decrement_got_self]
        omega
      · rwa [tally.decrement_got_of_ne _ _ _ same]
  case willSkip =>
    have change := tokens (.skipping node) rfl
    have noCall := noCalls node
    rw [passed_called] at noCall
    rw [log, List.count_append, change] at some
    by_cases same : node = target
    · subst same
      obtain ⟨notSkipping, notCalled⟩ := account.not_decided waits first distinct
      rw [passed_called] at notCalled
      have skip : decision tally node call = .skip := by
        by_contra other
        simp only [Quantity.ofDecision, other, and_false, ↓reduceIte] at some
        omega
      simp only [decision] at skip
      split at skip <;> [split at skip; skip] <;> simp at skip
      next inactive =>
        rw [not_or] at inactive
        rw [TaskGraph.Runs, Tally.decrement_got_self, if_neg inactive.2]
        omega
    · simp only [Quantity.ofDecision, Ne.symm same, false_and, ↓reduceIte] at some
      rw [TaskGraph.Runs, tally.decrement_got_of_ne _ _ _ same]
      exact account.willSkip node first (by omega)
  case told =>
    rcases frames after member with isOld | isNew
    · rw [log]
      exact (account.told after isOld).append fun _ _ => noCalls _
    · exact isNew.1
  case choice =>
    simp only [chosenBranch, (nodes source).1, (nodes source).2.2.2.1, log,
      ran_append load.shared.log (noCalls source)]
    exact account.choice source node closed first
  case sent =>
    have before := account.sent source node forward
    have change := sending source node forward
    change _ = tally.sends source * _
    rw [log, decrements_append]
    omega
  case shape =>
    obtain ⟨sameType, sameDegree, sameSuccessors, -, -⟩ := nodes node
    rw [sameType, sameDegree, sameSuccessors]
    exact account.shape node
  case walks =>
    rcases frames after member with isOld | isNew
    · exact account.walks after isOld
    · exact isNew.2
  case pending =>
    rw [pending, tokens .unfinished rfl]
    exact account.pending

/-- The counter of a waiting node decides as the tally does. -/
theorem decides {load : Workload} (account : Account graph tally load) {target : NodeId}
    (call : Decrement) (waits : 0 < tally.need target)
    (narrow : (graph.node target).initialInDegree ≤ 2 ^ 16) :
    (call.apply (load.shared.node target).inDegree).2 = decision tally target call := by
  have bounded := account.bounded target
  have packed := account.packed target (.inl waits)
  obtain ⟨left, needEq⟩ : ∃ left, tally.need target = left + 1 :=
    ⟨_, (Nat.succ_pred_eq_of_pos waits).symm⟩
  rw [needEq] at packed
  rw [(Decrement.apply_packed call packed (by omega)).2, decision, needEq]
  simp

/-- A target that a call is going to decrement waits. -/
theorem target_waits (account : Account graph tally ⟨shared, ready, frame ::ₘ rest⟩)
    {target : NodeId} (inTodo : 0 < TaskGraph.forwardInto target frame.todo) :
    0 < tally.need target := by
  have law := account.edges target
  rw [amount_cons] at law
  simp only [Quantity.ofFrame] at law
  omega

/-- A call decrements the target of its next edge. -/
theorem edge {node : NodeId} {edge : SuccessorEdge}
    (account : Account graph tally ⟨shared, ready, frame ::ₘ rest⟩) (call : Decrement)
    (log : effect.shared.log = .decremented node edge.target (call = .active) :: shared.log)
    (waits : 0 < tally.need edge.target)
    (narrow : (graph.node edge.target).initialInDegree ≤ 2 ^ 16)
    (amounts : ∀ quantity : Quantity, effect.amount quantity + quantity.ofEdge node edge call =
      quantity.ofFrame frame + quantity.ofDecision edge.target (decision tally edge.target call))
    (inDegree : effect.shared.node = (shared.setInDegree edge.target
      (call.apply (shared.node edge.target).inDegree).1).node)
    (told : ∀ after ∈ effect.frames, after.Told effect.shared.log)
    (walks : ∀ after ∈ effect.frames, after.Walks graph)
    (pending : effect.shared.m_pendingTasks = shared.m_pendingTasks)
    (distinct : graph.order.Nodup) :
    Account graph (tally.decrement edge.target call tally.extra tally.bonus)
      (effect.load ready rest) := by
  have amount (quantity : Quantity) :
      (effect.load ready rest).amount quantity + quantity.ofEdge node edge call =
        Workload.amount ⟨shared, ready, frame ::ₘ rest⟩ quantity +
          quantity.ofDecision edge.target (decision tally edge.target call) := by
    have here := amounts quantity
    rw [amount_load effect shared, amount_cons]
    omega
  refine account.decrement waits narrow (show _ = [_] ++ _ from log) ?_ ?_ ?_ ?_ account.stuck ?_ ?_
    ?_ pending distinct
  · simp [Event.passes]
  · intro quantity isToken
    have change := amount quantity
    cases quantity <;> first | simpa using change | simp [Quantity.isToken] at isToken
  · intro target
    have change := amount (.flying target)
    simp only [Quantity.ofEdge, Quantity.ofDecision, eq_comm (a := edge.target)] at change
    omega
  · intro target
    have change := amount (.active target)
    simp only [Quantity.ofEdge, Quantity.ofDecision, eq_comm (a := edge.target)] at change
    omega
  · intro source target _
    have change := amount (.sending source target)
    have decremented : decrements source target [.decremented node edge.target (call = .active)] =
        [node].count source * if edge.target = target then 1 else 0 := by
      by_cases same : node = source <;> cases call <;>
        simp [decrements, List.count_singleton, same]
    simp only [Quantity.ofEdge, Quantity.ofDecision] at change
    omega
  · intro query
    rw [inDegree]
    simp only [Shared.setInDegree_node, true_and]
  · intro after member
    rcases Multiset.mem_add.mp member with isNew | isOld
    · exact .inr ⟨told after isNew, walks after isNew⟩
    · exact .inl (Multiset.mem_cons_of_mem isOld)

end Account

end LightFlow
