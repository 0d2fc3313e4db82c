import LightFlow.Lib.Machine
import LightFlow.Memory.Callbacks
import Mathlib.Algebra.BigOperators.Group.List.Basic

/-!
# Pools with their arenas

Any number of pools and of arenas over them live side by side.  A pool that is moved goes on
under another address; the pools that a pool was moved to are one line, which the entries of the
ledger of callback calls name.
-/

namespace LightFlow

/-- How the first pool of a line was made. -/
inductive PoolOrigin where
  | callbacks (callbacks : MemoryCallbacks)
  | buffer
  deriving DecidableEq, Repr

/-- A pool that is not destroyed. -/
structure LivePool where
  line : Nat
  pool : BlockPool
  deriving DecidableEq, Repr

/-- Pools and arenas by their addresses; the destroyed ones are `none`. -/
structure MemorySystem where
  /-- `next` in the headers of the slabs. -/
  next : Nat → Option Nat
  pools : List (Option LivePool) := []
  arenas : List (Option SlabArena) := []
  /-- The lines of pools, in the order of their making. -/
  origins : List PoolOrigin := []
  /-- Calls of the callbacks with the line of the pool, newest first. -/
  ledger : List (Option Nat × MemoryEvent) := []

/-- The operations. -/
inductive MemoryCall where
  | constructPool (callbacks : MemoryCallbacks) (initial_slabs chunk_slabs : Nat)
      (allow_growth : Bool) (answers : MemoryAnswers)
  | fromBuffer (buffer bytes : Nat) (answers : MemoryAnswers)
  | movePool (other : Nat)
  | destroyPool (pool : Nat)
  | acquireSlab (pool : Nat) (answers : MemoryAnswers)
  | releaseSlabChain (pool : Nat) (head tail : Option Nat) (count : Nat)
  | constructArena (pool : Nat)
  | allocate (arena bytes alignment : Nat) (answers : MemoryAnswers)
  | allocateSpan (arena size alignment count : Nat) (answers : MemoryAnswers)
  | reset (arena : Nat)
  | moveArena (other : Nat)
  | assignArena (arena other : Nat)
  | destroyArena (arena : Nat)
  deriving DecidableEq, Repr

namespace MemorySystem

/-- The pool at an address. -/
def livePool (system : MemorySystem) (address : Nat) : Option LivePool :=
  (system.pools[address]?).join

/-- The arena at an address. -/
def liveArena (system : MemorySystem) (address : Nat) : Option SlabArena :=
  (system.arenas[address]?).join

/-- The pool that `m_pool` points to. -/
def behind (system : MemorySystem) (arena : SlabArena) : Option LivePool :=
  arena.m_pool.bind system.livePool

/-- No arena refers to the pool. -/
def unreferenced (system : MemorySystem) (address : Nat) : Bool :=
  system.arenas.all fun arena => arena.all fun arena => arena.m_pool ≠ some address

/-- The memory that a call begins with; what it logs is added to the ledger. -/
def memory (system : MemorySystem) : Memory := { next := system.next }

/-- The entries that a call adds. -/
def entries (line : Option Nat) (log : List MemoryEvent) : List (Option Nat × MemoryEvent) :=
  log.map (line, ·)

/-- A new pool was made. -/
def addPool (system : MemorySystem) (origin : PoolOrigin) (built : Memory × BlockPool) :
    MemorySystem :=
  { system with
    next := built.1.next
    pools := system.pools ++ [some ⟨system.origins.length, built.2⟩]
    origins := system.origins ++ [origin]
    ledger := entries (some system.origins.length) built.1.log ++ system.ledger }

/-- A call on a pool returned. -/
def setPool (system : MemorySystem) (address : Nat) (live : LivePool)
    (called : Memory × BlockPool) : MemorySystem :=
  { system with
    next := called.1.next
    pools := system.pools.set address (some { live with pool := called.2 })
    ledger := entries (some live.line) called.1.log ++ system.ledger }

/-- A call on an arena returned, with what is now at its address. -/
def setArena (system : MemorySystem) (address : Nat) (arena : SlabArena)
    (after : Memory) (pool : Option BlockPool) (next : Option SlabArena) : MemorySystem :=
  { system with
    next := after.next
    pools := match arena.m_pool, system.behind arena, pool with
      | some behind, some live, some pool => system.pools.set behind (some { live with pool })
      | _, _, _ => system.pools
    arenas := system.arenas.set address next
    ledger := entries ((system.behind arena).map (·.line)) after.log ++ system.ledger }

/-- `reset()`, with what is at the address of the arena afterwards. -/
def resetArena (system : MemorySystem) (address : Nat) (arena : SlabArena)
    (next : SlabArena → Option SlabArena) : MemorySystem :=
  let (after, pool, rest) := arena.reset ((system.behind arena).map (·.pool)) system.memory
  system.setArena address arena after pool (next rest)

/-- The system after an operation; `none` where the operation is not possible. -/
def perform (system : MemorySystem) : MemoryCall → Option MemorySystem
  | .constructPool callbacks initial_slabs chunk_slabs allow_growth answers =>
      if answers.Proper then
        some (system.addPool (.callbacks callbacks)
          (BlockPool.construct callbacks initial_slabs chunk_slabs allow_growth answers
            system.memory))
      else none
  | .fromBuffer buffer bytes answers =>
      some (system.addPool .buffer (BlockPool.fromBuffer buffer bytes answers system.memory))
  | .movePool other => (system.livePool other).map fun live =>
      { system with
        pools := system.pools.set other (some { live with pool := (BlockPool.move live.pool).2 })
          ++ [some { live with pool := (BlockPool.move live.pool).1 }] }
  | .destroyPool pool =>
      if system.unreferenced pool then
        (system.livePool pool).map fun live =>
          let after := live.pool.destroy system.memory
          { system with
            next := after.next
            pools := system.pools.set pool none
            ledger := entries (some live.line) after.log ++ system.ledger }
      else none
  | .acquireSlab pool answers =>
      if answers.Proper then
        (system.livePool pool).map fun live =>
          let (after, next, _) := live.pool.acquireSlab answers system.memory
          system.setPool pool live (after, next)
      else none
  | .releaseSlabChain pool head tail count => (system.livePool pool).map fun live =>
      system.setPool pool live (live.pool.releaseSlabChain head tail count system.memory)
  | .constructArena pool => (system.livePool pool).map fun _ =>
      { system with arenas := system.arenas ++ [some (.construct pool)] }
  | .allocate arena bytes alignment answers =>
      if answers.Proper then
        (system.liveArena arena).map fun value =>
          let returned := value.allocate bytes alignment answers
            ((system.behind value).map (·.pool)) system.memory
          system.setArena arena value returned.memory returned.pool (some returned.arena)
      else none
  | .allocateSpan arena size alignment count answers =>
      if answers.Proper then
        (system.liveArena arena).map fun value =>
          let returned := value.allocateSpan size alignment count answers
            ((system.behind value).map (·.pool)) system.memory
          system.setArena arena value returned.memory returned.pool (some returned.arena)
      else none
  | .reset arena => (system.liveArena arena).map fun value =>
      system.resetArena arena value some
  | .moveArena other => (system.liveArena other).map fun value =>
      { system with
        arenas := system.arenas.set other (some SlabArena.movedFrom) ++ [some value] }
  | .assignArena arena other => (system.liveArena arena).bind fun value =>
      (system.liveArena other).map fun moved =>
        if arena = other then system
        else
          let reset := system.resetArena arena value some
          { reset with
            arenas := (reset.arenas.set arena (some moved)).set other
              (some SlabArena.movedFrom) }
  | .destroyArena arena => (system.liveArena arena).map fun value =>
      system.resetArena arena value fun _ => none

end MemorySystem

/-- The runs begin without pools and arenas. -/
def memorySystem : Machine MemorySystem MemoryCall where
  initial := fun system => ∃ next, system = { next }
  step := MemorySystem.perform

end LightFlow
