import Mathlib.Data.Nat.Init

/-!
# Areas of memory

An area is a range of addresses.  Areas are apart when they have no address in common, and what
lies within them is then apart as well.
-/

namespace LightFlow

structure Area where
  start : Nat
  size : Nat
  deriving DecidableEq, Repr

namespace Area

/-- The first address behind the area. -/
def stop (area : Area) : Nat := area.start + area.size

def Apart (one other : Area) : Prop := one.stop ≤ other.start ∨ other.stop ≤ one.start

def Within (inner outer : Area) : Prop := outer.start ≤ inner.start ∧ inner.stop ≤ outer.stop

instance (one other : Area) : Decidable (one.Apart other) :=
  inferInstanceAs (Decidable (_ ∨ _))

instance (inner outer : Area) : Decidable (inner.Within outer) :=
  inferInstanceAs (Decidable (_ ∧ _))

variable {one other inner outer : Area}

theorem Apart.symm (apart : one.Apart other) : other.Apart one := Or.symm apart

theorem Within.refl (area : Area) : area.Within area := ⟨Nat.le_refl _, Nat.le_refl _⟩

theorem Within.trans {middle : Area} (within : inner.Within middle) (onward : middle.Within outer) :
    inner.Within outer :=
  ⟨Nat.le_trans onward.1 within.1, Nat.le_trans within.2 onward.2⟩

/-- What lies within areas that are apart is apart. -/
theorem Apart.within (apart : one.Apart other) {first second : Area} (inOne : first.Within one)
    (inOther : second.Within other) : first.Apart second := by
  rcases apart with before | behind
  · exact .inl (Nat.le_trans inOne.2 (Nat.le_trans before inOther.1))
  · exact .inr (Nat.le_trans inOther.2 (Nat.le_trans behind inOne.1))

theorem Apart.singleton (apart : one.Apart other) : ∀ area ∈ [other], one.Apart area :=
  fun _ member => List.mem_singleton.mp member ▸ apart

/-- Without addresses. -/
def null : Area := ⟨0, 0⟩

theorem null_apart (area : Area) : null.Apart area := .inl (Nat.zero_le _)

/-- The area takes no address from outside of another one. -/
def Inside (inner outer : Area) : Prop := inner = null ∨ inner.Within outer

theorem Apart.inside (apart : one.Apart other) {first second : Area} (inOne : first.Inside one)
    (inOther : second.Inside other) : first.Apart second := by
  rcases inOne with rfl | inOne
  · exact null_apart _
  · rcases inOther with rfl | inOther
    · exact (null_apart _).symm
    · exact apart.within inOne inOther

/-- An area that has addresses is not apart from itself. -/
theorem Apart.ne (apart : one.Apart other) (some : 0 < one.size) : one ≠ other := by
  rintro rfl
  have : one.stop = one.start + one.size := rfl
  rcases apart with before | before <;> omega

end Area

/-! ## Owners -/

universe u

/-- Areas that somebody owns are apart. -/
def OwnedApart {Holder : Type u} (owner : Area → Option Holder) : Prop :=
  ∀ one other, (owner one).isSome → (owner other).isSome → one ≠ other → one.Apart other

namespace OwnedApart

variable {Holder : Type u} {owner : Area → Option Holder}

/-- Areas may change hands. -/
theorem mono (apart : OwnedApart owner) {next : Area → Option Holder}
    (keeps : ∀ area, (next area).isSome → (owner area).isSome) : OwnedApart next :=
  fun one other isOne isOther different =>
    apart one other (keeps one isOne) (keeps other isOther) different

/-- Areas that are apart from all others get owners. -/
theorem added (apart : OwnedApart owner) {next : Area → Option Holder} (isNew : Area → Prop)
    (known : ∀ area, (next area).isSome → isNew area ∨ (owner area).isSome)
    (each : ∀ one other, isNew one → isNew other → one ≠ other → one.Apart other)
    (fresh : ∀ one other, isNew one → (owner other).isSome → one.Apart other) :
    OwnedApart next := by
  intro one other isOne isOther different
  rcases known one isOne with newOne | oldOne
  · rcases known other isOther with newOther | oldOther
    · exact each one other newOne newOther different
    · exact fresh one other newOne oldOther
  · rcases known other isOther with newOther | oldOther
    · exact (fresh other one newOther oldOne).symm
    · exact apart one other oldOne oldOther different

end OwnedApart

end LightFlow
