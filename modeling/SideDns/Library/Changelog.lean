import Mathlib.Logic.Function.Basic

namespace Changelog

variable {κ ν : Type}

structure Change (κ ν : Type) where
  key : κ
  value : Option ν
  deriving DecidableEq

def Follows (seen store : κ → Option ν) (pending : Change κ ν → Prop) : Prop :=
  ∀ k, seen k = store k ∨ pending ⟨k, store k⟩

variable {seen store : κ → Option ν} {pending pending' : Change κ ν → Prop}

theorem follows_refl (m : κ → Option ν) (pending : Change κ ν → Prop) :
    Follows m m pending := fun _ => .inl rfl

theorem Follows.weaken (h : Follows seen store pending) (hp : ∀ c, pending c → pending' c) :
    Follows seen store pending' := fun k => (h k).imp_right (hp _)

theorem Follows.settled (h : Follows seen store pending) (hp : ∀ c, ¬ pending c) :
    seen = store := funext fun k => (h k).resolve_right (hp _)

variable [DecidableEq κ]

def Change.apply (c : Change κ ν) (m : κ → Option ν) : κ → Option ν :=
  Function.update m c.key c.value

theorem Follows.write (h : Follows seen store pending) (c : Change κ ν)
    (hp : ∀ c', pending c' → pending' c') (hc : pending' c) :
    Follows seen (c.apply store) pending' := by
  intro k
  rcases eq_or_ne k c.key with rfl | hne
  · right
    simpa [Change.apply] using hc
  · simpa [Change.apply, Function.update_of_ne hne] using (h k).imp_right (hp _)

theorem Follows.publish_iff (h : Follows seen store pending) (c : Change κ ν)
    (hp : ∀ c', pending c' → c' = c ∨ pending' c') :
    Follows (c.apply seen) store pending' ↔
      c.value = store c.key ∨ pending' ⟨c.key, store c.key⟩ := by
  constructor
  · intro h'
    simpa [Change.apply] using h' c.key
  · intro hc k
    rcases eq_or_ne k c.key with rfl | hne
    · simpa [Change.apply] using hc
    · rw [Change.apply, Function.update_of_ne hne]
      rcases h k with heq | hk
      · exact .inl heq
      · rcases hp _ hk with rfl | hk'
        · exact absurd rfl hne
        · exact .inr hk'

end Changelog
