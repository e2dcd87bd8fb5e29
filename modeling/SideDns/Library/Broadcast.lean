import Mathlib.Data.List.Basic

namespace Broadcast

structure Channel (ε : Type) where
  capacity : Nat
  sent : List ε
  deriving DecidableEq

inductive Recv (ε : Type) where
  | pending
  | ok (event : ε) (next : Nat)
  | lagged (missed next : Nat)
  deriving DecidableEq, Repr

namespace Channel

variable {ε : Type}

def channel (capacity : Nat) : Channel ε := ⟨capacity, []⟩

def send (c : Channel ε) (event : ε) : Channel ε := { c with sent := c.sent ++ [event] }

def subscribe (c : Channel ε) : Nat := c.sent.length

def oldest (c : Channel ε) : Nat := c.sent.length - c.capacity

def recv (c : Channel ε) (next : Nat) : Recv ε :=
  if next < c.oldest then .lagged (c.oldest - next) c.oldest
  else
    match c.sent[next]? with
    | some event => .ok event (next + 1)
    | none => .pending

def unread (c : Channel ε) (next : Nat) : List ε := c.sent.drop next

def lost (c : Channel ε) (next : Nat) : List ε := (c.sent.take c.oldest).drop next

theorem unread_send {c : Channel ε} {next : Nat} (h : next ≤ c.sent.length) (event : ε) :
    (c.send event).unread next = c.unread next ++ [event] := by
  simp only [unread, send]
  exact List.drop_append_of_le_length h

theorem recv_ok_next {c : Channel ε} {next next' : Nat} {event : ε}
    (h : c.recv next = .ok event next') : next' = next + 1 ∧ c.sent[next]? = some event := by
  simp only [recv] at h
  split at h
  · cases h
  · split at h
    · next e he =>
      obtain ⟨rfl,rfl⟩ := Recv.ok.inj h
      exact ⟨rfl,he⟩
    · cases h

theorem recv_ok {c : Channel ε} {next next' : Nat} {event : ε}
    (h : c.recv next = .ok event next') :
    next' ≤ c.sent.length ∧ c.unread next = event :: c.unread next' := by
  obtain ⟨rfl,he⟩ := recv_ok_next h
  obtain ⟨hlt,hget⟩ := List.getElem?_eq_some_iff.mp he
  refine ⟨hlt,?_⟩
  rw [unread, unread, ← hget, List.drop_eq_getElem_cons hlt]

theorem recv_lagged {c : Channel ε} {next next' missed : Nat}
    (h : c.recv next = .lagged missed next') :
    next' ≤ c.sent.length ∧ next < next' ∧ c.unread next = c.lost next ++ c.unread next' ∧
      (c.unread next').length = c.capacity := by
  simp only [recv] at h
  split at h
  · next hlt =>
    obtain ⟨-,rfl⟩ := Recv.lagged.inj h
    have hle : c.oldest ≤ c.sent.length := Nat.sub_le _ _
    refine ⟨hle,hlt,?_,?_⟩
    · rw [unread, unread, lost]
      conv_lhs => rw [← List.take_append_drop c.oldest c.sent]
      apply List.drop_append_of_le_length
      rw [List.length_take]
      omega
    · rw [unread, List.length_drop]
      simp only [oldest] at hlt ⊢
      omega
  · split at h <;> cases h

def heard (c : Channel ε) (registered next : Nat) : List ε := (c.sent.take next).drop registered

@[simp] theorem heard_subscribe (c : Channel ε) : c.heard c.subscribe c.subscribe = [] := by
  simp [heard, subscribe]

theorem heard_send {c : Channel ε} {next : Nat} (h : next ≤ c.sent.length) (event : ε)
    (registered : Nat) : (c.send event).heard registered next = c.heard registered next := by
  rw [heard, heard, send, List.take_append_of_le_length h]

theorem heard_recv {c : Channel ε} {registered next next' : Nat} {event : ε}
    (h : c.recv next = .ok event next') (hr : registered ≤ next) :
    c.heard registered next' = c.heard registered next ++ [event] := by
  obtain ⟨rfl,he⟩ := recv_ok_next h
  obtain ⟨hlt,hget⟩ := List.getElem?_eq_some_iff.mp he
  rw [heard, heard, List.take_add_one, he, Option.toList_some, List.drop_append_of_le_length]
  rw [List.length_take]
  omega

theorem heard_append_unread {c : Channel ε} {registered next : Nat} (hr : registered ≤ next)
    (hn : next ≤ c.sent.length) :
    c.heard registered next ++ c.unread next = c.sent.drop registered := by
  conv_rhs => rw [← List.take_append_drop next c.sent]
  rw [heard, unread, List.drop_append_of_le_length]
  rw [List.length_take]
  omega

end Channel

end Broadcast
