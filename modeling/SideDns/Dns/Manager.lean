import Mathlib.Data.List.Basic
import SideDns.Ipc.Message
import SideDns.Library.Broadcast
import SideDns.Library.Transition

namespace SideDns

open Broadcast (Recv)
open Transition (run Guarded)

inductive SystemCall where
  | apply (domains : List String) (succeeded : Bool)
  | revert (succeeded : Bool)
  deriving DecidableEq, Repr

inductive ManagerPhase where
  | starting
  | cleaned
  | snapshotting
  | applying (domains : List String)
  | waiting
  | stopping
  | returned (succeeded : Bool)
  deriving DecidableEq, Repr

inductive ManagerInput where
  | revert (succeeded : Bool)
  | subscribe (next : Nat)
  | snapshot (domains : List String)
  | apply (succeeded : Bool)
  | recv (result : Recv DnsEvent)
  | closed
  | cancelled
  deriving DecidableEq, Repr

structure Manager where
  phase : ManagerPhase
  next : Nat
  calls : List SystemCall
  deriving DecidableEq, Repr

namespace Manager

def start : Manager := ⟨.starting, 0, []⟩

def step (m : Manager) (input : ManagerInput) : Manager :=
  match m.phase, input with
  | .starting, .revert succeeded =>
      { m with phase := .cleaned, calls := m.calls ++ [.revert succeeded] }
  | .cleaned, .subscribe next => { m with phase := .snapshotting, next := next }
  | .snapshotting, .snapshot domains => { m with phase := .applying domains }
  | .applying domains, .apply succeeded =>
      { m with
        phase := if succeeded then .waiting else .returned false
        calls := m.calls ++ [.apply domains succeeded] }
  | .waiting, .cancelled => { m with phase := .stopping }
  | .waiting, .recv (.ok event next) =>
      { m with phase := if event.rule?.isSome then .snapshotting else .waiting, next := next }
  | .waiting, .recv (.lagged _ next) => { m with next := next }
  | .waiting, .closed => { m with phase := .stopping }
  | .stopping, .revert succeeded =>
      { m with phase := .returned true, calls := m.calls ++ [.revert succeeded] }
  | _, _ => m

def runSystemDnsManager (inputs : List ManagerInput) : Manager := run step start inputs

def Cleaned (calls : List SystemCall) : Prop :=
  ∃ before succeeded after, calls = before ++ .revert succeeded :: after ∧
    ∀ call ∈ after, ∀ domains succeeded, call ≠ .apply domains succeeded

def ApplySucceeds (m : Manager) (input : ManagerInput) : Prop :=
  ∀ domains, m.phase = .applying domains → input ≠ .apply false

inductive Step (m : Manager) : ManagerInput → Manager → Prop where
  | clean (succeeded : Bool) (hp : m.phase = .starting) :
      Step m (.revert succeeded) ⟨.cleaned, m.next, m.calls ++ [.revert succeeded]⟩
  | subscribe (next : Nat) (hp : m.phase = .cleaned) :
      Step m (.subscribe next) ⟨.snapshotting, next, m.calls⟩
  | snapshot (domains : List String) (hp : m.phase = .snapshotting) :
      Step m (.snapshot domains) ⟨.applying domains, m.next, m.calls⟩
  | applied (domains : List String) (hp : m.phase = .applying domains) :
      Step m (.apply true) ⟨.waiting, m.next, m.calls ++ [.apply domains true]⟩
  | failed (domains : List String) (hp : m.phase = .applying domains) :
      Step m (.apply false) ⟨.returned false, m.next, m.calls ++ [.apply domains false]⟩
  | notified (event : DnsEvent) (next : Nat) (hp : m.phase = .waiting)
      (he : event.rule?.isSome = true) :
      Step m (.recv (.ok event next)) ⟨.snapshotting, next, m.calls⟩
  | ignored (event : DnsEvent) (next : Nat) (hp : m.phase = .waiting)
      (he : event.rule?.isSome = false) :
      Step m (.recv (.ok event next)) ⟨.waiting, next, m.calls⟩
  | lagged (missed next : Nat) (hp : m.phase = .waiting) :
      Step m (.recv (.lagged missed next)) ⟨.waiting, next, m.calls⟩
  | leave (input : ManagerInput) (hp : m.phase = .waiting)
      (hi : input = .cancelled ∨ input = .closed) : Step m input ⟨.stopping, m.next, m.calls⟩
  | revert (succeeded : Bool) (hp : m.phase = .stopping) :
      Step m (.revert succeeded) ⟨.returned true, m.next, m.calls ++ [.revert succeeded]⟩
  | idle (input : ManagerInput) (hi : m.ApplySucceeds input) : Step m input m

theorem step_cases (m : Manager) (input : ManagerInput) : Step m input (m.step input) := by
  obtain ⟨phase,next,calls⟩ := m
  cases phase with
  | starting =>
    cases input with
    | revert succeeded => exact .clean succeeded rfl
    | _ => exact .idle _ (by simp [ApplySucceeds])
  | cleaned =>
    cases input with
    | subscribe next => exact .subscribe next rfl
    | _ => exact .idle _ (by simp [ApplySucceeds])
  | snapshotting =>
    cases input with
    | snapshot domains => exact .snapshot domains rfl
    | _ => exact .idle _ (by simp [ApplySucceeds])
  | applying domains =>
    cases input with
    | apply succeeded =>
      cases succeeded with
      | true => exact .applied domains rfl
      | false => exact .failed domains rfl
    | _ => exact .idle _ (by simp [ApplySucceeds])
  | waiting =>
    cases input with
    | recv result =>
      cases result with
      | pending => exact .idle _ (by simp [ApplySucceeds])
      | ok event next =>
        cases event with
        | daemonStopped => exact .ignored _ next rfl rfl
        | _ => exact .notified _ next rfl rfl
      | lagged missed next => exact .lagged missed next rfl
    | closed => exact .leave _ rfl (.inr rfl)
    | cancelled => exact .leave _ rfl (.inl rfl)
    | _ => exact .idle _ (by simp [ApplySucceeds])
  | stopping =>
    cases input with
    | revert succeeded => exact .revert succeeded rfl
    | _ => exact .idle _ (by simp [ApplySucceeds])
  | returned succeeded => exact .idle _ (by simp [ApplySucceeds])

theorem cleaned_revert (calls : List SystemCall) (succeeded : Bool) :
    Cleaned (calls ++ [.revert succeeded]) :=
  ⟨calls,succeeded,[],rfl,by simp⟩

theorem not_cleaned_apply (calls : List SystemCall) (domains : List String) (succeeded : Bool) :
    ¬ Cleaned (calls ++ [.apply domains succeeded]) := by
  rintro ⟨before,reverted,after,heq,hafter⟩
  rcases List.eq_nil_or_concat after with rfl | ⟨init,last,rfl⟩
  · have hlast := congrArg List.getLast? heq
    simp at hlast
  · have hsplit : calls ++ [.apply domains succeeded] =
        (before ++ .revert reverted :: init) ++ [last] := by simpa using heq
    have hl : last = .apply domains succeeded :=
      (List.append_inj' hsplit rfl).2 |> List.cons.inj |>.1 |>.symm
    exact hafter last (by simp) domains succeeded hl

theorem Step.of_returned {m m' : Manager} {input : ManagerInput} {succeeded : Bool}
    (h : Step m input m') (hp : m.phase = .returned succeeded) : m' = m := by
  cases h with
  | idle _ _ => rfl
  | leave _ hw _ => rw [hw] at hp; cases hp
  | _ => simp_all

def LeftBehind (m : Manager) : Prop :=
  m.phase = .returned false ∧ ∃ calls domains, m.calls = calls ++ [.apply domains false]

theorem LeftBehind.run {m : Manager} (h : m.LeftBehind) (inputs : List ManagerInput) :
    (run step m inputs).LeftBehind := by
  refine Transition.run_invariant LeftBehind (fun m input hl => ?_) h inputs
  rw [(m.step_cases input).of_returned hl.1]
  exact hl

theorem leftBehind_of_failure {m : Manager} {input : ManagerInput} (h : ¬ m.ApplySucceeds input) :
    (m.step input).LeftBehind := by
  simp only [ApplySucceeds, not_forall, not_not] at h
  obtain ⟨domains,hp,rfl⟩ := h
  obtain ⟨phase,next,calls⟩ := m
  obtain rfl := hp
  exact ⟨rfl,calls,domains,rfl⟩

def CleansUp (m : Manager) : Prop :=
  ∀ succeeded, m.phase = .returned succeeded → Cleaned m.calls

theorem Step.cleansUp {m m' : Manager} {input : ManagerInput} (h : Step m input m')
    (hm : m.CleansUp) (hi : m.ApplySucceeds input) : m'.CleansUp := by
  cases h with
  | revert reverted _ => exact fun _ _ => cleaned_revert m.calls reverted
  | failed domains hp => exact absurd rfl (hi domains hp)
  | idle _ _ => exact hm
  | _ =>
    intro succeeded hp
    cases hp

theorem returns_cleaned_iff (inputs : List ManagerInput) :
    (runSystemDnsManager inputs).CleansUp ↔ Guarded step ApplySucceeds start inputs := by
  constructor
  · intro hclean
    by_contra hg
    obtain ⟨before,input,after,rfl,hi⟩ := Transition.exists_unguarded hg
    have hl : (runSystemDnsManager (before ++ input :: after)).LeftBehind := by
      rw [runSystemDnsManager, Transition.run_append]
      exact (leftBehind_of_failure hi).run after
    obtain ⟨hp,calls,domains,hcalls⟩ := hl
    have hc := hclean false hp
    rw [hcalls] at hc
    exact not_cleaned_apply calls domains false hc
  · intro hg
    have hstart : start.CleansUp := by
      intro succeeded hp
      cases hp
    exact Transition.guarded_invariant CleansUp
      (fun m input hm hi => (m.step_cases input).cleansUp hm hi) hstart hg

theorem failed_apply_leaves_configuration :
    ¬ ∀ inputs : List ManagerInput, (runSystemDnsManager inputs).CleansUp := by
  intro h
  exact not_cleaned_apply [.revert true] ["a.test"] false
    (h [.revert true,.subscribe 0,.snapshot ["a.test"],.apply false] false rfl)

end Manager

end SideDns
