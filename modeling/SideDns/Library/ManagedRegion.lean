import Mathlib.Data.List.Induction
import Mathlib.Data.Set.Lattice

namespace Managed

inductive Call (δ : Type) where
  | apply (wish : δ) (succeeded : Bool)
  | revert (succeeded : Bool)
  deriving DecidableEq, Repr

structure Configurator (σ φ ε δ : Type) where
  foreign : σ → φ
  entries : σ → Set ε
  wanted : δ → Set ε
  partly : δ → Set ε
  apply : δ → Bool → σ → σ → Prop
  revert : Bool → σ → σ → Prop

namespace Configurator

variable {σ φ ε δ : Type} (C : Configurator σ φ ε δ)

structure Lawful : Prop where
  apply_foreign : ∀ {wish succeeded s s'}, C.apply wish succeeded s s' → C.foreign s' = C.foreign s
  revert_foreign : ∀ {succeeded s s'}, C.revert succeeded s s' → C.foreign s' = C.foreign s
  apply_done : ∀ {wish s s'}, C.apply wish true s s' → C.entries s' = C.wanted wish
  apply_failed : ∀ {wish s s'}, C.apply wish false s s' →
    C.entries s' ⊆ C.entries s ∪ C.partly wish
  revert_done : ∀ {s s'}, C.revert true s s' → C.entries s' = ∅
  revert_failed : ∀ {s s'}, C.revert false s s' → C.entries s' ⊆ C.entries s
  wanted_partly : ∀ wish, C.wanted wish ⊆ C.partly wish

inductive Runs (s : σ) : List (Call δ) → σ → Prop where
  | nil : Runs s [] s
  | apply {s' s'' : σ} {calls : List (Call δ)} {wish : δ} {succeeded : Bool}
      (h : Runs s calls s') (ha : C.apply wish succeeded s' s'') :
      Runs s (calls ++ [.apply wish succeeded]) s''
  | revert {s' s'' : σ} {calls : List (Call δ)} {succeeded : Bool}
      (h : Runs s calls s') (hr : C.revert succeeded s' s'') :
      Runs s (calls ++ [.revert succeeded]) s''

def bound (C : Configurator σ φ ε δ) (before : Set ε) : List (Call δ) → Set ε :=
  List.foldl (fun region call =>
    match call with
    | .apply wish true => C.wanted wish
    | .apply wish false => region ∪ C.partly wish
    | .revert true => ∅
    | .revert false => region) before

variable {C}

theorem bound_append (before : Set ε) (calls calls' : List (Call δ)) :
    C.bound before (calls ++ calls') = C.bound (C.bound before calls) calls' :=
  List.foldl_append

theorem bound_reverts {region : Set ε} {calls : List (Call δ)}
    (h : ∀ call ∈ calls, ∃ succeeded, call = .revert succeeded) :
    C.bound region calls ⊆ region := by
  induction calls using List.reverseRecOn with
  | nil => exact subset_rfl
  | append_singleton calls call ih =>
    obtain ⟨hcalls,hcall⟩ := List.forall_mem_append.mp h
    obtain ⟨succeeded,rfl⟩ := hcall call (List.mem_singleton_self call)
    rw [bound_append]
    cases succeeded with
    | true => exact Set.empty_subset region
    | false => exact ih hcalls

theorem Runs.foreign (hC : C.Lawful) {s s' : σ} {calls : List (Call δ)} (h : C.Runs s calls s') :
    C.foreign s' = C.foreign s := by
  induction h with
  | nil => rfl
  | apply _ ha ih => exact (hC.apply_foreign ha).trans ih
  | revert _ hr ih => exact (hC.revert_foreign hr).trans ih

theorem Runs.entries_subset (hC : C.Lawful) {s s' : σ} {calls : List (Call δ)}
    (h : C.Runs s calls s') : C.entries s' ⊆ C.bound (C.entries s) calls := by
  induction h with
  | nil => exact subset_rfl
  | @apply s' s'' calls wish succeeded _ ha ih =>
    rw [bound_append]
    cases succeeded with
    | true => exact (hC.apply_done ha).le
    | false => exact (hC.apply_failed ha).trans (Set.union_subset_union_left _ ih)
  | @revert s' s'' calls succeeded _ hr ih =>
    rw [bound_append]
    cases succeeded with
    | true => exact (hC.revert_done hr).le
    | false => exact (hC.revert_failed hr).trans ih

theorem Runs.applied (hC : C.Lawful) {s s' : σ} {calls : List (Call δ)} {wish : δ}
    (h : C.Runs s (calls ++ [.apply wish true]) s') : C.entries s' = C.wanted wish := by
  generalize hcalls : calls ++ [.apply wish true] = whole at h
  cases h with
  | nil => exact absurd hcalls (by simp)
  | apply _ ha =>
    obtain ⟨rfl,rfl⟩ := Call.apply.inj (List.append_singleton_inj.mp hcalls).2
    exact hC.apply_done ha
  | revert _ _ => cases (List.append_singleton_inj.mp hcalls).2

theorem Runs.reverted (hC : C.Lawful) {s s' : σ} {calls : List (Call δ)}
    (h : C.Runs s (calls ++ [.revert true]) s') : C.entries s' = ∅ := by
  generalize hcalls : calls ++ [.revert true] = whole at h
  cases h with
  | nil => exact absurd hcalls (by simp)
  | apply _ _ => cases (List.append_singleton_inj.mp hcalls).2
  | revert _ hr =>
    obtain rfl := Call.revert.inj (List.append_singleton_inj.mp hcalls).2
    exact hC.revert_done hr

def Touched (C : Configurator σ φ ε δ) (calls : List (Call δ)) : Set ε :=
  {e | ∃ wish succeeded, .apply wish succeeded ∈ calls ∧ e ∈ C.partly wish}

theorem bound_touched (hC : C.Lawful) (before : Set ε) (calls : List (Call δ)) :
    C.bound before calls ⊆ before ∪ C.Touched calls := by
  induction calls using List.reverseRecOn with
  | nil => exact Set.subset_union_left
  | append_singleton calls call ih =>
    have hgrow : before ∪ C.Touched calls ⊆ before ∪ C.Touched (calls ++ [call]) := by
      refine Set.union_subset_union_right _ ?_
      rintro e ⟨wish,succeeded,hmem,he⟩
      exact ⟨wish,succeeded,List.mem_append_left _ hmem,he⟩
    rw [bound_append]
    cases call with
    | apply wish succeeded =>
      have hpartly : C.partly wish ⊆ C.Touched (calls ++ [.apply wish succeeded]) := fun e he =>
        ⟨wish,succeeded,by simp,he⟩
      cases succeeded with
      | true => exact ((hC.wanted_partly wish).trans hpartly).trans Set.subset_union_right
      | false =>
        exact Set.union_subset (ih.trans hgrow) (hpartly.trans Set.subset_union_right)
    | revert succeeded =>
      cases succeeded with
      | true => exact Set.empty_subset _
      | false => exact ih.trans hgrow

end Configurator

end Managed
