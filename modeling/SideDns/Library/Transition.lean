import Mathlib.Data.List.Basic

namespace Transition

variable {σ τ α β : Type}

def run (step : σ → α → σ) (s : σ) (acts : List α) : σ := acts.foldl step s

@[simp] theorem run_nil (step : σ → α → σ) (s : σ) : run step s [] = s := rfl

@[simp] theorem run_cons (step : σ → α → σ) (s : σ) (a : α) (acts : List α) :
    run step s (a :: acts) = run step (step s a) acts := rfl

theorem run_append (step : σ → α → σ) (s : σ) (acts acts' : List α) :
    run step s (acts ++ acts') = run step (run step s acts) acts' :=
  List.foldl_append

def Guarded (step : σ → α → σ) (ok : σ → α → Prop) : σ → List α → Prop
  | _, [] => True
  | s, a :: acts => ok s a ∧ Guarded step ok (step s a) acts

instance decidableGuarded {step : σ → α → σ} {ok : σ → α → Prop} [∀ s a, Decidable (ok s a)]
    (s : σ) (acts : List α) : Decidable (Guarded step ok s acts) :=
  match acts with
  | [] => isTrue trivial
  | a :: acts =>
    have : Decidable (Guarded step ok (step s a) acts) := decidableGuarded (step s a) acts
    inferInstanceAs (Decidable (ok s a ∧ Guarded step ok (step s a) acts))

theorem guarded_append {step : σ → α → σ} {ok : σ → α → Prop} (s : σ) (acts acts' : List α) :
    Guarded step ok s (acts ++ acts') ↔
      Guarded step ok s acts ∧ Guarded step ok (run step s acts) acts' := by
  induction acts generalizing s with
  | nil => simp [Guarded]
  | cons a acts ih => simp [Guarded, ih, and_assoc]

theorem exists_unguarded {step : σ → α → σ} {ok : σ → α → Prop} {s : σ} {acts : List α}
    (h : ¬ Guarded step ok s acts) :
    ∃ before a after, acts = before ++ a :: after ∧ ¬ ok (run step s before) a := by
  induction acts generalizing s with
  | nil => exact absurd trivial h
  | cons a acts ih =>
    rcases not_and_or.mp h with ha | hacts
    · exact ⟨[],a,acts,rfl,ha⟩
    · obtain ⟨before,b,after,rfl,hb⟩ := ih hacts
      exact ⟨a :: before,b,after,rfl,hb⟩

theorem guarded_iff_forall {step : σ → α → σ} {ok : α → Prop} {acts : List α} (s : σ) :
    Guarded step (fun _ a => ok a) s acts ↔ ∀ a ∈ acts, ok a := by
  induction acts generalizing s with
  | nil => simp [Guarded]
  | cons a acts ih => rw [Guarded, ih, List.forall_mem_cons]

theorem guarded_of_forall {step : σ → α → σ} {ok : α → Prop} {acts : List α}
    (h : ∀ a ∈ acts, ok a) (s : σ) : Guarded step (fun _ a => ok a) s acts :=
  (guarded_iff_forall s).mpr h

theorem guarded_invariant {step : σ → α → σ} {ok : σ → α → Prop} (Inv : σ → Prop)
    (hstep : ∀ s a, Inv s → ok s a → Inv (step s a)) {s : σ} {acts : List α} (hs : Inv s)
    (hg : Guarded step ok s acts) : Inv (run step s acts) := by
  induction acts generalizing s with
  | nil => exact hs
  | cons a acts ih => exact ih (hstep s a hs hg.1) hg.2

theorem guarded_iff_invariant {step : σ → α → σ} {ok : σ → α → Prop} (Inv : σ → Prop)
    (hstep : ∀ s a, Inv s → (Inv (step s a) ↔ ok s a)) {s : σ} {acts : List α} (hs : Inv s) :
    Guarded step ok s acts ↔ ∀ before, before <+: acts → Inv (run step s before) := by
  constructor
  · rintro hg before ⟨after,rfl⟩
    rw [guarded_append] at hg
    exact guarded_invariant Inv (fun t a ht hok => (hstep t a ht).mpr hok) hs hg.1
  · intro hall
    by_contra hg
    obtain ⟨before,a,after,rfl,ha⟩ := exists_unguarded hg
    have hb := hall before (List.prefix_append _ _)
    have hba := hall (before ++ [a]) ⟨after,by simp⟩
    rw [run_append] at hba
    exact ha ((hstep _ a hb).mp hba)

theorem run_invariant {step : σ → α → σ} (Inv : σ → Prop)
    (hstep : ∀ s a, Inv s → Inv (step s a)) {s : σ} (hs : Inv s) (acts : List α) :
    Inv (run step s acts) := by
  induction acts generalizing s with
  | nil => exact hs
  | cons a acts ih => exact ih (hstep s a hs)

end Transition
