import Mathlib.Data.List.Basic

abbrev Multimap (κ ν : Type) := List (κ × ν)

namespace Multimap

variable {κ ν : Type} [DecidableEq κ]

def getAll (m : Multimap κ ν) (k : κ) : List ν :=
  m.filterMap (fun e => if e.1 = k then some e.2 else none)

def remove (m : Multimap κ ν) (k : κ) : Multimap κ ν := m.filter (fun e => decide (e.1 ≠ k))

def insert : Multimap κ ν → κ → ν → Multimap κ ν
  | [], k, v => [(k, v)]
  | e :: m, k, v => if e.1 = k then (k, v) :: remove m k else e :: insert m k v

theorem getAll_cons (e : κ × ν) (m : Multimap κ ν) (k : κ) :
    getAll (e :: m) k = if e.1 = k then e.2 :: getAll m k else getAll m k := by
  rw [getAll, List.filterMap_cons]
  split_ifs <;> rfl

theorem remove_cons (e : κ × ν) (m : Multimap κ ν) (k : κ) :
    remove (e :: m) k = if e.1 = k then remove m k else e :: remove m k := by
  rw [remove, List.filter_cons]
  by_cases he : e.1 = k <;> simp [he, remove]

theorem getAll_remove (m : Multimap κ ν) (k k' : κ) :
    getAll (remove m k) k' = if k' = k then [] else getAll m k' := by
  induction m with
  | nil => exact (ite_self _).symm
  | cons e m ih =>
    rw [remove_cons, getAll_cons]
    split_ifs at ih ⊢ with he hk hek
    · exact ih
    · exact absurd (hek.symm.trans he) hk
    · exact ih
    · rw [getAll_cons, if_neg (fun hek => he (hek.trans ‹k' = k›)), ih]
    · rw [getAll_cons, if_pos ‹e.1 = k'›, ih]
    · rw [getAll_cons, if_neg ‹¬e.1 = k'›, ih]

theorem getAll_insert (m : Multimap κ ν) (k k' : κ) (v : ν) :
    getAll (insert m k v) k' = if k' = k then [v] else getAll m k' := by
  induction m with
  | nil =>
    rw [insert, getAll_cons]
    simp only [eq_comm]
    rfl
  | cons e m ih =>
    rw [insert, getAll_cons]
    by_cases he : e.1 = k
    · rw [if_pos he, getAll_cons, getAll_remove]
      rcases eq_or_ne k' k with rfl | hk
      · simp
      · simp [he, hk, hk.symm]
    · rw [if_neg he, getAll_cons, ih]
      rcases eq_or_ne k' k with rfl | hk
      · simp [he]
      · simp [hk]

theorem remove_of_getAll_nil {m : Multimap κ ν} {k : κ} (h : getAll m k = []) :
    remove m k = m := by
  induction m with
  | nil => rfl
  | cons e m ih =>
    rw [getAll_cons] at h
    split_ifs at h with he
    rw [remove_cons, if_neg he, ih h]

theorem insert_of_getAll {m : Multimap κ ν} {k : κ} {v : ν} (h : getAll m k = [v]) :
    insert m k v = m := by
  induction m with
  | nil => cases h
  | cons e m ih =>
    rw [getAll_cons] at h
    rw [insert]
    split_ifs at h ⊢ with he
    · obtain ⟨rfl,hm⟩ := List.cons.inj h
      rw [remove_of_getAll_nil hm, ← he]
    · rw [ih h]

def removeAll (m : Multimap κ ν) (ks : List κ) : Multimap κ ν := ks.foldl remove m

theorem getAll_removeAll (m : Multimap κ ν) (ks : List κ) (k : κ) :
    getAll (removeAll m ks) k = if k ∈ ks then [] else getAll m k := by
  induction ks generalizing m with
  | nil => simp [removeAll]
  | cons k' ks ih =>
    have hrest := ih (remove m k')
    rw [getAll_remove] at hrest
    refine hrest.trans ?_
    by_cases hk : k = k' <;> simp [hk]

theorem removeAll_of_getAll_nil {m : Multimap κ ν} {ks : List κ}
    (h : ∀ k ∈ ks, getAll m k = []) : removeAll m ks = m := by
  induction ks with
  | nil => rfl
  | cons k ks ih =>
    obtain ⟨hk,hks⟩ := List.forall_mem_cons.mp h
    rw [removeAll, List.foldl_cons, remove_of_getAll_nil hk]
    exact ih hks

end Multimap
