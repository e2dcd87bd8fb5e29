import Mathlib.Data.Finmap
import Mathlib.Data.Multiset.Basic
import SideDns.Library.Sequence

namespace FiniteMap

abbrev HashMap (κ ν : Type) := Finmap fun _ : κ => ν

variable {κ ν : Type}

def values (m : HashMap κ ν) : Multiset ν := m.entries.map Sigma.snd

def size (m : HashMap κ ν) : Nat := m.entries.card

theorem card_values (m : HashMap κ ν) : (values m).card = size m := by
  simp [values, size]

@[simp] theorem values_empty : values (∅ : HashMap κ ν) = 0 := rfl

structure IterationOrder (κ ν : Type) where
  visit : HashMap κ ν → List ν
  visit_values : ∀ m, (visit m : Multiset ν) = values m

noncomputable instance : Inhabited (IterationOrder κ ν) :=
  ⟨⟨fun m => (values m).toList, fun _ => Multiset.coe_toList _⟩⟩

@[simp] theorem IterationOrder.visit_empty (o : IterationOrder κ ν) : o.visit ∅ = [] := by
  apply (Multiset.coe_eq_zero _).mp
  rw [o.visit_values, values_empty]

structure SetOrder (κ : Type) where
  visit : Finset κ → List κ
  visit_val : ∀ s, (visit s : Multiset κ) = s.val

noncomputable instance : Inhabited (SetOrder κ) :=
  ⟨⟨fun s => s.toList, fun s => Finset.coe_toList s⟩⟩

theorem SetOrder.nodup (o : SetOrder κ) (s : Finset κ) : (o.visit s).Nodup := by
  rw [← Multiset.coe_nodup, o.visit_val]
  exact s.nodup

theorem SetOrder.mem_visit (o : SetOrder κ) (s : Finset κ) (k : κ) :
    k ∈ o.visit s ↔ k ∈ s := by
  rw [← Multiset.mem_coe, o.visit_val, Finset.mem_val]

def retain (keep : κ → Bool) (m : HashMap κ ν) : HashMap κ ν :=
  ⟨m.entries.filter (fun e => keep e.1), by
    rw [← Multiset.nodup_keys]
    have hs := Multiset.map_le_map (f := Sigma.fst)
      (Multiset.filter_le (fun e => keep e.1) m.entries)
    exact Multiset.nodup_of_le hs (Multiset.nodup_keys.mpr m.nodupKeys)⟩

def tryRetain (keep : κ → Option Bool) (m : HashMap κ ν) : Option (HashMap κ ν) :=
  if ∀ e ∈ m.entries, (keep e.1).isSome = true then
    some (retain (fun k => keep k == some true) m)
  else none

theorem tryRetain_total {keep : κ → Option Bool} {kept : κ → Bool}
    (h : ∀ k, keep k = some (kept k)) (m : HashMap κ ν) :
    tryRetain keep m = some (retain kept m) := by
  have hsome : ∀ e ∈ m.entries, (keep e.1).isSome = true := by
    intro e _
    rw [h]
    rfl
  have hkept : (fun k => keep k == some true) = kept := by
    funext k
    rw [h]
    cases kept k <;> rfl
  rw [tryRetain, if_pos hsome, hkept]

variable [DecidableEq κ]

theorem mem_values {m : HashMap κ ν} {v : ν} :
    v ∈ values m ↔ ∃ k, m.lookup k = some v := by
  simp only [values, Multiset.mem_map, Sigma.exists, exists_eq_right, Finmap.lookup_eq_some_iff]

theorem IterationOrder.mem_visit (o : IterationOrder κ ν) {m : HashMap κ ν} {v : ν} :
    v ∈ o.visit m ↔ ∃ k, m.lookup k = some v := by
  rw [← Multiset.mem_coe, o.visit_values, mem_values]

theorem values_insert_of_notMem {m : HashMap κ ν} {k : κ} {v : ν} (h : k ∉ m) :
    values (m.insert k v) = v ::ₘ values m := by
  rw [values, Finmap.entries_insert_of_notMem h, Multiset.map_cons, values]

theorem lookup_insert_ite (m : HashMap κ ν) (k k' : κ) (v : ν) :
    (m.insert k v).lookup k' = if k' = k then some v else m.lookup k' := by
  split_ifs with h
  · rw [h]
    exact Finmap.lookup_insert m
  · exact Finmap.lookup_insert_of_ne m h

theorem lookup_erase_ite (m : HashMap κ ν) (k k' : κ) :
    (m.erase k).lookup k' = if k' = k then none else m.lookup k' := by
  split_ifs with h
  · rw [h]
    exact Finmap.lookup_erase k m
  · exact Finmap.lookup_erase_ne h

def KeyedBy (key : ν → κ) (m : HashMap κ ν) : Prop :=
  ∀ k v, m.lookup k = some v → key v = k

theorem keyedBy_empty (key : ν → κ) : KeyedBy key (∅ : HashMap κ ν) := by
  simp [KeyedBy]

theorem KeyedBy.insert {key : ν → κ} {m : HashMap κ ν} (h : KeyedBy key m) (v : ν) :
    KeyedBy key (m.insert (key v) v) := by
  intro k w hw
  rw [lookup_insert_ite] at hw
  split_ifs at hw with hk
  · cases hw
    exact hk.symm
  · exact h k w hw

theorem KeyedBy.erase {key : ν → κ} {m : HashMap κ ν} (h : KeyedBy key m) (k : κ) :
    KeyedBy key (m.erase k) := by
  intro k' w hw
  rw [lookup_erase_ite] at hw
  split_ifs at hw
  exact h k' w hw

theorem KeyedBy.map_values {key : ν → κ} {m : HashMap κ ν} (h : KeyedBy key m) :
    (values m).map key = m.entries.keys := by
  rw [values, Multiset.map_map, Multiset.keys]
  apply Multiset.map_congr rfl
  rintro ⟨k, v⟩ he
  exact h k v (Finmap.lookup_eq_some_iff.mpr he)

theorem KeyedBy.nodup_of_values {key : ν → κ} {m : HashMap κ ν} (h : KeyedBy key m)
    {vs : List ν} (hv : (vs : Multiset ν) = values m) : (vs.map key).Nodup := by
  rw [← Multiset.coe_nodup, ← Multiset.map_coe, hv, h.map_values]
  exact Multiset.nodup_keys.mpr m.nodupKeys

def insertAll (key : ν → κ) (m : HashMap κ ν) (vs : List ν) : HashMap κ ν :=
  vs.foldl (fun m v => m.insert (key v) v) m

@[simp] theorem insertAll_nil (key : ν → κ) (m : HashMap κ ν) : insertAll key m [] = m := rfl

@[simp] theorem insertAll_cons (key : ν → κ) (m : HashMap κ ν) (v : ν) (vs : List ν) :
    insertAll key m (v :: vs) = insertAll key (m.insert (key v) v) vs := rfl

theorem lookup_insertAll (key : ν → κ) (m : HashMap κ ν) {vs : List ν}
    (hn : (vs.map key).Nodup) (k : κ) :
    (insertAll key m vs).lookup k = (vs.find? (fun v => key v == k)).or (m.lookup k) := by
  induction vs generalizing m with
  | nil => simp
  | cons v vs ih =>
    obtain ⟨hv, hvs⟩ := List.nodup_cons.mp hn
    rw [insertAll_cons, ih _ hvs]
    by_cases hk : key v = k
    · subst hk
      have hf : vs.find? (fun w => key w == key v) = none := by
        rw [List.find?_eq_none]
        intro w hw heq
        exact hv (List.mem_map.mpr ⟨w, hw, by simpa using heq⟩)
      simp [hf]
    · simp [hk, Ne.symm hk]

theorem lookup_insertAll_of_ne (key : ν → κ) (m : HashMap κ ν) {vs : List ν} {k : κ}
    (hk : ∀ v ∈ vs, key v ≠ k) : (insertAll key m vs).lookup k = m.lookup k := by
  induction vs generalizing m with
  | nil => rfl
  | cons v vs ih =>
    rw [insertAll_cons, ih _ (fun w hw => hk w (List.mem_cons_of_mem _ hw)),
      Finmap.lookup_insert_of_ne _ (hk v List.mem_cons_self).symm]

theorem values_insertAll (key : ν → κ) (m : HashMap κ ν) {vs : List ν}
    (hn : (vs.map key).Nodup) (hm : ∀ v ∈ vs, key v ∉ m) :
    values (insertAll key m vs) = values m + (vs : Multiset ν) := by
  induction vs generalizing m with
  | nil => simp
  | cons v vs ih =>
    obtain ⟨hv, hvs⟩ := List.nodup_cons.mp hn
    have hfresh : ∀ w ∈ vs, key w ∉ m.insert (key v) v := by
      intro w hw
      rw [Finmap.mem_insert, not_or]
      exact ⟨fun heq => hv (List.mem_map.mpr ⟨w, hw, heq⟩), hm w (List.mem_cons_of_mem _ hw)⟩
    rw [insertAll_cons, ih _ hvs hfresh, values_insert_of_notMem (hm v List.mem_cons_self),
      ← Multiset.cons_coe, Multiset.cons_add, Multiset.add_cons]

theorem find?_of_values (key : ν → κ) {m : HashMap κ ν} (h : KeyedBy key m) {vs : List ν}
    (hv : (vs : Multiset ν) = values m) (k : κ) :
    vs.find? (fun v => key v == k) = m.lookup k := by
  apply Option.ext
  intro v
  rw [Sequence.find?_key_iff key (h.nodup_of_values hv), ← Multiset.mem_coe, hv, mem_values]
  constructor
  · rintro ⟨⟨k',hk'⟩,rfl⟩
    rwa [h k' v hk']
  · exact fun hk => ⟨⟨k,hk⟩,h k v hk⟩

theorem insertAll_of_values (key : ν → κ) {m : HashMap κ ν} (h : KeyedBy key m) {vs : List ν}
    (hv : (vs : Multiset ν) = values m) : insertAll key ∅ vs = m := by
  apply Finmap.ext_lookup
  intro k
  rw [lookup_insertAll key ∅ (h.nodup_of_values hv), find?_of_values key h hv]
  simp

theorem lookup_retain (keep : κ → Bool) (m : HashMap κ ν) (k : κ) :
    (retain keep m).lookup k = if keep k then m.lookup k else none := by
  apply Option.ext
  intro v
  rw [Finmap.lookup_eq_some_iff]
  simp only [retain, Multiset.mem_filter]
  by_cases hk : keep k = true
  · simp [hk, Finmap.lookup_eq_some_iff]
  · simp [hk]

def discard (drop : ν → Bool) (m : HashMap κ ν) : HashMap κ ν :=
  ⟨m.entries.filter (fun e => drop e.2 = false), by
    rw [← Multiset.nodup_keys]
    have hs := Multiset.map_le_map (f := Sigma.fst)
      (Multiset.filter_le (fun e => drop e.2 = false) m.entries)
    exact Multiset.nodup_of_le hs (Multiset.nodup_keys.mpr m.nodupKeys)⟩

theorem lookup_discard (drop : ν → Bool) (m : HashMap κ ν) (k : κ) :
    (discard drop m).lookup k = (m.lookup k).filter (fun v => !drop v) := by
  apply Option.ext
  intro v
  rw [Finmap.lookup_eq_some_iff, Option.filter_eq_some_iff, Finmap.lookup_eq_some_iff]
  simp [discard]

theorem discard_idem (drop : ν → Bool) (m : HashMap κ ν) :
    discard drop (discard drop m) = discard drop m := by
  apply Finmap.ext_lookup
  intro k
  simp only [lookup_discard, Option.filter_filter, Bool.and_self]

theorem size_insert_le (m : HashMap κ ν) (k : κ) (v : ν) : size (m.insert k v) ≤ size m + 1 := by
  induction m using Finmap.induction_on with
  | H s =>
    rw [Finmap.insert_toFinmap]
    change (s.insert k v).entries.length ≤ s.entries.length + 1
    rw [AList.entries_insert]
    exact Nat.succ_le_succ (List.kerase_sublist k s.entries).length_le

theorem size_erase_le (m : HashMap κ ν) (k : κ) : size (m.erase k) ≤ size m := by
  induction m using Finmap.induction_on with
  | H s =>
    rw [Finmap.erase_toFinmap]
    change (s.erase k).entries.length ≤ s.entries.length
    exact (List.kerase_sublist k s.entries).length_le

end FiniteMap
