import Mathlib.Data.List.Nodup
import Mathlib.Data.List.Perm.Basic

namespace Sequence

variable {α κ : Type}

def swapRemove (l : List α) (i : Nat) : List α :=
  match l.getLast? with
  | none => []
  | some x => (l.set i x).dropLast

theorem swapRemove_last (front : List α) (x : α) :
    swapRemove (front ++ [x]) front.length = front := by
  simp [swapRemove]

theorem swapRemove_middle (front mid : List α) (x z : α) :
    swapRemove (front ++ x :: (mid ++ [z])) front.length = front ++ z :: mid := by
  have hl : (front ++ x :: (mid ++ [z])).getLast? = some z := by
    simp [List.getLast?_append, List.getLast?_cons]
  rw [swapRemove, hl]
  simp only [List.set_append, Nat.lt_irrefl, if_false, Nat.sub_self, List.set_cons_zero]
  rw [← List.cons_append, ← List.append_assoc, List.dropLast_concat]

theorem swapRemove_perm (front back : List α) (x : α) :
    (swapRemove (front ++ x :: back) front.length).Perm (front ++ back) := by
  rcases List.eq_nil_or_concat back with rfl | ⟨mid,z,rfl⟩
  · rw [swapRemove_last, List.append_nil]
  · rw [List.concat_eq_append, swapRemove_middle]
    apply List.Perm.append_left
    exact (List.perm_append_singleton z mid).symm

theorem split_of_findIdx? {p : α → Bool} {l : List α} {i : Nat} (h : l.findIdx? p = some i) :
    ∃ front x back, l = front ++ x :: back ∧ front.length = i ∧ p x = true ∧
      ∀ y ∈ front, p y = false := by
  obtain ⟨hi,hp,hn⟩ := List.findIdx?_eq_some_iff_getElem.mp h
  refine ⟨l.take i,l[i],l.drop (i+1),?_,?_,hp,?_⟩
  · rw [List.getElem_cons_drop, List.take_append_drop]
  · rw [List.length_take]
    omega
  · intro y hy
    obtain ⟨j,hj,rfl⟩ := List.mem_iff_getElem.mp hy
    have hji : j < i := by
      rw [List.length_take] at hj
      omega
    simpa using hn j hji

def overtakes (l : List α) (i : Nat) (q : α → Bool) : Bool :=
  !(l.take i).any q && ((l.drop (i+1)).dropLast).any q && l.getLast?.any q

theorem overtakes_last (front : List α) (x : α) (q : α → Bool) :
    overtakes (front ++ [x]) front.length q = false := by
  simp [overtakes]

theorem overtakes_middle (front mid : List α) (x z : α) (q : α → Bool) :
    overtakes (front ++ x :: (mid ++ [z])) front.length q =
      (!front.any q && mid.any q && q z) := by
  have hl : (front ++ x :: (mid ++ [z])).getLast? = some z := by
    simp [List.getLast?_append, List.getLast?_cons]
  have hd : (front ++ x :: (mid ++ [z])).drop (front.length+1) = mid ++ [z] := by
    simp
  rw [overtakes, hl, hd, List.dropLast_concat, List.take_left]
  rfl

theorem find?_swap_last (mid : List α) (z : α) (q : α → Bool)
    (h : (mid.any q && q z) = false) : (z :: mid).find? q = (mid ++ [z]).find? q := by
  cases hq : q z with
  | false => simp [List.find?_append, hq]
  | true =>
    have hmid : mid.find? q = none := by
      simpa [hq] using h
    rw [List.find?_cons_of_pos hq, List.find?_append, hmid, Option.none_or,
      List.find?_cons_of_pos hq]

theorem find?_front_middle (front mid : List α) (x z : α) (q : α → Bool) (hx : q x = false) :
    (front ++ x :: (mid ++ [z])).find? q = (front.find? q).or ((mid ++ [z]).find? q) := by
  rw [List.find?_append, List.find?_cons_of_neg (by simp [hx])]

theorem find?_swapRemove (front back : List α) (x : α) (q : α → Bool) (hx : q x = false)
    (h : overtakes (front ++ x :: back) front.length q = false) :
    (swapRemove (front ++ x :: back) front.length).find? q = (front ++ x :: back).find? q := by
  rcases List.eq_nil_or_concat back with rfl | ⟨mid,z,rfl⟩
  · rw [swapRemove_last]
    simp [List.find?_append, hx]
  · rw [List.concat_eq_append] at h ⊢
    rw [overtakes_middle] at h
    rw [swapRemove_middle, find?_front_middle front mid x z q hx, List.find?_append]
    cases hf : front.find? q with
    | none =>
      have hany : front.any q = false := by simpa using hf
      rw [find?_swap_last mid z q (by simpa [hany] using h)]
    | some y => rfl

theorem find?_swapRemove_overtakes (front back : List α) (x : α) (q : α → Bool)
    (hx : q x = false) (hn : (front ++ x :: back).Nodup)
    (h : overtakes (front ++ x :: back) front.length q = true) :
    ∃ y z, y ≠ z ∧ (front ++ x :: back).find? q = some y ∧
      (swapRemove (front ++ x :: back) front.length).find? q = some z := by
  rcases List.eq_nil_or_concat back with rfl | ⟨mid,z,rfl⟩
  · rw [overtakes_last] at h
    cases h
  · rw [List.concat_eq_append] at h hn ⊢
    rw [overtakes_middle, Bool.and_eq_true, Bool.and_eq_true] at h
    obtain ⟨⟨hfront,hmid⟩,hz⟩ := h
    have hf : front.find? q = none := by simpa using hfront
    obtain ⟨y,hy⟩ := Option.isSome_iff_exists.mp (by simpa using hmid : (mid.find? q).isSome)
    have hback : (mid ++ [z]).Nodup := (List.nodup_append.mp hn).2.1.of_cons
    refine ⟨y,z,?_,?_,?_⟩
    · exact (List.nodup_append.mp hback).2.2 y (List.mem_of_find?_eq_some hy) z (by simp)
    · rw [find?_front_middle front mid x z q hx, hf, Option.none_or, List.find?_append, hy,
        Option.some_or]
    · rw [swapRemove_middle, List.find?_append, hf, Option.none_or, List.find?_cons_of_pos hz]

theorem find?_first_class {classes : List (List α)} {q : α → Bool} {x : α}
    (h : classes.flatten.find? q = some x) :
    q x = true ∧ ∃ higher cls lower, classes = higher ++ cls :: lower ∧ x ∈ cls ∧
      ∀ c ∈ higher, ∀ y ∈ c, q y = false := by
  obtain ⟨hq,higher,front,back,lower,hc,hhigher,-⟩ := List.find?_flatten_eq_some_iff.mp h
  refine ⟨hq,higher,front ++ x :: back,lower,hc,by simp,?_⟩
  intro c hc' y hy
  simpa using hhigher c hc' y hy

variable [DecidableEq κ]

theorem find?_key_iff (key : α → κ) {l : List α} (hn : (l.map key).Nodup) {k : κ} {x : α} :
    l.find? (fun y => key y == k) = some x ↔ x ∈ l ∧ key x = k := by
  induction l with
  | nil => simp
  | cons y l ih =>
    obtain ⟨hy,hl⟩ := List.nodup_cons.mp hn
    by_cases hk : key y = k
    · subst hk
      rw [List.find?_cons_of_pos (by simp), Option.some.injEq, List.mem_cons]
      constructor
      · rintro rfl
        exact ⟨.inl rfl,rfl⟩
      · rintro ⟨rfl | hx,heq⟩
        · rfl
        · exact absurd (heq ▸ List.mem_map_of_mem hx) hy
    · rw [List.find?_cons_of_neg (by simpa using hk), ih hl, List.mem_cons]
      constructor
      · rintro ⟨hx,heq⟩
        exact ⟨.inr hx,heq⟩
      · rintro ⟨rfl | hx,heq⟩
        · exact absurd heq hk
        · exact ⟨hx,heq⟩

theorem find?_key_perm (key : α → κ) {l l' : List α} (hp : l.Perm l')
    (hn : (l.map key).Nodup) (k : κ) :
    l.find? (fun y => key y == k) = l'.find? (fun y => key y == k) := by
  have hn' : (l'.map key).Nodup := (hp.map key).nodup_iff.mp hn
  apply Option.ext
  intro x
  rw [find?_key_iff key hn, find?_key_iff key hn', hp.mem_iff]

theorem find?_key_none {key : α → κ} {l : List α} {k : κ} (h : ∀ x ∈ l, key x ≠ k) :
    l.find? (fun y => key y == k) = none := by
  rw [List.find?_eq_none]
  intro x hx
  simpa using h x hx

theorem mem_or_mem_set {l : List α} {i : Nat} {a x : α} (hi : l[i]? = some a)
    (hx : x ∈ l) (b : α) : x = a ∨ x ∈ l.set i b := by
  induction l generalizing i with
  | nil => cases hx
  | cons y l ih =>
    cases i with
    | zero =>
      obtain rfl := Option.some.inj hi
      rcases List.mem_cons.mp hx with rfl | hx
      · exact .inl rfl
      · exact .inr (List.mem_cons_of_mem b hx)
    | succ i =>
      rcases List.mem_cons.mp hx with rfl | hx
      · exact .inr List.mem_cons_self
      · rcases ih hi hx with rfl | hs
        · exact .inl rfl
        · exact .inr (List.mem_cons_of_mem y hs)

theorem filterMap_set_perm {β : Type} (f : α → Option β) {l : List α} {i : Nat} {a : α}
    (hi : l[i]? = some a) (b : α) :
    ((f b).toList ++ l.filterMap f).Perm ((f a).toList ++ (l.set i b).filterMap f) := by
  have hcons (c : α) (l : List α) : (c :: l).filterMap f = (f c).toList ++ l.filterMap f := by
    cases hc : f c <;> simp [hc]
  induction l generalizing i with
  | nil => cases hi
  | cons y l ih =>
    cases i with
    | zero =>
      obtain rfl := Option.some.inj hi
      rw [List.set_cons_zero, hcons, hcons, ← List.append_assoc, ← List.append_assoc]
      exact List.perm_append_comm.append_right _
    | succ i =>
      rw [List.set_cons_succ, hcons, hcons]
      refine List.perm_append_comm_assoc _ _ _ |>.trans ?_
      refine ((ih hi).append_left _).trans ?_
      exact List.perm_append_comm_assoc _ _ _

theorem window_prefix_iff (l : List α) {a b r : Nat} (ha : a ≤ l.length) (hb : b ≤ l.length) :
    (l.take a).drop r <+: (l.take b).drop r ↔ a ≤ max r b := by
  constructor
  · intro h
    have hlen := h.length_le
    simp only [List.length_drop, List.length_take] at hlen
    omega
  · intro h
    rw [List.drop_take, List.drop_take]
    exact List.take_prefix_take_left (by omega)

theorem window_eq_iff (l : List α) {a b r : Nat} (ha : a ≤ l.length) (hb : b ≤ l.length)
    (hr : r ≤ a) : (l.take a).drop r = (l.take b).drop r ↔ a ≤ max r b ∧ b ≤ a := by
  constructor
  · intro h
    have hlen := congrArg List.length h
    simp only [List.length_drop, List.length_take] at hlen
    have hle := (window_prefix_iff l ha hb (r := r)).mp (h ▸ List.prefix_rfl)
    omega
  · rintro ⟨hle,hba⟩
    refine ((window_prefix_iff l ha hb).mpr hle).eq_of_length ?_
    simp only [List.length_drop, List.length_take]
    omega

theorem getElem?_of_initial {l l' : List α} (h : l <+: l') {i : Nat} {a : α}
    (hi : l[i]? = some a) : l'[i]? = some a := by
  obtain ⟨rest,rfl⟩ := h
  rw [List.getElem?_append_left (List.getElem?_eq_some_iff.mp hi).1, hi]

end Sequence
