import Mathlib.Data.Finset.Card
import Mathlib.Logic.Relation

namespace Worklist

open Relation (ReflTransGen)

variable {κ : Type}

structure State (κ : Type) where
  visited : Finset κ
  pending : List κ

def start (root : κ) : State κ := ⟨∅, [root]⟩

structure SingleParent (children : κ → List κ) : Prop where
  nodup : ∀ k, (children k).Nodup
  unique : ∀ k k' c, c ∈ children k → c ∈ children k' → k = k'

def Reaches (children : κ → List κ) (root k : κ) : Prop :=
  ReflTransGen (fun a b => b ∈ children a) root k

structure Searched (children : κ → List κ) (root : κ) (popped : List κ) (s : State κ) : Prop where
  visited : ∀ k, k ∈ s.visited ↔ k ∈ popped
  nodup : (popped ++ s.pending).Nodup
  waiting : ∀ k ∈ s.pending, k = root ∧ popped = [] ∨ ∃ p ∈ popped, k ∈ children p
  closed : ∀ p ∈ popped, ∀ c ∈ children p, c ∈ popped ++ s.pending
  reached : ∀ k ∈ popped ++ s.pending, Reaches children root k
  root : root ∈ popped ++ s.pending

variable {children : κ → List κ} {root : κ}

theorem searched_start (children : κ → List κ) (root : κ) :
    Searched children root [] (start root) where
  visited := by simp [start]
  nodup := by simp [start]
  waiting := by simp [start]
  closed := by simp
  reached := by
    intro k hk
    obtain rfl : k = root := by simpa [start] using hk
    exact .refl
  root := by simp [start]

theorem Searched.rest_parent {popped rest : List κ} {visited : Finset κ} {k : κ}
    (h : Searched children root popped ⟨visited, k :: rest⟩) {c : κ} (hc : c ∈ rest) :
    ∃ p ∈ popped, c ∈ children p := by
  rcases h.waiting c (List.mem_cons_of_mem k hc) with ⟨rfl,rfl⟩ | hparent
  · rcases h.waiting k List.mem_cons_self with ⟨rfl,-⟩ | ⟨p,hpop,-⟩
    · exact absurd hc (List.nodup_cons.mp (by simpa using h.nodup)).1
    · cases hpop
  · exact hparent

theorem Searched.pop_unshared {popped rest : List κ} {visited : Finset κ} {k : κ}
    (hp : SingleParent children) (h : Searched children root popped ⟨visited, k :: rest⟩) {c : κ}
    (hc : c ∈ children k) : c ∉ rest := by
  intro hrest
  obtain ⟨-,-,hdisjoint⟩ := List.nodup_append.mp h.nodup
  obtain ⟨p,hpop,hcp⟩ := h.rest_parent hrest
  obtain rfl := hp.unique p k c hcp hc
  exact hdisjoint p hpop p List.mem_cons_self rfl

theorem Searched.reaches_iff {popped : List κ} {s : State κ}
    (h : Searched children root popped s) (hdone : s.pending = []) (k : κ) :
    k ∈ s.visited ↔ Reaches children root k := by
  have hclosed := h.closed
  have hreached := h.reached
  have hroot := h.root
  rw [hdone, List.append_nil] at hclosed hreached hroot
  rw [h.visited]
  refine ⟨hreached k,fun hk => ?_⟩
  induction hk with
  | refl => exact hroot
  | tail _ hc ih => exact hclosed _ ih _ hc

variable [DecidableEq κ]

def fresh (children : κ → List κ) (visited : Finset κ) (k : κ) : List κ :=
  (children k).filter (fun c => decide (c ∉ visited))

def loop (children : κ → List κ) : Nat → State κ → Option (List κ × State κ)
  | 0, _ => none
  | _ + 1, ⟨visited, []⟩ => some ([], ⟨visited, []⟩)
  | fuel + 1, ⟨visited, k :: rest⟩ =>
      (loop children fuel
        ⟨insert k visited, (fresh children (insert k visited) k).reverse ++ rest⟩).map
          (fun r => (k :: r.1, r.2))

theorem mem_fresh {visited : Finset κ} {k c : κ} :
    c ∈ fresh children visited k ↔ c ∈ children k ∧ c ∉ visited := by
  simp [fresh]

section

variable {popped rest : List κ} {visited : Finset κ} {k : κ}

theorem Searched.pop_visited (h : Searched children root popped ⟨visited, k :: rest⟩) (c : κ) :
    c ∈ insert k visited ↔ c ∈ popped ++ [k] := by
  have hv := h.visited c
  rw [Finset.mem_insert, hv, List.mem_append, List.mem_singleton, or_comm]

theorem Searched.pop_nodup (hp : SingleParent children)
    (h : Searched children root popped ⟨visited, k :: rest⟩) :
    (popped ++ [k] ++ ((fresh children (insert k visited) k).reverse ++ rest)).Nodup := by
  have hold : (popped ++ [k] ++ rest).Nodup := by simpa using h.nodup
  obtain ⟨hdone,hrest,hdisjoint⟩ := List.nodup_append.mp hold
  have hfresh : (fresh children (insert k visited) k).reverse.Nodup :=
    List.nodup_reverse.mpr ((hp.nodup k).filter _)
  rw [List.nodup_append]
  refine ⟨hdone,List.nodup_append.mpr ⟨hfresh,hrest,?_⟩,?_⟩
  · rintro c hc d hd rfl
    exact h.pop_unshared hp (mem_fresh.mp (List.mem_reverse.mp hc)).1 hd
  · rintro c hc d hd rfl
    rcases List.mem_append.mp hd with hd | hd
    · exact (mem_fresh.mp (List.mem_reverse.mp hd)).2 ((h.pop_visited c).mpr hc)
    · exact hdisjoint c hc c hd rfl

theorem Searched.pop (hp : SingleParent children)
    (h : Searched children root popped ⟨visited, k :: rest⟩) :
    Searched children root (popped ++ [k])
      ⟨insert k visited, (fresh children (insert k visited) k).reverse ++ rest⟩ := by
  have hmem : ∀ c, c ∈ popped ++ (k :: rest) → c ∈ popped ++ [k] ++
      ((fresh children (insert k visited) k).reverse ++ rest) := by
    intro c hc
    simp only [List.mem_append, List.mem_cons] at hc ⊢
    tauto
  refine ⟨h.pop_visited,h.pop_nodup hp,?_,?_,?_,hmem root h.root⟩
  · intro c hc
    right
    rcases List.mem_append.mp hc with hc | hc
    · exact ⟨k,by simp,(mem_fresh.mp (List.mem_reverse.mp hc)).1⟩
    · obtain ⟨p,hpop,hcp⟩ := h.rest_parent hc
      exact ⟨p,List.mem_append_left _ hpop,hcp⟩
  · intro p hpop c hc
    rcases List.mem_append.mp hpop with hpop | hpop
    · exact hmem c (h.closed p hpop c hc)
    · obtain rfl := List.mem_singleton.mp hpop
      by_cases hv : c ∈ insert p visited
      · exact List.mem_append_left _ ((h.pop_visited c).mp hv)
      · simp [mem_fresh, hc, hv]
  · intro c hc
    have hk : Reaches children root k := h.reached k (by simp)
    rcases List.mem_append.mp hc with hc | hc
    · exact h.reached c (by simpa using List.mem_append_left rest hc)
    · rcases List.mem_append.mp hc with hc | hc
      · exact hk.tail (mem_fresh.mp (List.mem_reverse.mp hc)).1
      · exact h.reached c (by simp [hc])

end

theorem Searched.length_le {popped : List κ} {s : State κ} {known : Finset κ}
    (hk : ∀ k, ∀ c ∈ children k, c ∈ known) (h : Searched children root popped s) :
    popped.length + s.pending.length ≤ known.card + 1 := by
  have hparent : ∀ c, Reaches children root c → c ∈ insert root known := by
    intro c hc
    rcases Relation.ReflTransGen.cases_tail hc with rfl | ⟨p,-,hcp⟩
    · exact Finset.mem_insert_self _ known
    · exact Finset.mem_insert_of_mem (hk p c hcp)
  have hsub : (popped ++ s.pending).toFinset ⊆ insert root known := by
    intro c hc
    exact hparent c (h.reached c (List.mem_toFinset.mp hc))
  have hcard := Finset.card_le_card hsub
  rw [List.toFinset_card_of_nodup h.nodup, List.length_append] at hcard
  exact hcard.trans (Finset.card_insert_le root known)

theorem loop_searched (hp : SingleParent children) {known : Finset κ}
    (hk : ∀ k, ∀ c ∈ children k, c ∈ known) {fuel : Nat} {popped : List κ} {s : State κ}
    (h : Searched children root popped s) (hf : known.card + 1 < fuel + popped.length) :
    ∃ pops last, loop children fuel s = some (pops, last) ∧
      Searched children root (popped ++ pops) last ∧ last.pending = [] := by
  induction fuel generalizing popped s with
  | zero =>
    have hle := h.length_le hk
    omega
  | succ fuel ih =>
    obtain ⟨visited,pending⟩ := s
    cases pending with
    | nil =>
      refine ⟨[],⟨visited, []⟩,rfl,?_,rfl⟩
      rwa [List.append_nil]
    | cons k rest =>
      obtain ⟨pops,last,hloop,hs,hdone⟩ := ih (h.pop hp) (by
        rw [List.length_append, List.length_singleton]
        omega)
      refine ⟨k :: pops,last,?_,by simpa using hs,hdone⟩
      rw [loop, hloop]
      rfl

theorem loop_more {fuel : Nat} {s : State κ} {r : List κ × State κ}
    (h : loop children fuel s = some r) (extra : Nat) :
    loop children (fuel + extra) s = some r := by
  induction fuel generalizing s r with
  | zero => cases h
  | succ fuel ih =>
    obtain ⟨visited,pending⟩ := s
    rw [Nat.add_right_comm]
    cases pending with
    | nil => exact h
    | cons k rest =>
      rw [loop, Option.map_eq_some_iff] at h ⊢
      obtain ⟨r',hr',rfl⟩ := h
      exact ⟨r',ih hr',rfl⟩

theorem loop_start (hp : SingleParent children) {known : Finset κ}
    (hk : ∀ k, ∀ c ∈ children k, c ∈ known) (root : κ) :
    ∃ pops last, (∀ extra, loop children (known.card + 2 + extra) (start root) =
        some (pops, last)) ∧
      pops.Nodup ∧ ∀ k, k ∈ last.visited ↔ Reaches children root k := by
  have hfuel : known.card + 1 < known.card + 2 + ([] : List κ).length := by
    rw [List.length_nil]
    omega
  obtain ⟨pops,last,hloop,hs,hdone⟩ := loop_searched hp hk (searched_start children root) hfuel
  refine ⟨pops,last,loop_more hloop,?_,hs.reaches_iff hdone⟩
  have hn := hs.nodup
  rwa [hdone, List.append_nil] at hn

end Worklist
