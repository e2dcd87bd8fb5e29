import SideDns.Library.Transition

namespace SideDns

open Transition (run Guarded guarded_iff_invariant guarded_invariant)

inductive ServerPhase where
  | starting
  | binding
  | serving
  | dropping
  | headless
  | gone
  deriving DecidableEq, Repr

def ServerPhase.hasServer : ServerPhase → Bool
  | headless => false
  | gone => false
  | _ => true

def ServerPhase.isSettled : ServerPhase → Bool
  | serving => true
  | headless => true
  | gone => true
  | _ => false

inductive StartPhase where
  | alreadyRunning
  | spawning
  | spawned
  deriving DecidableEq, Repr

inductive SocketAction where
  | probe
  | spawn (k : Nat)
  | removeStale (i : Nat) (removed : Bool)
  | bind (i : Nat) (created : Bool)
  | finish (i : Nat) (reclaimed : Bool)
  | drop (i : Nat) (removed : Bool)
  | exit (i : Nat)
  | kill (i : Nat)
  deriving DecidableEq, Repr

structure Endpoint where
  path : Option Nat
  servers : List ServerPhase
  starts : List StartPhase
  deriving DecidableEq, Repr

namespace Endpoint

def empty : Endpoint := ⟨none, [], []⟩

def isRunning (s : Endpoint) : Bool :=
  match s.path with
  | none => false
  | some i => s.servers[i]? == some .serving

def become (s : Endpoint) (i : Nat) (phase : ServerPhase) : Endpoint :=
  { s with servers := s.servers.set i phase }

def unlink (s : Endpoint) (removed : Bool) : Endpoint :=
  if removed then { s with path := none } else s

def removeStale (s : Endpoint) (i : Nat) (removed : Bool) : Endpoint :=
  match s.path with
  | none => s.become i .binding
  | some _ => if removed then (s.unlink true).become i .binding else s.become i .dropping

def bind (s : Endpoint) (i : Nat) (created : Bool) : Endpoint :=
  match s.path with
  | none =>
    if created then { s with path := some i }.become i .serving else s.become i .dropping
  | some _ => s.become i .dropping

def probe (s : Endpoint) : Endpoint :=
  { s with starts := s.starts ++ [if s.isRunning then .alreadyRunning else .spawning] }

def spawn (s : Endpoint) (k : Nat) : Endpoint :=
  match s.starts[k]? with
  | some .spawning =>
    { s with servers := s.servers ++ [.starting], starts := s.starts.set k .spawned }
  | _ => s

def step (s : Endpoint) : SocketAction → Endpoint
  | .probe => s.probe
  | .spawn k => s.spawn k
  | .removeStale i removed =>
      if s.servers[i]? = some .starting then s.removeStale i removed else s
  | .bind i created => if s.servers[i]? = some .binding then s.bind i created else s
  | .finish i reclaimed =>
      if s.servers[i]? = some .serving then (s.unlink reclaimed).become i .dropping else s
  | .drop i removed =>
      if s.servers[i]? = some .dropping then (s.unlink removed).become i .headless else s
  | .exit i => if s.servers[i]? = some .headless then s.become i .gone else s
  | .kill i => s.become i .gone

def unlinks (s : Endpoint) : SocketAction → Option Nat
  | .removeStale i removed => if s.servers[i]? = some .starting ∧ removed then some i else none
  | .finish i reclaimed => if s.servers[i]? = some .serving ∧ reclaimed then some i else none
  | .drop i removed => if s.servers[i]? = some .dropping ∧ removed then some i else none
  | _ => none

def Reachable (s : Endpoint) : Prop :=
  ∀ i, s.servers[i]? = some .serving → s.path = some i

def Steals (s : Endpoint) (a : SocketAction) : Prop :=
  ∃ i j, s.unlinks a = some i ∧ s.path = some j ∧ j ≠ i ∧ s.servers[j]? = some .serving

inductive Stepped (s : Endpoint) : SocketAction → Endpoint → Prop where
  | probed : Stepped s .probe s.probe
  | spawned (k : Nat) (hk : s.starts[k]? = some .spawning) :
      Stepped s (.spawn k)
        { s with servers := s.servers ++ [.starting], starts := s.starts.set k .spawned }
  | cleared (a : SocketAction) (i : Nat) (hi : s.servers[i]? = some .starting)
      (hp : s.path = none) (hn : ¬ s.Steals a) : Stepped s a (s.become i .binding)
  | bound (a : SocketAction) (i : Nat) (hi : s.servers[i]? = some .binding) (hp : s.path = none)
      (hn : ¬ s.Steals a) : Stepped s a ({ s with path := some i }.become i .serving)
  | left (a : SocketAction) (i : Nat) (phase : ServerPhase) (hs : phase ≠ .serving)
      (hb : phase ≠ .binding)
      (hg : ∀ was, s.servers[i]? = some was → was.hasServer = false → phase.hasServer = false)
      (hn : ¬ s.Steals a) : Stepped s a (s.become i phase)
  | unlinked (a : SocketAction) (i : Nat) (phase was : ServerPhase)
      (hi : s.servers[i]? = some was) (hw : was.hasServer = true) (hs : phase ≠ .serving)
      (hu : s.unlinks a = some i) : Stepped s a ({ s with path := none }.become i phase)
  | idle (a : SocketAction) (hn : ¬ s.Steals a) : Stepped s a s

theorem not_steals_of_unlinks {s : Endpoint} {a : SocketAction} (hu : s.unlinks a = none) :
    ¬ s.Steals a := by
  rintro ⟨i,j,hi,-⟩
  rw [hu] at hi
  cases hi

theorem not_steals_of_path {s : Endpoint} {a : SocketAction} (hp : s.path = none) :
    ¬ s.Steals a := by
  rintro ⟨i,j,-,hj,-⟩
  rw [hp] at hj
  cases hj

theorem stepped_left {s : Endpoint} {a : SocketAction} {i : Nat} {was : ServerPhase}
    (hi : s.servers[i]? = some was) (hw : was.hasServer = true) (hu : s.unlinks a = none) :
    Stepped s a (s.become i .dropping) := by
  refine .left a i .dropping (by decide) (by decide) (fun was' hi' hg => ?_)
    (not_steals_of_unlinks hu)
  obtain rfl := Option.some.inj (hi.symm.trans hi')
  rw [hw] at hg
  cases hg

theorem step_cases (s : Endpoint) (a : SocketAction) : Stepped s a (s.step a) := by
  cases a with
  | probe => exact .probed
  | spawn k =>
    rw [step, spawn]
    split
    · exact .spawned k ‹_›
    · exact .idle _ (not_steals_of_unlinks rfl)
  | removeStale i removed =>
    rw [step]
    split_ifs with hi
    · rw [removeStale]
      split
      · exact .cleared _ i hi ‹_› (not_steals_of_path ‹_›)
      · split_ifs with hr
        · exact .unlinked _ i .binding _ hi (by decide) (by decide) (by simp [unlinks, hi, hr])
        · exact stepped_left hi (by decide) (by simp [unlinks, hr])
    · exact .idle _ (not_steals_of_unlinks (by simp [unlinks, hi]))
  | bind i created =>
    rw [step]
    split_ifs with hi
    · rw [bind]
      split
      · split_ifs
        · exact .bound _ i hi ‹_› (not_steals_of_unlinks rfl)
        · exact stepped_left hi (by decide) rfl
      · exact stepped_left hi (by decide) rfl
    · exact .idle _ (not_steals_of_unlinks rfl)
  | finish i reclaimed =>
    rw [step]
    split_ifs with hi
    · cases reclaimed with
      | true => exact .unlinked _ i .dropping _ hi (by decide) (by decide) (by simp [unlinks, hi])
      | false => exact stepped_left hi (by decide) (by simp [unlinks])
    · exact .idle _ (not_steals_of_unlinks (by simp [unlinks, hi]))
  | drop i removed =>
    rw [step]
    split_ifs with hi
    · cases removed with
      | true => exact .unlinked _ i .headless _ hi (by decide) (by decide) (by simp [unlinks, hi])
      | false =>
        exact .left _ i .headless (by decide) (by decide) (fun _ _ _ => rfl)
          (not_steals_of_unlinks (by simp [unlinks]))
    · exact .idle _ (not_steals_of_unlinks (by simp [unlinks, hi]))
  | exit i =>
    rw [step]
    split_ifs
    · exact .left _ i .gone (by decide) (by decide) (fun _ _ _ => rfl) (not_steals_of_unlinks rfl)
    · exact .idle _ (not_steals_of_unlinks rfl)
  | kill i =>
    exact .left _ i .gone (by decide) (by decide) (fun _ _ _ => rfl) (not_steals_of_unlinks rfl)

theorem getElem?_become {s : Endpoint} {i j : Nat} {phase was : ServerPhase}
    (h : (s.become i phase).servers[j]? = some was) :
    (j = i ∧ was = phase) ∨ (j ≠ i ∧ s.servers[j]? = some was) := by
  rw [become, List.getElem?_set] at h
  split_ifs at h with hij
  · exact .inl ⟨hij.symm,(Option.some.inj h).symm⟩
  · exact .inr ⟨Ne.symm hij,h⟩

theorem serving_become {s : Endpoint} {i j : Nat} {phase : ServerPhase} (hs : phase ≠ .serving)
    (h : (s.become i phase).servers[j]? = some .serving) :
    j ≠ i ∧ s.servers[j]? = some .serving := by
  rcases getElem?_become h with ⟨-,rfl⟩ | hkept
  · exact absurd rfl hs
  · exact hkept

theorem reachable_become {s : Endpoint} (h : s.Reachable) (i : Nat) {phase : ServerPhase}
    (hs : phase ≠ .serving) : (s.become i phase).Reachable :=
  fun j hj => h j (serving_become hs hj).2

theorem serving_unspawned {s : Endpoint} {j : Nat}
    (h : (s.servers ++ [.starting])[j]? = some .serving) : s.servers[j]? = some .serving := by
  rw [List.getElem?_append] at h
  split_ifs at h with hlt
  · exact h
  · have hmem := List.mem_of_getElem? h
    cases List.mem_singleton.mp hmem

theorem reachable_step {s : Endpoint} (h : s.Reachable) (a : SocketAction) :
    (s.step a).Reachable ↔ ¬ s.Steals a := by
  have hstep := s.step_cases a
  generalize s.step a = s' at hstep
  cases hstep with
  | probed => exact iff_of_true h (not_steals_of_unlinks rfl)
  | spawned k hk =>
    exact iff_of_true (fun j hj => h j (serving_unspawned hj)) (not_steals_of_unlinks rfl)
  | cleared _ i hi hp hn => exact iff_of_true (reachable_become h i (by decide)) hn
  | bound _ i hi hp hn =>
    refine iff_of_true (fun j hj => ?_) hn
    rcases getElem?_become hj with ⟨rfl,-⟩ | ⟨-,hkept⟩
    · rfl
    · have hj' := h j hkept
      rw [hp] at hj'
      cases hj'
  | left _ i phase hs hb hg hn => exact iff_of_true (reachable_become h i hs) hn
  | unlinked _ i phase was hi hw hs hu =>
    constructor
    · rintro hr ⟨i',j,hi',hj,hne,hserving⟩
      obtain rfl := Option.some.inj (hu.symm.trans hi')
      have hkept : ({ s with path := none }.become i phase).servers[j]? = some .serving := by
        rw [become, List.getElem?_set_ne hne.symm]
        exact hserving
      have hpath := hr j hkept
      cases hpath
    · intro hn j hj
      obtain ⟨hne,hserving⟩ := serving_become hs hj
      exact absurd ⟨i,j,hu,h j hserving,hne,hserving⟩ hn
  | idle _ hn => exact iff_of_true h hn

theorem isRunning_iff {s : Endpoint} (h : s.Reachable) :
    s.isRunning = true ↔ .serving ∈ s.servers := by
  rw [isRunning]
  constructor
  · intro hr
    split at hr
    · cases hr
    · exact List.mem_of_getElem? (beq_iff_eq.mp hr)
  · intro hm
    obtain ⟨i,hi⟩ := List.mem_iff_getElem?.mp hm
    rw [h i hi]
    simp [hi]

def Calm (s : Endpoint) : SocketAction → Prop
  | .probe => (∀ phase ∈ s.servers, phase.isSettled = true) ∧ .spawning ∉ s.starts
  | _ => True

structure Orderly (s : Endpoint) : Prop where
  reachable : s.Reachable
  single : ∀ (i j : Nat) (p q : ServerPhase), s.servers[i]? = some p → s.servers[j]? = some q →
    p.hasServer = true → q.hasServer = true → i = j
  clear : .binding ∈ s.servers → s.path = none
  vacant : .spawning ∈ s.starts → ∀ phase ∈ s.servers, phase.hasServer = false
  once : s.starts.count .spawning ≤ 1

theorem orderly_empty : empty.Orderly :=
  ⟨by simp [Reachable, empty],by simp [empty],by simp [empty],by simp [empty],by simp [empty]⟩

theorem Orderly.not_steals {s : Endpoint} (h : s.Orderly) (a : SocketAction) : ¬ s.Steals a := by
  rintro ⟨i,j,hi,-,hne,hserving⟩
  obtain ⟨phase,hphase,hlive⟩ : ∃ phase, s.servers[i]? = some phase ∧
      phase.hasServer = true := by
    cases a with
    | removeStale k removed =>
      simp only [unlinks, Option.ite_none_right_eq_some, Option.some.injEq] at hi
      obtain ⟨⟨hk,-⟩,rfl⟩ := hi
      exact ⟨_,hk,by decide⟩
    | finish k reclaimed =>
      simp only [unlinks, Option.ite_none_right_eq_some, Option.some.injEq] at hi
      obtain ⟨⟨hk,-⟩,rfl⟩ := hi
      exact ⟨_,hk,by decide⟩
    | drop k removed =>
      simp only [unlinks, Option.ite_none_right_eq_some, Option.some.injEq] at hi
      obtain ⟨⟨hk,-⟩,rfl⟩ := hi
      exact ⟨_,hk,by decide⟩
    | _ => cases hi
  exact hne (h.single j i _ _ hserving hphase (by decide) hlive)

theorem hasServer_become {s : Endpoint} {i j : Nat} {phase q : ServerPhase}
    (hg : ∀ was, s.servers[i]? = some was → was.hasServer = false → phase.hasServer = false)
    (hj : (s.become i phase).servers[j]? = some q) (hq : q.hasServer = true) :
    ∃ p, s.servers[j]? = some p ∧ p.hasServer = true := by
  rcases getElem?_become hj with ⟨rfl,rfl⟩ | ⟨-,hkept⟩
  · have hlt : j < s.servers.length := by
      have hset := (List.getElem?_eq_some_iff.mp hj).1
      rw [become, List.length_set] at hset
      exact hset
    have hwas := List.getElem?_eq_getElem hlt
    refine ⟨s.servers[j],hwas,?_⟩
    by_contra hnone
    rw [Bool.not_eq_true] at hnone
    rw [hg _ hwas hnone] at hq
    cases hq
  · exact ⟨q,hkept,hq⟩

theorem mem_become {s : Endpoint} {i : Nat} {phase q : ServerPhase}
    (h : q ∈ (s.become i phase).servers) : q = phase ∨ q ∈ s.servers := by
  rcases List.mem_or_eq_of_mem_set h with hold | rfl
  · exact .inr hold
  · exact .inl rfl

theorem Orderly.become {s : Endpoint} (h : s.Orderly) {i : Nat} {phase : ServerPhase}
    {path : Option Nat}
    (hg : ∀ was, s.servers[i]? = some was → was.hasServer = false → phase.hasServer = false)
    (hr : ({ s with path := path }.become i phase).Reachable)
    (hc : .binding ∈ (s.become i phase).servers → path = none) :
    ({ s with path := path }.become i phase).Orderly := by
  refine ⟨hr,fun j k p q hj hk hp hq => ?_,hc,fun hm q hq => ?_,h.once⟩
  · obtain ⟨p',hj',hp'⟩ := hasServer_become (s := s) hg hj hp
    obtain ⟨q',hk',hq'⟩ := hasServer_become (s := s) hg hk hq
    exact h.single j k p' q' hj' hk' hp' hq'
  · obtain ⟨j,hj⟩ := List.mem_iff_getElem?.mp hq
    by_contra hlive
    rw [Bool.not_eq_false] at hlive
    obtain ⟨p,hp,hpl⟩ := hasServer_become (s := s) hg hj hlive
    rw [h.vacant hm p (List.mem_of_getElem? hp)] at hpl
    cases hpl

theorem Orderly.probe {s : Endpoint} (h : s.Orderly)
    (hsettled : ∀ phase ∈ s.servers, phase.isSettled = true) (hnone : .spawning ∉ s.starts) :
    s.probe.Orderly := by
  have hcount : s.starts.count .spawning = 0 := List.count_eq_zero.mpr hnone
  refine ⟨h.reachable,h.single,h.clear,fun hm phase hp => ?_,?_⟩
  · rcases List.mem_append.mp hm with hold | hnew
    · exact absurd hold hnone
    · have hrunning : ¬ s.isRunning = true := by
        intro hr
        rw [if_pos hr] at hnew
        cases List.mem_singleton.mp hnew
      rw [isRunning_iff h.reachable] at hrunning
      have hphase := hsettled phase hp
      cases phase with
      | serving => exact absurd hp hrunning
      | headless => rfl
      | gone => rfl
      | _ => cases hphase
  · change (s.starts ++ [_]).count StartPhase.spawning ≤ 1
    rw [List.count_append, hcount, Nat.zero_add]
    exact List.count_le_length

theorem Orderly.spawned {s : Endpoint} (h : s.Orderly) {k : Nat}
    (hk : s.starts[k]? = some .spawning) :
    Orderly { s with servers := s.servers ++ [.starting], starts := s.starts.set k .spawned } := by
  obtain ⟨hlt,hget⟩ := List.getElem?_eq_some_iff.mp hk
  have hgone := h.vacant (List.mem_of_getElem? hk)
  have hcount : (s.starts.set k .spawned).count .spawning = 0 := by
    rw [List.count_set hlt, hget]
    have hone := h.once
    simp
    omega
  have hlast (i : Nat) (p : ServerPhase) (hi : (s.servers ++ [.starting])[i]? = some p)
      (hp : p.hasServer = true) : i = s.servers.length := by
    rw [List.getElem?_append] at hi
    split_ifs at hi with hil
    · rw [hgone p (List.mem_of_getElem? hi)] at hp
      cases hp
    · have hzero := (List.getElem?_eq_some_iff.mp hi).1
      simp only [List.length_singleton] at hzero
      omega
  refine ⟨fun j hj => h.reachable j (serving_unspawned hj),fun i j p q hi hj hp hq => ?_,
    fun hm => ?_,fun hm => ?_,?_⟩
  · rw [hlast i p hi hp, hlast j q hj hq]
  · rcases List.mem_append.mp hm with hold | hnew
    · cases hgone _ hold
    · cases List.mem_singleton.mp hnew
  · exact absurd hm (List.count_eq_zero.mp hcount)
  · exact hcount ▸ Nat.zero_le 1

theorem Orderly.step {s : Endpoint} (h : s.Orderly) {a : SocketAction} (hc : s.Calm a) :
    (s.step a).Orderly := by
  have hr : (s.step a).Reachable := (reachable_step h.reachable a).mpr (h.not_steals a)
  have hstep := s.step_cases a
  generalize s.step a = s' at hstep hr
  cases hstep with
  | probed => exact h.probe hc.1 hc.2
  | spawned k hk => exact h.spawned hk
  | cleared _ i hi hp hn =>
    refine h.become (fun was hwas hg => ?_) hr fun _ => hp
    obtain rfl := Option.some.inj (hi.symm.trans hwas)
    cases hg
  | bound _ i hi hp hn =>
    refine h.become (fun was hwas hg => ?_) hr fun hm => ?_
    · obtain rfl := Option.some.inj (hi.symm.trans hwas)
      cases hg
    · obtain ⟨j,hj⟩ := List.mem_iff_getElem?.mp hm
      rcases getElem?_become hj with ⟨-,hserving⟩ | ⟨hne,hkept⟩
      · cases hserving
      · exact absurd (h.single j i _ _ hkept hi (by decide) (by decide)) hne
  | left _ i phase hs hb hg hn =>
    refine h.become hg hr fun hm => ?_
    rcases mem_become hm with rfl | hold
    · exact absurd rfl hb
    · exact h.clear hold
  | unlinked _ i phase was hi hw hs hu =>
    refine h.become (fun was' hwas hg => ?_) hr fun _ => rfl
    obtain rfl := Option.some.inj (hi.symm.trans hwas)
    rw [hw] at hg
    cases hg
  | idle _ hn => exact h

theorem socket_reaches_server (acts : List SocketAction) :
    ((∀ before, before <+: acts → (run step empty before).Reachable) ↔
      Guarded step (fun s a => ¬ s.Steals a) empty acts) ∧
    (Guarded step Calm empty acts →
      let s := run step empty acts
      (s.isRunning = true ↔ .serving ∈ s.servers) ∧ s.Reachable ∧
      (∀ (i j : Nat) (p q : ServerPhase), s.servers[i]? = some p → s.servers[j]? = some q →
        p.hasServer = true → q.hasServer = true → i = j) ∧
      (.binding ∈ s.servers → s.path = none)) := by
  constructor
  · exact (guarded_iff_invariant Reachable (fun s a h => reachable_step h a)
      orderly_empty.reachable).symm
  · intro hcalm s
    have horderly : s.Orderly :=
      guarded_invariant Orderly (fun s a h hc => h.step hc) orderly_empty hcalm
    exact ⟨isRunning_iff horderly.reachable,horderly.reachable,horderly.single,horderly.clear⟩

def launching (i : Nat) : List SocketAction := [.spawn i, .removeStale i true, .bind i true]

theorem crashed_daemon_replaced :
    let s := run step empty (.probe :: launching 0 ++ .kill 0 :: .probe :: launching 1)
    (s.isRunning = true ↔ .serving ∈ s.servers) ∧ s.Reachable ∧
      (∀ (i j : Nat) (p q : ServerPhase), s.servers[i]? = some p → s.servers[j]? = some q →
        p.hasServer = true → q.hasServer = true → i = j) ∧
      (.binding ∈ s.servers → s.path = none) :=
  (socket_reaches_server (.probe :: launching 0 ++ .kill 0 :: .probe :: launching 1)).2
    ⟨⟨by decide,by decide⟩,trivial,trivial,trivial,trivial,⟨by decide,by decide⟩,trivial,trivial,
      trivial,trivial⟩

example : (run step empty (.probe :: [.spawn 0, .removeStale 0 true, .bind 0 false, .drop 0 true] ++
    .probe :: launching 1)).servers = [.headless, .serving] := by
  decide

example : ¬ (run step empty (.probe :: .probe :: launching 0 ++ launching 1)).Reachable := by
  intro h
  cases h 0 rfl

end Endpoint

end SideDns
