import Mathlib.Data.List.Nodup
import Mathlib.Logic.Function.Basic
import SideDns.Library.Transition

namespace Rcu

def Precedes {α : Type} (l : List α) (a b : α) : Prop :=
  ∃ front back, l = front ++ back ∧ a ∈ front ∧ b ∈ back

theorem precedes_concat {α : Type} {l : List α} {a b x : α} :
    Precedes (l ++ [x]) a b ↔ Precedes l a b ∨ (a ∈ l ∧ b = x) := by
  constructor
  · rintro ⟨front,back,hl,ha,hb⟩
    rcases List.eq_nil_or_concat back with rfl | ⟨mid,y,rfl⟩
    · cases hb
    · rw [List.concat_eq_append, ← List.append_assoc] at hl
      obtain ⟨hfront,hxy⟩ := List.append_inj' hl rfl
      obtain rfl : x = y := by simpa using hxy
      rw [List.concat_eq_append, List.mem_append] at hb
      rcases hb with hb | hb
      · exact .inl ⟨front,mid,hfront,ha,hb⟩
      · exact .inr ⟨hfront ▸ List.mem_append_left mid ha,by simpa using hb⟩
  · rintro (⟨front,back,rfl,ha,hb⟩ | ⟨ha,rfl⟩)
    · exact ⟨front,back ++ [x],by simp,ha,by simp [hb]⟩
    · exact ⟨l,[b],rfl,ha,by simp⟩

inductive Operation (σ κ ρ : Type) where
  | update (captured : κ) (closure : σ → κ → σ × κ) (result : κ → ρ)
  | observe (read : σ → ρ)

namespace Operation

variable {σ κ ρ : Type}

def meaning : Operation σ κ ρ → σ → σ × ρ
  | update captured closure result, s =>
      ((closure s captured).1, result (closure s captured).2)
  | observe read, s => (s, read s)

def Restartable : Operation σ κ ρ → Prop
  | update captured closure result => ∀ s c,
      (closure s c).1 = (closure s captured).1 ∧
        result (closure s c).2 = result (closure s captured).2
  | observe _ => True

end Operation

inductive Event (ι ρ : Type) where
  | invoke (call : ι)
  | respond (call : ι) (result : ρ)

inductive Phase (σ κ ρ : Type) where
  | idle
  | loading (captured : κ)
  | loaded (captured : κ) (pointer : Nat) (snapshot : σ)
  | attempting (captured : κ) (pointer : Nat) (next : σ)
  | reading
  | holding (snapshot : σ)
  | finished (result : ρ)
  | returned (result : ρ)

structure State (ι σ κ ρ : Type) where
  pointer : Nat
  value : σ
  phase : ι → Phase σ κ ρ
  history : List (Event ι ρ)
  commits : List ι

inductive Action (ι : Type) where
  | invoke (call : ι)
  | load (call : ι)
  | attempt (call : ι)
  | swap (call : ι)
  | respond (call : ι)

variable {ι σ κ ρ : Type}

def replay (meaning : ι → σ → σ × ρ) (order : List ι) (start : σ) : σ :=
  order.foldl (fun s i => (meaning i s).1) start

theorem replay_concat (meaning : ι → σ → σ × ρ) (order : List ι) (i : ι) (start : σ) :
    replay meaning (order ++ [i]) start = (meaning i (replay meaning order start)).1 := by
  simp [replay]

def AnswersAt (meaning : ι → σ → σ × ρ) (start : σ) (order : List ι) (i : ι) (result : ρ) :
    Prop :=
  ∃ before after, order = before ++ i :: after ∧
    result = (meaning i (replay meaning before start)).2

theorem AnswersAt.mem {meaning : ι → σ → σ × ρ} {start : σ} {order : List ι} {i : ι}
    {result : ρ} (h : AnswersAt meaning start order i result) : i ∈ order := by
  obtain ⟨before,after,rfl,-⟩ := h
  simp

theorem AnswersAt.concat {meaning : ι → σ → σ × ρ} {start : σ} {order : List ι} {i : ι}
    {result : ρ} (h : AnswersAt meaning start order i result) (j : ι) :
    AnswersAt meaning start (order ++ [j]) i result := by
  obtain ⟨before,after,rfl,hr⟩ := h
  exact ⟨before,after ++ [j],by simp,hr⟩

theorem split_unique {l before before' after after' : List ι} {i : ι} (hn : l.Nodup)
    (h : l = before ++ i :: after) (h' : l = before' ++ i :: after') : before = before' := by
  induction before generalizing l before' with
  | nil =>
    cases before' with
    | nil => rfl
    | cons x before' =>
      obtain ⟨rfl,ht⟩ := List.cons.inj (h.symm.trans h')
      rw [h, ht] at hn
      simp at hn
  | cons x before ih =>
    cases before' with
    | nil =>
      obtain ⟨rfl,ht⟩ := List.cons.inj (h.symm.trans h')
      rw [h] at hn
      simp at hn
    | cons y before' =>
      obtain ⟨rfl,ht⟩ := List.cons.inj (h.symm.trans h')
      rw [h] at hn
      rw [ih (List.nodup_cons.mp hn).2 rfl ht]

structure Linearization (meaning : ι → σ → σ × ρ) (start : σ) (s : State ι σ κ ρ)
    (order : List ι) : Prop where
  nodup : order.Nodup
  invoked : ∀ i ∈ order, .invoke i ∈ s.history
  realTime : ∀ i r j, Precedes s.history (.respond i r) (.invoke j) → j ∈ order →
    Precedes order i j
  final : replay meaning order start = s.value
  answers : ∀ i r, .respond i r ∈ s.history → AnswersAt meaning start order i r

def State.initial (start : σ) : State ι σ κ ρ := ⟨0, start, fun _ => .idle, [], []⟩

def meanings (ops : ι → Operation σ κ ρ) (i : ι) : σ → σ × ρ := (ops i).meaning

def PhaseOk (ops : ι → Operation σ κ ρ) (start : σ) (pointer : Nat) (value : σ)
    (commits : List ι) (i : ι) : Phase σ κ ρ → Prop
  | .idle => i ∉ commits
  | .loading _ => i ∉ commits
  | .loaded _ p snapshot => i ∉ commits ∧ p ≤ pointer ∧ (p = pointer → snapshot = value)
  | .attempting c p next => i ∉ commits ∧ p ≤ pointer ∧ (p = pointer →
      ∀ captured closure result, ops i = .update captured closure result →
        ∃ c', closure value c' = (next, c))
  | .reading => i ∉ commits ∧ ∃ read, ops i = .observe read
  | .holding snapshot => ∀ read, ops i = .observe read →
      AnswersAt (meanings ops) start commits i (read snapshot)
  | .finished r => AnswersAt (meanings ops) start commits i r
  | .returned r => AnswersAt (meanings ops) start commits i r

structure Inv (ops : ι → Operation σ κ ρ) (start : σ) (s : State ι σ κ ρ) : Prop where
  nodup : s.commits.Nodup
  started : ∀ i, s.phase i ≠ .idle → .invoke i ∈ s.history
  committed : ∀ i ∈ s.commits, .invoke i ∈ s.history
  responded : ∀ i r, .respond i r ∈ s.history → s.phase i = .returned r
  realTime : ∀ i r j, Precedes s.history (.respond i r) (.invoke j) → j ∈ s.commits →
    Precedes s.commits i j
  final : replay (meanings ops) s.commits start = s.value
  phases : ∀ i, PhaseOk ops start s.pointer s.value s.commits i (s.phase i)

theorem inv_initial (ops : ι → Operation σ κ ρ) (start : σ) :
    Inv ops start (State.initial start : State ι σ κ ρ) where
  nodup := .nil
  started := fun i h => absurd rfl h
  committed := by simp [State.initial]
  responded := by simp [State.initial]
  realTime := by simp [State.initial]
  final := rfl
  phases := by simp [State.initial, PhaseOk]

section Commit

variable {ops : ι → Operation σ κ ρ} {start : σ} {s : State ι σ κ ρ} {i : ι} {p : Phase σ κ ρ}

theorem PhaseOk.commit {pointer pointer' : Nat} {value value' : σ} {commits : List ι} {j : ι}
    (hp : pointer < pointer' ∨ (pointer = pointer' ∧ value = value'))
    (h : PhaseOk ops start pointer value commits j p) (hj : j ≠ i) :
    PhaseOk ops start pointer' value' (commits ++ [i]) j p := by
  have hmem : j ∉ commits → j ∉ commits ++ [i] := by simp [hj]
  have hmatch : ∀ q, q ≤ pointer → q ≤ pointer' ∧
      (q = pointer' → q = pointer ∧ value = value') := by
    intro q hq
    rcases hp with hlt | ⟨rfl,hv⟩
    · exact ⟨by omega,fun heq => by omega⟩
    · exact ⟨hq,fun heq => ⟨heq,hv⟩⟩
  cases p with
  | idle => exact hmem h
  | loading c => exact hmem h
  | reading => exact ⟨hmem h.1,h.2⟩
  | loaded c q snapshot =>
    obtain ⟨hc,hq,hv⟩ := h
    obtain ⟨hle,heq⟩ := hmatch q hq
    exact ⟨hmem hc,hle,fun hq' => (hv (heq hq').1).trans (heq hq').2⟩
  | attempting c q next =>
    obtain ⟨hc,hq,hv⟩ := h
    obtain ⟨hle,heq⟩ := hmatch q hq
    refine ⟨hmem hc,hle,fun hq' => ?_⟩
    rw [← (heq hq').2]
    exact hv (heq hq').1
  | holding snapshot => exact fun read hread => (h read hread).concat i
  | finished r => exact AnswersAt.concat h i
  | returned r => exact AnswersAt.concat h i

theorem Inv.phase_eq {q : Phase σ κ ρ} (h : Inv ops start s) (hphase : s.phase i = q) :
    PhaseOk ops start s.pointer s.value s.commits i q :=
  hphase ▸ h.phases i

theorem answersAt_concat (hfinal : replay (meanings ops) s.commits start = s.value) (i : ι) :
    AnswersAt (meanings ops) start (s.commits ++ [i]) i ((ops i).meaning s.value).2 :=
  ⟨s.commits,[],rfl,by rw [hfinal, meanings]⟩

end Commit

variable [DecidableEq ι]

namespace State

def setPhase (s : State ι σ κ ρ) (i : ι) (p : Phase σ κ ρ) : State ι σ κ ρ :=
  { s with phase := Function.update s.phase i p }

def log (s : State ι σ κ ρ) (e : Event ι ρ) : State ι σ κ ρ :=
  { s with history := s.history ++ [e] }

def commit (s : State ι σ κ ρ) (i : ι) : State ι σ κ ρ := { s with commits := s.commits ++ [i] }

end State

open State

def step (ops : ι → Operation σ κ ρ) (s : State ι σ κ ρ) : Action ι → State ι σ κ ρ
  | .invoke i =>
    match s.phase i, ops i with
    | .idle, .update captured _ _ => (s.setPhase i (.loading captured)).log (.invoke i)
    | .idle, .observe _ => (s.setPhase i .reading).log (.invoke i)
    | _, _ => s
  | .load i =>
    match s.phase i with
    | .loading captured => s.setPhase i (.loaded captured s.pointer s.value)
    | .reading => (s.setPhase i (.holding s.value)).commit i
    | _ => s
  | .attempt i =>
    match s.phase i, ops i with
    | .loaded captured pointer snapshot, .update _ closure _ =>
        s.setPhase i
          (.attempting (closure snapshot captured).2 pointer (closure snapshot captured).1)
    | .holding snapshot, .observe read => s.setPhase i (.finished (read snapshot))
    | _, _ => s
  | .swap i =>
    match s.phase i, ops i with
    | .attempting captured pointer next, .update _ _ result =>
        if pointer = s.pointer then
          ({ s with pointer := s.pointer + 1, value := next }.setPhase i
            (.finished (result captured))).commit i
        else s.setPhase i (.loading captured)
    | _, _ => s
  | .respond i =>
    match s.phase i with
    | .finished result => (s.setPhase i (.returned result)).log (.respond i result)
    | _ => s

variable {ops : ι → Operation σ κ ρ} {start : σ} {s : State ι σ κ ρ} {i : ι} {p : Phase σ κ ρ}

theorem forall_update (P : ι → Phase σ κ ρ → Prop) (hi : P i p)
    (hj : ∀ j, j ≠ i → P j (s.phase j)) : ∀ j, P j (Function.update s.phase i p j) := by
  intro j
  rcases eq_or_ne j i with rfl | h
  · simpa using hi
  · simpa [h] using hj j h

theorem Inv.setPhase (h : Inv ops start s) (hidle : s.phase i ≠ .idle)
    (hreturned : ∀ r, s.phase i ≠ .returned r)
    (hp : PhaseOk ops start s.pointer s.value s.commits i p) : Inv ops start (s.setPhase i p) where
  nodup := h.nodup
  started := forall_update (fun j q => q ≠ .idle → Event.invoke j ∈ s.history)
    (fun _ => h.started i hidle) (fun j _ => h.started j)
  committed := h.committed
  responded := by
    intro j r hr
    have hj := h.responded j r hr
    have hne : j ≠ i := fun heq => hreturned r (heq ▸ hj)
    simpa [State.setPhase, hne] using hj
  realTime := h.realTime
  final := h.final
  phases := forall_update (PhaseOk ops start s.pointer s.value s.commits) hp
    (fun j _ => h.phases j)

theorem Inv.invoke (h : Inv ops start s) (hidle : s.phase i = .idle)
    (hp : PhaseOk ops start s.pointer s.value s.commits i p) :
    Inv ops start ((s.setPhase i p).log (.invoke i)) := by
  have hi : i ∉ s.commits := by
    have := h.phases i
    rwa [hidle] at this
  refine ⟨h.nodup,?_,?_,?_,?_,h.final,
    forall_update (PhaseOk ops start s.pointer s.value s.commits) hp (fun j _ => h.phases j)⟩
  · exact forall_update (fun j q => q ≠ .idle → Event.invoke j ∈ s.history ++ [.invoke i])
      (fun _ => List.mem_append_right _ (List.mem_singleton.mpr rfl))
      (fun j _ hj => List.mem_append_left _ (h.started j hj))
  · exact fun j hj => List.mem_append_left _ (h.committed j hj)
  · intro j r hr
    have hr' : .respond j r ∈ s.history := by simpa [State.log, State.setPhase] using hr
    have hj := h.responded j r hr'
    have hne : j ≠ i := by
      rintro rfl
      rw [hidle] at hj
      cases hj
    simpa [State.log, State.setPhase, hne] using hj
  · intro j r k hpre hk
    rcases precedes_concat.mp hpre with hpre | ⟨-,heq⟩
    · exact h.realTime j r k hpre hk
    · obtain rfl := Event.invoke.inj heq
      exact absurd hk hi

theorem Inv.respond {r : ρ} (h : Inv ops start s) (hphase : s.phase i = .finished r) :
    Inv ops start ((s.setPhase i (.returned r)).log (.respond i r)) := by
  have hi := h.phases i
  rw [hphase] at hi
  have hset : Inv ops start (s.setPhase i (.returned r)) :=
    h.setPhase (by simp [hphase]) (by simp [hphase]) hi
  refine ⟨hset.nodup,?_,?_,?_,?_,hset.final,hset.phases⟩
  · exact fun j hj => List.mem_append_left _ (hset.started j hj)
  · exact fun j hj => List.mem_append_left _ (hset.committed j hj)
  · intro j r' hr
    rcases List.mem_append.mp hr with hr | hr
    · exact hset.responded j r' hr
    · obtain ⟨rfl,rfl⟩ := Event.respond.inj (List.mem_singleton.mp hr)
      simp [State.log, State.setPhase]
  · intro j r' k hpre hk
    rcases precedes_concat.mp hpre with hpre | ⟨-,heq⟩
    · exact hset.realTime j r' k hpre hk
    · cases heq

theorem Inv.commit {pointer' : Nat} {value' : σ} (h : Inv ops start s)
    (hidle : s.phase i ≠ .idle) (hreturned : ∀ r, s.phase i ≠ .returned r)
    (hi : i ∉ s.commits) (hvalue : ((ops i).meaning s.value).1 = value')
    (hpointer : s.pointer < pointer' ∨ (s.pointer = pointer' ∧ s.value = value'))
    (hp : PhaseOk ops start pointer' value' (s.commits ++ [i]) i p) :
    Inv ops start
      (({ s with pointer := pointer', value := value' }.setPhase i p).commit i) := by
  refine ⟨?_,?_,?_,?_,?_,?_,?_⟩
  · exact List.nodup_append.mpr ⟨h.nodup,by simp,fun j hj k hk => by
      obtain rfl : k = i := by simpa using hk
      exact fun heq => hi (heq ▸ hj)⟩
  · exact forall_update (fun j q => q ≠ .idle → Event.invoke j ∈ s.history)
      (fun _ => h.started i hidle) (fun j _ => h.started j)
  · intro j hj
    rcases List.mem_append.mp hj with hj | hj
    · exact h.committed j hj
    · obtain rfl : j = i := by simpa using hj
      exact h.started j hidle
  · intro j r hr
    have hj := h.responded j r hr
    have hne : j ≠ i := fun heq => hreturned r (heq ▸ hj)
    simpa [State.commit, State.setPhase, hne] using hj
  · intro j r k hpre hk
    rcases List.mem_append.mp hk with hk | hk
    · exact precedes_concat.mpr (.inl (h.realTime j r k hpre hk))
    · obtain ⟨front,back,hl,hjr,-⟩ := hpre
      have hr : .respond j r ∈ s.history := by
        change s.history = front ++ back at hl
        rw [hl]
        exact List.mem_append_left _ hjr
      have hj := h.phases j
      rw [h.responded j r hr] at hj
      exact precedes_concat.mpr (.inr ⟨AnswersAt.mem hj,by simpa using hk⟩)
  · change replay (meanings ops) (s.commits ++ [i]) start = value'
    rw [replay_concat, h.final, meanings, hvalue]
  · exact forall_update (PhaseOk ops start pointer' value' (s.commits ++ [i])) hp
      (fun j hj => (h.phases j).commit hpointer hj)

theorem Inv.load_reading (h : Inv ops start s) (hphase : s.phase i = .reading) :
    Inv ops start ((s.setPhase i (.holding s.value)).commit i) := by
  obtain ⟨hi,read,hop⟩ := h.phase_eq hphase
  refine h.commit (by simp [hphase]) (by simp [hphase]) hi (by simp [hop, Operation.meaning])
    (.inr ⟨rfl,rfl⟩) ?_
  intro read' hop'
  have ha := answersAt_concat h.final i
  rwa [hop'] at ha

theorem Inv.attempt {captured c : κ} {pointer : Nat} {snapshot : σ} {closure : σ → κ → σ × κ}
    {result : κ → ρ} (h : Inv ops start s) (hphase : s.phase i = .loaded c pointer snapshot)
    (hop : ops i = .update captured closure result) :
    Inv ops start
      (s.setPhase i (.attempting (closure snapshot c).2 pointer (closure snapshot c).1)) := by
  obtain ⟨hi,hle,hsnap⟩ := h.phase_eq hphase
  refine h.setPhase (by simp [hphase]) (by simp [hphase]) ⟨hi,hle,?_⟩
  intro heq captured' closure' result' hop'
  obtain ⟨-,rfl,-⟩ := Operation.update.inj (hop.symm.trans hop')
  exact ⟨c,by rw [← hsnap heq]⟩

theorem Inv.swap_success {captured c : κ} {next : σ} {closure : σ → κ → σ × κ} {result : κ → ρ}
    (hops : (ops i).Restartable) (h : Inv ops start s)
    (hphase : s.phase i = .attempting c s.pointer next)
    (hop : ops i = .update captured closure result) :
    Inv ops start
      (({ s with pointer := s.pointer + 1, value := next }.setPhase i
        (.finished (result c))).commit i) := by
  obtain ⟨hi,-,hnext⟩ := h.phase_eq hphase
  obtain ⟨c',hc'⟩ := hnext rfl captured closure result hop
  have hrestart : Operation.Restartable (.update captured closure result) := hop ▸ hops
  obtain ⟨hvalue,hresult⟩ := hrestart s.value c'
  rw [hc'] at hvalue hresult
  refine h.commit (by simp [hphase]) (by simp [hphase]) hi ?_ (.inl (Nat.lt_succ_self _)) ?_
  · rw [hop]
    exact hvalue.symm
  · have ha := answersAt_concat h.final i
    rw [hop] at ha
    change AnswersAt (meanings ops) start (s.commits ++ [i]) i (result c)
    rw [show result c = _ from hresult]
    exact ha

theorem inv_step (hops : ∀ i, (ops i).Restartable) (h : Inv ops start s) (a : Action ι) :
    Inv ops start (step ops s a) := by
  cases a with
  | invoke i =>
    simp only [step]
    split
    · next captured _ _ hphase _ =>
      have hi : i ∉ s.commits := h.phase_eq hphase
      exact h.invoke hphase hi
    · next read hphase hop =>
      have hi : i ∉ s.commits := h.phase_eq hphase
      exact h.invoke hphase ⟨hi,read,hop⟩
    · exact h
  | load i =>
    simp only [step]
    split
    · next captured hphase =>
      exact h.setPhase (by simp [hphase]) (by simp [hphase])
        ⟨h.phase_eq hphase,Nat.le_refl _,fun _ => rfl⟩
    · next hphase => exact h.load_reading hphase
    · exact h
  | attempt i =>
    simp only [step]
    split
    · next hphase hop => exact h.attempt hphase hop
    · next read hphase hop =>
      exact h.setPhase (by simp [hphase]) (by simp [hphase]) (h.phase_eq hphase read hop)
    · exact h
  | swap i =>
    simp only [step]
    split
    · next hphase hop =>
      split
      · next heq =>
        subst heq
        exact h.swap_success (hops i) hphase hop
      · have hi := (h.phase_eq hphase).1
        exact h.setPhase (by simp [hphase]) (by simp [hphase]) hi
    · exact h
  | respond i =>
    simp only [step]
    split
    · next r hphase => exact h.respond hphase
    · exact h

theorem linearizable (hops : ∀ i, (ops i).Restartable) (start : σ) (acts : List (Action ι)) :
    let s := Transition.run (step ops) (State.initial start) acts
    Linearization (meanings ops) start s s.commits := by
  intro s
  have hstep : ∀ s a, Inv ops start s → Inv ops start (step ops s a) :=
    fun _ a h => inv_step hops h a
  have h : Inv ops start s :=
    Transition.run_invariant (Inv ops start) hstep (inv_initial ops start) acts
  refine ⟨h.nodup,h.committed,h.realTime,h.final,?_⟩
  intro i r hr
  have hi := h.phases i
  rwa [h.responded i r hr] at hi

def alone (i : ι) : List (Action ι) := [.invoke i, .load i, .attempt i, .swap i, .respond i]

theorem alone_completes (ops : ι → Operation σ κ ρ) (h : s.phase i = .idle) :
    let s' := Transition.run (step ops) s (alone i)
    let result := ((ops i).meaning s.value).2
    s'.phase i = .returned result ∧ s'.value = ((ops i).meaning s.value).1 ∧
      s'.commits = s.commits ++ [i] ∧
      s'.history = s.history ++ [.invoke i, .respond i result] := by
  cases hop : ops i with
  | update captured closure result =>
    simp [alone, step, h, hop, State.setPhase, State.log, State.commit, Operation.meaning]
  | observe read =>
    simp [alone, step, h, hop, State.setPhase, State.log, State.commit, Operation.meaning]

end Rcu
