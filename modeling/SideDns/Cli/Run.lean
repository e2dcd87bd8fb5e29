import SideDns.Daemon.Coherence

namespace SideDns

open FiniteMap (HashMap IterationOrder)
open Transition (run Guarded)

inductive RunPhase where
  | launching
  | adding
  | awaiting (call : Nat)
  | running
  | removing
  | removed (call : Nat)
  | finished
  | exited
  deriving DecidableEq, Repr

namespace RunPhase

def isAdmitted : RunPhase → Bool
  | running => true
  | removing => true
  | removed _ => true
  | finished => true
  | _ => false

def isReleased : RunPhase → Bool
  | removed _ => true
  | finished => true
  | _ => false

def isHolding : RunPhase → Bool
  | awaiting _ => true
  | running => true
  | removing => true
  | exited => true
  | _ => false

end RunPhase

structure RunClient where
  domain : String
  target : SocketAddr
  https : Bool
  phase : RunPhase
  deriving DecidableEq, Repr

namespace RunClient

def addRequest (c : RunClient) : IpcRequest := .addEphemeral c.domain c.target c.https

def removeRequest (c : RunClient) : IpcRequest := .removeEphemeral c.domain

def key (lib : TextLibrary) (c : RunClient) : String := lib.toLowercase c.domain

def moveTo (c : RunClient) (phase : RunPhase) : RunClient := { c with phase := phase }

end RunClient

structure Runs (Key : Type) where
  daemon : Daemon Key
  clients : List RunClient

def Action.touchesEphemeral : Action → Bool
  | request _ (.addEphemeral _ _ _) => true
  | request _ (.removeEphemeral _) => true
  | _ => false

inductive RunAction where
  | daemon (action : Action)
  | send (i : Nat)
  | handle (order : IterationOrder String DnsRule) (i : Nat)
  | receive (i : Nat)
  | leave (i : Nat)

namespace Runs

variable {Key : Type}

def launch (d : Daemon Key) (clients : List (String × SocketAddr × Bool)) : Runs Key :=
  ⟨d, clients.map fun c => ⟨c.1, c.2.1, c.2.2, .launching⟩⟩

def moveTo (r : Runs Key) (i : Nat) (c : RunClient) (phase : RunPhase) : Runs Key :=
  { r with clients := r.clients.set i (c.moveTo phase) }

def send (r : Runs Key) (i : Nat) : Runs Key :=
  match r.clients[i]? with
  | some c =>
    match c.phase with
    | .launching => r.moveTo i c .adding
    | .running => r.moveTo i c .removing
    | _ => r
  | none => r

def handle (lib : TextLibrary) (r : Runs Key) (order : IterationOrder String DnsRule) (i : Nat) :
    Runs Key :=
  match r.clients[i]? with
  | some c =>
    match c.phase with
    | .adding =>
      { r.moveTo i c (.awaiting r.daemon.calls.length) with
        daemon := r.daemon.accept lib order c.addRequest }
    | .removing =>
      { r.moveTo i c (.removed r.daemon.calls.length) with
        daemon := r.daemon.accept lib order c.removeRequest }
    | _ => r
  | none => r

def receive (r : Runs Key) (i : Nat) : Runs Key :=
  match r.clients[i]? with
  | some c =>
    match c.phase with
    | .awaiting call =>
      match r.daemon.calls[call]? with
      | some ⟨_, .replied (.error _)⟩ => r.moveTo i c .exited
      | some ⟨_, .replied _⟩ => r.moveTo i c .running
      | _ => r
    | .removed call =>
      match r.daemon.calls[call]? with
      | some ⟨_, .replied _⟩ => r.moveTo i c .finished
      | _ => r
    | _ => r
  | none => r

def leave (r : Runs Key) (i : Nat) : Runs Key :=
  match r.clients[i]? with
  | some c =>
    match c.phase with
    | .launching => r.moveTo i c .exited
    | .running => r.moveTo i c .exited
    | _ => r
  | none => r

def step (lib : TextLibrary) (r : Runs Key) : RunAction → Runs Key
  | .daemon action =>
    if action.touchesEphemeral then r else { r with daemon := r.daemon.step lib action }
  | .send i => r.send i
  | .handle order i => r.handle lib order i
  | .receive i => r.receive i
  | .leave i => r.leave i

def ephemeral (r : Runs Key) : HashMap String DnsRule :=
  r.daemon.state.store.inner.toMaps.ephemeral

inductive Stepped (lib : TextLibrary) (r : Runs Key) : RunAction → Runs Key → Prop where
  | daemon (action : Action) (ha : action.touchesEphemeral = false) :
      Stepped lib r (.daemon action) { r with daemon := r.daemon.step lib action }
  | launched (i : Nat) (c : RunClient) (hi : r.clients[i]? = some c) (hp : c.phase = .launching) :
      Stepped lib r (.send i) (r.moveTo i c .adding)
  | stopping (i : Nat) (c : RunClient) (hi : r.clients[i]? = some c) (hp : c.phase = .running) :
      Stepped lib r (.send i) (r.moveTo i c .removing)
  | added (order : IterationOrder String DnsRule) (i : Nat) (c : RunClient)
      (hi : r.clients[i]? = some c) (hp : c.phase = .adding) :
      Stepped lib r (.handle order i)
        { r.moveTo i c (.awaiting r.daemon.calls.length) with
          daemon := r.daemon.accept lib order c.addRequest }
  | removed (order : IterationOrder String DnsRule) (i : Nat) (c : RunClient)
      (hi : r.clients[i]? = some c) (hp : c.phase = .removing) :
      Stepped lib r (.handle order i)
        { r.moveTo i c (.removed r.daemon.calls.length) with
          daemon := r.daemon.accept lib order c.removeRequest }
  | refused (i : Nat) (c : RunClient) (call : Nat) (hi : r.clients[i]? = some c)
      (hp : c.phase = .awaiting call) : Stepped lib r (.receive i) (r.moveTo i c .exited)
  | admitted (i : Nat) (c : RunClient) (call : Nat) (request : IpcRequest)
      (response : IpcResponse) (hi : r.clients[i]? = some c) (hp : c.phase = .awaiting call)
      (hcall : r.daemon.calls[call]? = some ⟨request, .replied response⟩)
      (hr : ∀ message, response ≠ .error message) :
      Stepped lib r (.receive i) (r.moveTo i c .running)
  | finished (i : Nat) (c : RunClient) (call : Nat) (hi : r.clients[i]? = some c)
      (hp : c.phase = .removed call) : Stepped lib r (.receive i) (r.moveTo i c .finished)
  | left (i : Nat) (c : RunClient) (hi : r.clients[i]? = some c)
      (hp : c.phase = .launching ∨ c.phase = .running) :
      Stepped lib r (.leave i) (r.moveTo i c .exited)
  | idle (action : RunAction) : Stepped lib r action r

theorem step_cases (lib : TextLibrary) (r : Runs Key) (action : RunAction) :
    Stepped lib r action (r.step lib action) := by
  cases action with
  | daemon action =>
    simp only [step]
    split_ifs with ha
    · exact .idle _
    · exact .daemon action (Bool.not_eq_true _ ▸ ha)
  | send i =>
    simp only [step, send]
    split
    · next c hi =>
      split
      · next hp => exact .launched i c hi hp
      · next hp => exact .stopping i c hi hp
      · exact .idle _
    · exact .idle _
  | handle order i =>
    simp only [step, handle]
    split
    · next c hi =>
      split
      · next hp => exact .added order i c hi hp
      · next hp => exact .removed order i c hi hp
      · exact .idle _
    · exact .idle _
  | receive i =>
    simp only [step, receive]
    split
    · next c hi =>
      split
      · next call hp =>
        split
        · exact .refused i c call hi hp
        · next request response hr hcall =>
          exact .admitted i c call request response hi hp hcall hr
        · exact .idle _
      · next call hp =>
        split
        · exact .finished i c call hi hp
        · exact .idle _
      · exact .idle _
    · exact .idle _
  | leave i =>
    simp only [step, leave]
    split
    · next c hi =>
      split
      · next hp => exact .left i c hi (.inl hp)
      · next hp => exact .left i c hi (.inr hp)
      · exact .idle _
    · exact .idle _

variable {lib : TextLibrary}

def Admission (lib : TextLibrary) (c : RunClient) (stage : Stage) : Prop :=
  if validateDomain lib c.domain then (∃ event, stage = .announcing event) ∨ stage = .replied .ok
  else ∃ message, stage = .replied (.error message)

theorem Admission.proceed {c : RunClient} {stage : Stage} (h : Admission lib c stage)
    (st : AppState) : Admission lib c (st.proceed stage).2 := by
  simp only [Admission] at h ⊢
  split_ifs at h ⊢
  · rcases h with ⟨event,rfl⟩ | rfl
    · exact .inr rfl
    · exact .inr rfl
  · obtain ⟨message,rfl⟩ := h
    exact ⟨message,rfl⟩

theorem admission_accept (lib : TextLibrary) (order : IterationOrder String DnsRule)
    (st : AppState) (c : RunClient) :
    Admission lib c (st.accept lib order c.addRequest).2 := by
  cases hv : validateDomain lib c.domain <;>
    simp [Admission, AppState.accept, RunClient.addRequest, hv, AppState.invalidDomain]

structure Consistent (lib : TextLibrary) (r : Runs Key) : Prop where
  awaiting : ∀ (i : Nat) c call, r.clients[i]? = some c → c.phase = .awaiting call →
    ∃ stage, r.daemon.calls[call]? = some ⟨c.addRequest, stage⟩ ∧ Admission lib c stage
  admitted : ∀ (i : Nat) c, r.clients[i]? = some c → c.phase.isAdmitted = true →
    validateDomain lib c.domain = true
  released : ∀ (i : Nat) c, r.clients[i]? = some c → c.phase.isReleased = true →
    r.ephemeral.lookup (c.key lib) = none ∨
      ∃ j : Nat, ∃ c', r.clients[j]? = some c' ∧ c'.key lib = c.key lib ∧
        c'.phase.isHolding = true

theorem getElem?_moveTo {r : Runs Key} {i j : Nat} {c c' : RunClient} {phase : RunPhase}
    (hj : (r.moveTo i c phase).clients[j]? = some c') :
    (i = j ∧ c' = c.moveTo phase) ∨ (i ≠ j ∧ r.clients[j]? = some c') := by
  simp only [moveTo, List.getElem?_set] at hj
  split_ifs at hj with hij
  · exact .inl ⟨hij,(Option.some.inj hj).symm⟩
  · exact .inr ⟨hij,hj⟩

theorem getElem?_moved {r : Runs Key} {i : Nat} {c : RunClient} (hi : r.clients[i]? = some c)
    (phase : RunPhase) : (r.moveTo i c phase).clients[i]? = some (c.moveTo phase) := by
  simp [moveTo, (List.getElem?_eq_some_iff.mp hi).1]

theorem getElem?_others {r : Runs Key} {i j : Nat} {c c' : RunClient}
    (hj : r.clients[j]? = some c') (hij : i ≠ j) (phase : RunPhase) :
    (r.moveTo i c phase).clients[j]? = some c' := by
  rw [moveTo, List.getElem?_set_ne hij, hj]

theorem holding_moveTo {r : Runs Key} {i : Nat} {c : RunClient} (hi : r.clients[i]? = some c)
    {phase : RunPhase} {key : String}
    (hkeep : c.key lib = key → c.phase.isHolding = true → phase.isHolding = true)
    (h : ∃ k : Nat, ∃ c', r.clients[k]? = some c' ∧ c'.key lib = key ∧
      c'.phase.isHolding = true) :
    ∃ k : Nat, ∃ c', (r.moveTo i c phase).clients[k]? = some c' ∧ c'.key lib = key ∧
      c'.phase.isHolding = true := by
  obtain ⟨k,c',hk,hkey,hh⟩ := h
  rcases eq_or_ne i k with rfl | hne
  · obtain rfl := Option.some.inj (hi.symm.trans hk)
    exact ⟨i,_,getElem?_moved hi phase,hkey,hkeep hkey hh⟩
  · exact ⟨k,c',getElem?_others hk hne phase,hkey,hh⟩

theorem ephemeral_accept (lib : TextLibrary) (d : Daemon Key)
    (order : IterationOrder String DnsRule) (request : IpcRequest) :
    (d.accept lib order request).state.store.inner.toMaps.ephemeral =
      match request.mutation lib with
      | some m => (RuleMaps.mutate m d.state.store.inner.toMaps).1.ephemeral
      | none => d.state.store.inner.toMaps.ephemeral := by
  rw [Daemon.accept, AppState.toMaps_accept]
  cases request.mutation lib <;> rfl

theorem ephemeral_daemon (lib : TextLibrary) (d : Daemon Key) {action : Action}
    (ha : action.touchesEphemeral = false) :
    (d.step lib action).state.store.inner.toMaps.ephemeral =
      d.state.store.inner.toMaps.ephemeral := by
  cases action with
  | request order request =>
    rw [Daemon.step, ephemeral_accept]
    cases request with
    | add domain target https =>
      cases hv : validateDomain lib domain <;> simp [IpcRequest.mutation, hv, RuleMaps.mutate]
    | remove domain =>
      cases hv : validateDomain lib domain <;> simp [IpcRequest.mutation, hv, RuleMaps.mutate]
    | addEphemeral domain target https => cases ha
    | removeEphemeral domain => cases ha
    | _ => rfl
  | proceed i =>
    have hp := d.proceed_cases i
    simp only [Daemon.step]
    generalize d.proceed i = d' at hp
    cases hp <;> rfl
  | _ => rw [(d.step_sameRules lib rfl).store]

theorem ephemeral_add {r : Runs Key} {c : RunClient} (order : IterationOrder String DnsRule)
    (domain : String) :
    (r.daemon.accept lib order c.addRequest).state.store.inner.toMaps.ephemeral.lookup domain =
      if validateDomain lib c.domain = true ∧ domain = c.key lib then
        some ⟨c.key lib, c.target, c.https⟩
      else r.ephemeral.lookup domain := by
  rw [ephemeral_accept]
  cases hv : validateDomain lib c.domain with
  | false => simp [IpcRequest.mutation, RunClient.addRequest, hv, ephemeral]
  | true =>
    simp only [IpcRequest.mutation, RunClient.addRequest, hv, if_pos, RuleMaps.mutate]
    rw [FiniteMap.lookup_insert_ite]
    simp only [RunClient.key, true_and]
    rfl

theorem ephemeral_remove {r : Runs Key} {c : RunClient} (order : IterationOrder String DnsRule)
    (hv : validateDomain lib c.domain = true) (domain : String) :
    (r.daemon.accept lib order c.removeRequest).state.store.inner.toMaps.ephemeral.lookup domain =
      if domain = c.key lib then none else r.ephemeral.lookup domain := by
  rw [ephemeral_accept]
  simp only [IpcRequest.mutation, RunClient.removeRequest, hv, if_pos, RuleMaps.mutate]
  exact FiniteMap.lookup_erase_ite _ _ _

theorem Consistent.daemon {r : Runs Key} (h : r.Consistent lib) {action : Action}
    (ha : action.touchesEphemeral = false) :
    ({ r with daemon := r.daemon.step lib action } : Runs Key).Consistent lib := by
  refine ⟨?_,h.admitted,?_⟩
  · intro i c call hi hp
    obtain ⟨stage,hcall,hadm⟩ := h.awaiting i c call hi hp
    obtain ⟨stage',hcall',hsame | hproceed⟩ := Daemon.call_step lib action hcall
    · exact ⟨stage',hcall',hsame ▸ hadm⟩
    · exact ⟨stage',hcall',hproceed ▸ hadm.proceed _⟩
  · intro i c hi hp
    rw [ephemeral, ephemeral_daemon lib r.daemon ha]
    exact h.released i c hi hp

theorem Consistent.moved {r : Runs Key} (h : r.Consistent lib) {i : Nat} {c : RunClient}
    (hi : r.clients[i]? = some c) {phase : RunPhase} (hawait : ∀ call, phase ≠ .awaiting call)
    (hadm : phase.isAdmitted = true → validateDomain lib c.domain = true)
    (hrel : phase.isReleased = true → c.phase.isReleased = true)
    (hhold : c.phase.isHolding = true → phase.isHolding = true) :
    (r.moveTo i c phase).Consistent lib := by
  refine ⟨?_,?_,?_⟩
  · intro j c' call hj hp
    rcases getElem?_moveTo hj with ⟨rfl,rfl⟩ | ⟨-,hold⟩
    · exact absurd hp (hawait call)
    · exact h.awaiting j c' call hold hp
  · intro j c' hj hp
    rcases getElem?_moveTo hj with ⟨rfl,rfl⟩ | ⟨-,hold⟩
    · exact hadm hp
    · exact h.admitted j c' hold hp
  · intro j c' hj hp
    have hold : r.ephemeral.lookup (c'.key lib) = none ∨
        ∃ k : Nat, ∃ c'', r.clients[k]? = some c'' ∧ c''.key lib = c'.key lib ∧
          c''.phase.isHolding = true := by
      rcases getElem?_moveTo hj with ⟨rfl,rfl⟩ | ⟨-,hold⟩
      · exact h.released i c hi (hrel hp)
      · exact h.released j c' hold hp
    exact hold.imp_right (holding_moveTo hi fun _ => hhold)

theorem awaiting_accept {r : Runs Key} (h : r.Consistent lib) {i call : Nat} {c : RunClient}
    (hi : r.clients[i]? = some c) (hp : c.phase = .awaiting call)
    (order : IterationOrder String DnsRule) (request : IpcRequest) :
    ∃ stage, (r.daemon.accept lib order request).calls[call]? = some ⟨c.addRequest, stage⟩ ∧
      Admission lib c stage := by
  obtain ⟨stage,hcall,hadm⟩ := h.awaiting i c call hi hp
  refine ⟨stage,?_,hadm⟩
  rw [Daemon.accept, List.getElem?_append_left (List.getElem?_eq_some_iff.mp hcall).1, hcall]

theorem Consistent.added {r : Runs Key} (h : r.Consistent lib) {i : Nat} {c : RunClient}
    (hi : r.clients[i]? = some c) (hp : c.phase = .adding)
    (order : IterationOrder String DnsRule) :
    ({ r.moveTo i c (.awaiting r.daemon.calls.length) with
        daemon := r.daemon.accept lib order c.addRequest } : Runs Key).Consistent lib := by
  refine ⟨?_,?_,?_⟩
  · intro j c' call hj hphase
    rcases getElem?_moveTo hj with ⟨rfl,rfl⟩ | ⟨-,hold⟩
    · obtain rfl := RunPhase.awaiting.inj hphase
      refine ⟨_,?_,admission_accept lib order r.daemon.state c⟩
      simp [Daemon.accept, RunClient.moveTo, RunClient.addRequest]
    · exact awaiting_accept h hold hphase order _
  · intro j c' hj hphase
    rcases getElem?_moveTo hj with ⟨rfl,rfl⟩ | ⟨-,hold⟩
    · cases hphase
    · exact h.admitted j c' hold hphase
  · intro j c' hj hphase
    rw [ephemeral, ephemeral_add order]
    rcases getElem?_moveTo hj with ⟨rfl,rfl⟩ | ⟨hij,hold⟩
    · cases hphase
    · split_ifs with hsame
      · exact .inr ⟨i,_,getElem?_moved hi _,hsame.2.symm,rfl⟩
      · refine (h.released j c' hold hphase).imp_right (holding_moveTo hi fun _ hh => ?_)
        rw [hp] at hh
        cases hh

theorem Consistent.removed {r : Runs Key} (h : r.Consistent lib) {i : Nat} {c : RunClient}
    (hi : r.clients[i]? = some c) (hp : c.phase = .removing)
    (order : IterationOrder String DnsRule) :
    ({ r.moveTo i c (.removed r.daemon.calls.length) with
        daemon := r.daemon.accept lib order c.removeRequest } : Runs Key).Consistent lib := by
  have hv := h.admitted i c hi (by rw [hp]; rfl)
  refine ⟨?_,?_,?_⟩
  · intro j c' call hj hphase
    rcases getElem?_moveTo hj with ⟨rfl,rfl⟩ | ⟨-,hold⟩
    · cases hphase
    · exact awaiting_accept h hold hphase order _
  · intro j c' hj hphase
    rcases getElem?_moveTo hj with ⟨rfl,rfl⟩ | ⟨-,hold⟩
    · exact hv
    · exact h.admitted j c' hold hphase
  · intro j c' hj hphase
    rw [ephemeral, ephemeral_remove order hv]
    rcases getElem?_moveTo hj with ⟨rfl,rfl⟩ | ⟨hij,hold⟩
    · exact .inl (if_pos rfl)
    · split_ifs with hsame
      · exact .inl rfl
      · refine (h.released j c' hold hphase).imp_right (holding_moveTo hi fun hkey _ => ?_)
        exact absurd hkey.symm hsame

theorem Consistent.step {r : Runs Key} (h : r.Consistent lib) (action : RunAction) :
    (r.step lib action).Consistent lib := by
  have hs := r.step_cases lib action
  generalize r.step lib action = r' at hs
  cases hs with
  | daemon action ha => exact h.daemon ha
  | launched i c hi hp =>
    exact h.moved hi (by simp) (by simp [RunPhase.isAdmitted]) (by simp [RunPhase.isReleased])
      (by simp [hp, RunPhase.isHolding])
  | stopping i c hi hp =>
    refine h.moved hi (by simp) (fun _ => ?_) (by simp [RunPhase.isReleased]) (fun _ => rfl)
    exact h.admitted i c hi (by rw [hp]; rfl)
  | added order i c hi hp => exact h.added hi hp order
  | removed order i c hi hp => exact h.removed hi hp order
  | refused i c call hi hp =>
    exact h.moved hi (by simp) (by simp [RunPhase.isAdmitted]) (by simp [RunPhase.isReleased])
      (fun _ => rfl)
  | admitted i c call request response hi hp hcall hr =>
    refine h.moved hi (by simp) (fun _ => ?_) (by simp [RunPhase.isReleased]) (fun _ => rfl)
    obtain ⟨stage,hstage,hadm⟩ := h.awaiting i c call hi hp
    obtain ⟨-,rfl⟩ := Call.mk.inj (Option.some.inj (hstage.symm.trans hcall))
    by_contra hv
    simp only [Admission, hv] at hadm
    obtain ⟨message,hm⟩ := hadm
    exact hr message (Stage.replied.inj hm)
  | finished i c call hi hp =>
    refine h.moved hi (by simp) (fun _ => ?_) (fun _ => by rw [hp]; rfl)
      (by simp [hp, RunPhase.isHolding])
    exact h.admitted i c hi (by rw [hp]; rfl)
  | left i c hi hp =>
    exact h.moved hi (by simp) (by simp [RunPhase.isAdmitted]) (by simp [RunPhase.isReleased])
      (fun _ => rfl)
  | idle action => exact h

def Held (lib : TextLibrary) (r : Runs Key) : Prop :=
  ∀ (i : Nat) c, r.clients[i]? = some c → c.phase = .running →
    (r.ephemeral.lookup (c.key lib)).isSome = true

def Exclusive (lib : TextLibrary) (r : Runs Key) : RunAction → Prop
  | .handle _ i => ∀ c, r.clients[i]? = some c → c.phase = .removing →
      ∀ (j : Nat) c', r.clients[j]? = some c' → c'.phase = .running → c'.key lib ≠ c.key lib
  | .receive i => ∀ c call, r.clients[i]? = some c → c.phase = .awaiting call →
      r.daemon.calls[call]? = some ⟨c.addRequest, .replied .ok⟩ →
        (r.ephemeral.lookup (c.key lib)).isSome = true
  | _ => True

theorem Held.moved {r : Runs Key} (h : r.Held lib) {i : Nat} {c : RunClient} {phase : RunPhase}
    (hp : phase = .running → (r.ephemeral.lookup (c.key lib)).isSome = true) :
    (r.moveTo i c phase).Held lib := by
  intro j c' hj hrun
  rcases getElem?_moveTo hj with ⟨rfl,rfl⟩ | ⟨-,hold⟩
  · exact hp hrun
  · exact h j c' hold hrun

theorem Consistent.response {r : Runs Key} (h : r.Consistent lib) {i call : Nat} {c : RunClient}
    {request : IpcRequest} {response : IpcResponse} (hi : r.clients[i]? = some c)
    (hp : c.phase = .awaiting call)
    (hcall : r.daemon.calls[call]? = some ⟨request, .replied response⟩)
    (hr : ∀ message, response ≠ .error message) :
    validateDomain lib c.domain = true ∧
      r.daemon.calls[call]? = some ⟨c.addRequest, .replied .ok⟩ := by
  obtain ⟨stage,hstage,hadm⟩ := h.awaiting i c call hi hp
  obtain ⟨-,rfl⟩ := Call.mk.inj (Option.some.inj (hstage.symm.trans hcall))
  simp only [Admission] at hadm
  split_ifs at hadm with hv
  · rcases hadm with ⟨event,hevent⟩ | hok
    · cases hevent
    · exact ⟨hv,hok ▸ hstage⟩
  · obtain ⟨message,hm⟩ := hadm
    exact absurd (Stage.replied.inj hm) (hr message)

theorem Held.step {r : Runs Key} (h : r.Held lib) (hc : r.Consistent lib) {action : RunAction}
    (he : r.Exclusive lib action) : (r.step lib action).Held lib := by
  have hs := r.step_cases lib action
  generalize r.step lib action = r' at hs
  cases hs with
  | daemon action ha =>
    intro i c hi hp
    rw [ephemeral, ephemeral_daemon lib r.daemon ha]
    exact h i c hi hp
  | launched i c hi hp => exact h.moved (by simp)
  | stopping i c hi hp => exact h.moved (by simp)
  | added order i c hi hp =>
    intro j c' hj hrun
    rw [ephemeral, ephemeral_add order]
    rcases getElem?_moveTo hj with ⟨rfl,rfl⟩ | ⟨-,hold⟩
    · cases hrun
    · split_ifs
      · rfl
      · exact h j c' hold hrun
  | removed order i c hi hp =>
    have hv := hc.admitted i c hi (by rw [hp]; rfl)
    intro j c' hj hrun
    rw [ephemeral, ephemeral_remove order hv]
    rcases getElem?_moveTo hj with ⟨rfl,rfl⟩ | ⟨-,hold⟩
    · cases hrun
    · rw [if_neg (he c hi hp j c' hold hrun)]
      exact h j c' hold hrun
  | refused i c call hi hp => exact h.moved (by simp)
  | admitted i c call request response hi hp hcall hr =>
    exact h.moved (fun _ => he c call hi hp (hc.response hi hp hcall hr).2)
  | finished i c call hi hp => exact h.moved (by simp)
  | left i c hi hp => exact h.moved (by simp)
  | idle action => exact h

theorem Held.exclusive {r : Runs Key} (hc : r.Consistent lib) {action : RunAction}
    (h : (r.step lib action).Held lib) : r.Exclusive lib action := by
  cases action with
  | handle order i =>
    intro c hi hp j c' hj hrun hkey
    have hv := hc.admitted i c hi (by rw [hp]; rfl)
    simp only [Runs.step, Runs.handle, hi, hp] at h
    have hij : i ≠ j := by
      rintro rfl
      obtain rfl := Option.some.inj (hi.symm.trans hj)
      rw [hp] at hrun
      cases hrun
    have hsome := h j c' (getElem?_others hj hij _) hrun
    rw [ephemeral, ephemeral_remove order hv, if_pos hkey] at hsome
    cases hsome
  | receive i =>
    intro c call hi hp hcall
    simp only [Runs.step, Runs.receive, hi, hp, hcall] at h
    exact h i (c.moveTo .running) (getElem?_moved hi .running) rfl
  | _ => trivial

theorem consistent_launch (d : Daemon Key) (clients : List (String × SocketAddr × Bool)) :
    (launch d clients).Consistent lib := by
  have hphase : ∀ (i : Nat) c, (launch d clients).clients[i]? = some c → c.phase = .launching := by
    intro i c hi
    obtain ⟨args,-,rfl⟩ := List.mem_map.mp (List.mem_of_getElem? hi)
    rfl
  refine ⟨?_,?_,?_⟩
  · intro i c call hi hp
    rw [hphase i c hi] at hp
    cases hp
  · intro i c hi hp
    rw [hphase i c hi] at hp
    cases hp
  · intro i c hi hp
    rw [hphase i c hi] at hp
    cases hp

theorem held_launch (d : Daemon Key) (clients : List (String × SocketAddr × Bool)) :
    (launch d clients).Held lib := by
  intro i c hi hp
  obtain ⟨args,-,rfl⟩ := List.mem_map.mp (List.mem_of_getElem? hi)
  cases hp

theorem Consistent.all_released {r : Runs Key} (h : r.Consistent lib)
    (hall : ∀ c ∈ r.clients, c.phase.isReleased = true) {c : RunClient} (hc : c ∈ r.clients) :
    r.ephemeral.lookup (c.key lib) = none := by
  obtain ⟨i,hi⟩ := List.getElem?_of_mem hc
  refine (h.released i c hi (hall c hc)).resolve_right ?_
  rintro ⟨j,c',hj,-,hh⟩
  have hr := hall c' (List.mem_of_getElem? hj)
  cases hp : c'.phase <;> simp [hp, RunPhase.isReleased, RunPhase.isHolding] at hr hh

theorem run_rules_live_when_exclusive (lib : TextLibrary) (d : Daemon Key)
    (clients : List (String × SocketAddr × Bool)) (acts : List RunAction) :
    let r := launch d clients
    (Guarded (step lib) (Exclusive lib) r acts ↔
      ∀ before, before <+: acts → (run (step lib) r before).Held lib) ∧
    ((∀ c ∈ (run (step lib) r acts).clients, c.phase.isReleased = true) →
      ∀ c ∈ (run (step lib) r acts).clients,
        (run (step lib) r acts).ephemeral.lookup (c.key lib) = none) := by
  intro r
  have hbase : ∀ acts, (run (step lib) r acts).Consistent lib :=
    Transition.run_invariant _ (fun _ action h => h.step action) (consistent_launch d clients)
  refine ⟨?_,fun hall c hc => (hbase acts).all_released hall hc⟩
  have hstep : ∀ (r : Runs Key) action, r.Consistent lib ∧ r.Held lib →
      ((r.step lib action).Consistent lib ∧ (r.step lib action).Held lib ↔
        r.Exclusive lib action) := by
    rintro r action ⟨hc,hh⟩
    exact ⟨fun h' => Held.exclusive hc h'.2,fun he => ⟨hc.step action,hh.step hc he⟩⟩
  rw [Transition.guarded_iff_invariant (fun r : Runs Key => r.Consistent lib ∧ r.Held lib) hstep
    ⟨consistent_launch d clients,held_launch d clients⟩]
  exact forall_congr' fun before => forall_congr' fun _ => and_iff_right (hbase before)

def start (order : IterationOrder String DnsRule) (i : Nat) : List RunAction :=
  [.send i, .handle order i, .daemon (.proceed i), .receive i]

def stop (order : IterationOrder String DnsRule) (i : Nat) : List RunAction :=
  [.send i, .handle order i]

def twoClients : List (String × SocketAddr × Bool) :=
  [("a.test", .v4 0x7f000001 3000, false), ("b.test", .v4 0x7f000001 4000, true)]

def overlapping (order : IterationOrder String DnsRule) : List RunAction :=
  start order 0 ++ start order 1 ++ stop order 0 ++ stop order 1

theorem run_rule_removed_after_exit :
    let r : Runs Unit := run (step Daemon.plainText) (launch (Daemon.start ⟨[]⟩) twoClients)
      (overlapping default)
    r.ephemeral.lookup "a.test" = none ∧ r.ephemeral.lookup "b.test" = none := by
  have h := (run_rules_live_when_exclusive Daemon.plainText (Daemon.start ⟨[]⟩ : Daemon Unit)
    twoClients (overlapping default)).2 (by decide)
  exact ⟨h _ List.mem_cons_self,h _ (List.mem_cons_of_mem _ List.mem_cons_self)⟩

theorem shared_domain_loses_rule :
    ¬ ∀ (d : Daemon Unit) (clients : List (String × SocketAddr × Bool)) (acts : List RunAction),
      (run (step Daemon.plainText) (launch d clients) acts).Held Daemon.plainText := by
  intro h
  have hheld := h (Daemon.start ⟨[]⟩)
    [("a.test", .v4 0x7f000001 3000, false), ("a.test", .v4 0x7f000001 4000, false)]
    (start default 0 ++ start default 1 ++ stop default 1) 0 _ rfl rfl
  exact absurd hheld (by decide)

end Runs

end SideDns
