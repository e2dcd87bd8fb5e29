import SideDns.Dns.Resolver
import SideDns.State

namespace SideDns

open FiniteMap (IterationOrder)

structure TextLibrary where
  domainRegexIsMatch : String → Bool
  toLowercase : String → String

def validateDomain (lib : TextLibrary) (domain : String) : Bool :=
  decide (Utf8.len domain < 253) && lib.domainRegexIsMatch domain

inductive Stage where
  | announcing (event : DnsEvent)
  | stopping
  | cancelling
  | replied (response : IpcResponse)
  deriving DecidableEq, Repr

def Stage.isReplied : Stage → Bool
  | replied _ => true
  | _ => false

namespace AppState

def invalidDomain (domain : String) : IpcResponse :=
  .error ("Invalid domain name: " ++ domain)

def noRule (domain : String) : IpcResponse := .error ("No rule found for '" ++ domain ++ "'")

def noEphemeralRule (domain : String) : IpcResponse :=
  .error ("No ephemeral rule found for '" ++ domain ++ "'")

def accept (lib : TextLibrary) (order : IterationOrder String DnsRule) (st : AppState) :
    IpcRequest → AppState × Stage
  | .add domain target https =>
      if validateDomain lib domain then
        let added := st.store.add ⟨lib.toLowercase domain, target, https⟩
        ({ st with store := added.1 }, .announcing (.ruleAdded added.2))
      else (st, .replied (invalidDomain domain))
  | .addEphemeral domain target https =>
      if validateDomain lib domain then
        let added := st.store.addEphemeral ⟨lib.toLowercase domain, target, https⟩
        ({ st with store := added.1 }, .announcing (.ephemeralAdded added.2))
      else (st, .replied (invalidDomain domain))
  | .remove domain =>
      if validateDomain lib domain then
        let removed := st.store.remove (lib.toLowercase domain)
        match removed.2 with
        | some rule => ({ st with store := removed.1 }, .announcing (.ruleRemoved rule))
        | none => ({ st with store := removed.1 }, .replied (noRule (lib.toLowercase domain)))
      else (st, .replied (invalidDomain domain))
  | .removeEphemeral domain =>
      if validateDomain lib domain then
        let removed := st.store.removeEphemeral (lib.toLowercase domain)
        match removed.2 with
        | some rule => ({ st with store := removed.1 }, .announcing (.ephemeralRemoved rule))
        | none =>
            ({ st with store := removed.1 }, .replied (noEphemeralRule (lib.toLowercase domain)))
      else (st, .replied (invalidDomain domain))
  | .list => (st, .replied (.rules (st.store.snapshotPersistent order)))
  | .resolve domain =>
      if validateDomain lib domain then
        (st, .replied (.resolved (st.store.resolve (lib.toLowercase domain))))
      else (st, .replied (invalidDomain domain))
  | .status => (st, .replied (.status true st.store.len))
  | .stop => (st, .stopping)
  | .subscribe => (st, .replied .ok)

def proceed (st : AppState) : Stage → AppState × Stage
  | .announcing event => (st.dispatch event, .replied .ok)
  | .stopping => (st.dispatch .daemonStopped, .cancelling)
  | .cancelling => (st.cancel, .replied .ok)
  | .replied response => (st, .replied response)

def finish (st : AppState) : Stage → AppState × IpcResponse
  | .announcing event => (st.dispatch event, .ok)
  | .stopping => ((st.dispatch .daemonStopped).cancel, .ok)
  | .cancelling => (st.cancel, .ok)
  | .replied response => (st, response)

def handle (lib : TextLibrary) (order : IterationOrder String DnsRule) (st : AppState)
    (request : IpcRequest) : AppState × IpcResponse :=
  (st.accept lib order request).1.finish (st.accept lib order request).2

theorem finish_proceed (st : AppState) (stage : Stage) :
    (st.proceed stage).1.finish (st.proceed stage).2 = st.finish stage := by
  cases stage <;> rfl

end AppState

def RuleStore.mutate (s : RuleStore) (m : Mutation) : RuleStore :=
  ⟨(m.apply s.inner).1, m.apply_wellFormed s.wellFormed⟩

theorem RuleStore.toMaps_mutate (s : RuleStore) (m : Mutation) :
    (s.mutate m).inner.toMaps = (RuleMaps.mutate m s.inner.toMaps).1 :=
  congrArg Prod.fst (m.apply_refines s.wellFormed)

theorem RuleStore.mutate_unannounced {s : RuleStore} {m : Mutation}
    (h : m.announced s.inner = none) : s.mutate m = s :=
  RuleStore.ext_inner (InnerRuleStore.apply_of_announced_none h)

def Mutation.event : Mutation → DnsRule → DnsEvent
  | add _, rule => .ruleAdded rule
  | addEphemeral _, rule => .ephemeralAdded rule
  | remove _, rule => .ruleRemoved rule
  | removeEphemeral _, rule => .ephemeralRemoved rule

def Mutation.isPersistent : Mutation → Bool
  | add _ => true
  | addEphemeral _ => false
  | remove _ => true
  | removeEphemeral _ => false

@[simp] theorem Mutation.rule_event (m : Mutation) (rule : DnsRule) :
    (m.event rule).rule? = some rule := by
  cases m <;> rfl

@[simp] theorem Mutation.isPersistent_event (m : Mutation) (rule : DnsRule) :
    (m.event rule).isPersistent = m.isPersistent := by
  cases m <;> rfl

def IpcRequest.mutation (lib : TextLibrary) : IpcRequest → Option Mutation
  | add domain target https =>
      if validateDomain lib domain then some (.add ⟨lib.toLowercase domain, target, https⟩)
      else none
  | addEphemeral domain target https =>
      if validateDomain lib domain then
        some (.addEphemeral ⟨lib.toLowercase domain, target, https⟩)
      else none
  | remove domain =>
      if validateDomain lib domain then some (.remove (lib.toLowercase domain)) else none
  | removeEphemeral domain =>
      if validateDomain lib domain then some (.removeEphemeral (lib.toLowercase domain)) else none
  | _ => none

def IpcRequest.isMutating : IpcRequest → Bool
  | add _ _ _ => true
  | addEphemeral _ _ _ => true
  | remove _ => true
  | removeEphemeral _ => true
  | _ => false

inductive IpcRequest.Mutates (lib : TextLibrary) : IpcRequest → Mutation → Prop where
  | add {domain : String} {target : SocketAddr} {https : Bool}
      (hv : validateDomain lib domain = true) :
      Mutates lib (add domain target https) (.add ⟨lib.toLowercase domain, target, https⟩)
  | addEphemeral {domain : String} {target : SocketAddr} {https : Bool}
      (hv : validateDomain lib domain = true) :
      Mutates lib (addEphemeral domain target https)
        (.addEphemeral ⟨lib.toLowercase domain, target, https⟩)
  | remove {domain : String} (hv : validateDomain lib domain = true) :
      Mutates lib (remove domain) (.remove (lib.toLowercase domain))
  | removeEphemeral {domain : String} (hv : validateDomain lib domain = true) :
      Mutates lib (removeEphemeral domain) (.removeEphemeral (lib.toLowercase domain))

theorem IpcRequest.mutation_eq_some_iff {lib : TextLibrary} {request : IpcRequest}
    {m : Mutation} : request.mutation lib = some m ↔ request.Mutates lib m := by
  constructor
  · intro hm
    cases request with
    | add domain target https =>
      simp only [mutation] at hm
      split at hm <;> cases hm
      exact .add ‹_›
    | addEphemeral domain target https =>
      simp only [mutation] at hm
      split at hm <;> cases hm
      exact .addEphemeral ‹_›
    | remove domain =>
      simp only [mutation] at hm
      split at hm <;> cases hm
      exact .remove ‹_›
    | removeEphemeral domain =>
      simp only [mutation] at hm
      split at hm <;> cases hm
      exact .removeEphemeral ‹_›
    | _ => cases hm
  · intro hm
    cases hm with
    | add hv => exact if_pos hv
    | addEphemeral hv => exact if_pos hv
    | remove hv => exact if_pos hv
    | removeEphemeral hv => exact if_pos hv

namespace AppState

variable {lib : TextLibrary}

inductive Accepted (lib : TextLibrary) (st : AppState) (request : IpcRequest) :
    AppState × Stage → Prop where
  | announcing (m : Mutation) (rule : DnsRule) (hm : request.mutation lib = some m)
      (ha : m.announced st.store.inner = some rule) :
      Accepted lib st request ({ st with store := st.store.mutate m }, .announcing (m.event rule))
  | stopping (hs : request = .stop) : Accepted lib st request (st, .stopping)
  | replied (response : IpcResponse)
      (hm : ∀ m, request.mutation lib = some m → m.announced st.store.inner = none) :
      Accepted lib st request (st, .replied response)

theorem Accepted.removal {st : AppState} {request : IpcRequest} {m : Mutation}
    (hm : request.mutation lib = some m) (failure : IpcResponse) :
    Accepted lib st request
      (match m.announced st.store.inner with
      | some rule => ({ st with store := st.store.mutate m }, .announcing (m.event rule))
      | none => ({ st with store := st.store.mutate m }, .replied failure)) := by
  cases ha : m.announced st.store.inner with
  | some rule => exact .announcing m rule hm ha
  | none =>
    simp only [RuleStore.mutate_unannounced ha]
    refine .replied failure ?_
    intro m' hm'
    obtain rfl := Option.some.inj (hm.symm.trans hm')
    exact ha

theorem accept_cases (lib : TextLibrary) (order : IterationOrder String DnsRule) (st : AppState)
    (request : IpcRequest) : Accepted lib st request (st.accept lib order request) := by
  cases request with
  | add domain target https =>
    cases hv : validateDomain lib domain with
    | true =>
      simp only [accept, hv, if_pos]
      exact .announcing (.add _) _ (IpcRequest.mutation_eq_some_iff.mpr (.add hv)) rfl
    | false =>
      simp only [accept, hv]
      exact .replied _ (by simp [IpcRequest.mutation, hv])
  | addEphemeral domain target https =>
    cases hv : validateDomain lib domain with
    | true =>
      simp only [accept, hv, if_pos]
      exact .announcing (.addEphemeral _) _
        (IpcRequest.mutation_eq_some_iff.mpr (.addEphemeral hv)) rfl
    | false =>
      simp only [accept, hv]
      exact .replied _ (by simp [IpcRequest.mutation, hv])
  | remove domain =>
    cases hv : validateDomain lib domain with
    | false =>
      simp only [accept, hv]
      exact .replied _ (by simp [IpcRequest.mutation, hv])
    | true =>
      simp only [accept, hv, if_pos]
      exact .removal (IpcRequest.mutation_eq_some_iff.mpr (.remove hv)) _
  | removeEphemeral domain =>
    cases hv : validateDomain lib domain with
    | false =>
      simp only [accept, hv]
      exact .replied _ (by simp [IpcRequest.mutation, hv])
    | true =>
      simp only [accept, hv, if_pos]
      exact .removal (IpcRequest.mutation_eq_some_iff.mpr (.removeEphemeral hv)) _
  | resolve domain =>
    cases hv : validateDomain lib domain with
    | true =>
      simp only [accept, hv, if_pos]
      exact .replied _ (by simp [IpcRequest.mutation])
    | false =>
      simp only [accept, hv]
      exact .replied _ (by simp [IpcRequest.mutation])
  | stop => exact .stopping rfl
  | list => exact .replied _ (by simp [IpcRequest.mutation])
  | status => exact .replied _ (by simp [IpcRequest.mutation])
  | subscribe => exact .replied _ (by simp [IpcRequest.mutation])

theorem toMaps_accept (lib : TextLibrary) (order : IterationOrder String DnsRule) (st : AppState)
    (request : IpcRequest) :
    (st.accept lib order request).1.store.inner.toMaps =
      match request.mutation lib with
      | some m => (RuleMaps.mutate m st.store.inner.toMaps).1
      | none => st.store.inner.toMaps := by
  have hacc := st.accept_cases lib order request
  generalize st.accept lib order request = accepted at hacc
  cases hacc with
  | announcing m rule hm ha =>
    rw [hm]
    exact RuleStore.toMaps_mutate _ _
  | stopping hs =>
    rw [hs]
    rfl
  | replied response hn =>
    cases hm : request.mutation lib with
    | none => rfl
    | some m =>
      have hsame := st.store.toMaps_mutate m
      rw [RuleStore.mutate_unannounced (hn m hm)] at hsame
      exact hsame

theorem accept_rejects (lib : TextLibrary) (order : IterationOrder String DnsRule)
    (st : AppState) (request : IpcRequest) (hr : request.isMutating = true)
    (hm : request.mutation lib = none) :
    ∃ domain, st.accept lib order request = (st,.replied (invalidDomain domain)) := by
  cases request with
  | add domain target https =>
    have hv : validateDomain lib domain = false := by simpa [IpcRequest.mutation] using hm
    exact ⟨domain,by simp [accept, hv]⟩
  | addEphemeral domain target https =>
    have hv : validateDomain lib domain = false := by simpa [IpcRequest.mutation] using hm
    exact ⟨domain,by simp [accept, hv]⟩
  | remove domain =>
    have hv : validateDomain lib domain = false := by simpa [IpcRequest.mutation] using hm
    exact ⟨domain,by simp [accept, hv]⟩
  | removeEphemeral domain =>
    have hv : validateDomain lib domain = false := by simpa [IpcRequest.mutation] using hm
    exact ⟨domain,by simp [accept, hv]⟩
  | _ => cases hr

end AppState

end SideDns
